import Emma.Library.KeyedLines
import Emma.QueueBrief
import Emma.ShownFacts
import Mathlib.Data.List.AList

/-!
# The text of the stamp

The deploy writes three lines; the service reads them into a dictionary and the backup
reads each with `sed`. Where the file was written only in part, both read the part of
each value that has come.
-/

set_option autoImplicit false

namespace Emma.StampText
open KeyedLines Emma.Python Emma.ShownFacts

abbrev Text := List Char

def versionKey : Text := ['v','e','r','s','i','o','n']

def commitKey : Text := ['c','o','m','m','i','t']

def builtKey : Text := ['b','u','i','l','t']

structure Deployed where
  version : Text
  commit : Text
  built : Text

def Deployed.stamp (d : Deployed) : Text :=
  render '=' '\n' [(versionKey,d.version),(commitKey,d.commit),(builtKey,d.built)]

/-- `VERSION` of `core/version.py`. -/
def declared : Text := ['0','.','4','.','0']

/-- `_read_stamp`, where the file can be read or not. -/
def readStamp (file : Option Text) : AList fun _ : Text => Text :=
  match file with
  | none => ∅
  | some raw => (pairs isLineBreak '=' raw).foldl
      (fun stamp line => stamp.insert (stripChars line.1) (stripChars line.2)) ∅

/-- `or`, between two texts. -/
def orElse (a b : Text) : Text := if a = [] then b else a

def get (stamp : AList fun _ : Text => Text) (key : Text) : Text := (stamp.lookup key).getD []

/-- `summary`; `gitCommit` is what git says, if there is a checkout. -/
def summary (file : Option Text) (gitCommit : Text) : Deployed :=
  let stamp := readStamp file
  ⟨orElse (get stamp versionKey) declared,orElse (get stamp commitKey) gitCommit,
    get stamp builtKey⟩

/-- `sed -n 's/^key=//p'` and `head -1`. -/
def sedField (key file : Text) : Text := QueueBrief.field (key ++ ['=']) file

def unknownCommit : Text := "unknown (no git checkout and no VERSION stamp)".toList

def named (d : Deployed) : Text :=
  if d.commit = [] then unknownCommit
  else d.commit ++ " (v".toList ++ orElse d.version ['?'] ++ ", deployed ".toList ++
    orElse d.built ['?'] ++ "; from the VERSION stamp, not a checkout)".toList

/-- `GIT_COMMIT` of the backup, where there is no checkout. -/
def gitCommitOf (file : Option Text) : Text :=
  match file with
  | none => unknownCommit
  | some file => named ⟨sedField versionKey file,sedField commitKey file,sedField builtKey file⟩

/-- The part of each value that has come, of a file of so many characters. -/
def Deployed.part (d : Deployed) (n : ℕ) : Deployed :=
  ⟨d.version.take (n-8),d.commit.take (n-(d.version.length+16)),
    d.built.take (n-(d.version.length+d.commit.length+23))⟩

structure Deployed.OneLine (d : Deployed) : Prop where
  version : ∀ c ∈ d.version, isLineBreak c = false
  commit : ∀ c ∈ d.commit, isLineBreak c = false
  built : ∀ c ∈ d.built, isLineBreak c = false

/-! Both readers look a key up among the fields. -/

theorem sedField_lookup (key file : Text) (hkey : '=' ∉ key) :
    sedField key file = ((pairs (· == '\n') '=' file).lookup key).getD [] := by
  have hlines : ∀ lines : List Text,
      (lines.filter (key ++ ['=']).isPrefixOf).head?.elim []
          (fun line => line.drop (key ++ ['=']).length) =
        ((lines.filterMap (cut '=')).lookup key).getD [] := by
    intro lines
    induction lines with
    | nil => rfl
    | cons line lines ih =>
      by_cases hprefix : (key ++ ['=']) <+: line
      · obtain ⟨value,rfl⟩ := hprefix
        rw [List.filter_cons_of_pos (by simp), List.head?_cons, Option.elim_some, List.drop_left,
          List.append_assoc, List.singleton_append,
          List.filterMap_cons_some (cut_line key value hkey), List.lookup_cons_self,
          Option.getD_some]
      · rw [List.filter_cons_of_neg (by simpa using hprefix), ih]
        by_cases hmark : '=' ∈ line
        · obtain ⟨front,value,rfl,hfront⟩ := List.eq_append_cons_of_mem hmark
          have hother : key ≠ front := by
            rintro rfl
            exact hprefix ⟨value,by simp⟩
          rw [List.filterMap_cons_some (cut_line front value hfront), List.lookup_cons,
            beq_false_of_ne hother]
        · rw [List.filterMap_cons_none (cut_none line hmark)]
  exact hlines _

theorem lookup_fold (lines : List (Text × Text)) (start : AList fun _ : Text => Text)
    (hkeys : ∀ line ∈ lines, stripChars line.1 = line.1) (honce : (lines.map Prod.fst).Nodup)
    (key : Text) :
    (lines.foldl (fun stamp line => stamp.insert (stripChars line.1) (stripChars line.2))
      start).lookup key = ((lines.lookup key).map stripChars).or (start.lookup key) := by
  induction lines generalizing start with
  | nil => rfl
  | cons line lines ih =>
    obtain ⟨hfirst,hrest⟩ := List.nodup_cons.mp honce
    rw [List.foldl_cons, ih _ (fun l hl => hkeys l (List.mem_cons_of_mem _ hl)) hrest,
      hkeys line List.mem_cons_self]
    by_cases hsame : key = line.1
    · have hnone : lines.lookup key = none := by
        rw [List.lookup_eq_none_iff]
        intro other hother
        rw [bne_iff_ne]
        intro heq
        rw [← hsame, heq] at hfirst
        exact hfirst (List.mem_map_of_mem hother)
      rw [hnone, hsame, List.lookup_cons_self, AList.lookup_insert]
      rfl
    · rw [List.lookup_cons, beq_false_of_ne hsame, AList.lookup_insert_ne hsame]

section
variable (d : Deployed) (n : ℕ)

def Deployed.fields : List (Text × Text) :=
  [(versionKey,d.version),(commitKey,d.commit),(builtKey,d.built)]

def came (key : Text) : Text := ((arrived d.fields n).lookup key).getD []

theorem came_version : came d n versionKey = d.version.take (n-8) :=
  lookup_arrived [] _ versionKey d.version (by simp) n

theorem came_commit : came d n commitKey = d.commit.take (n-(d.version.length+16)) := by
  have hfound := lookup_arrived [(versionKey,d.version)] [(builtKey,d.built)] commitKey d.commit
    (by decide : commitKey ∉ [versionKey]) n
  rw [show offset [(versionKey,d.version)] commitKey = d.version.length+16 by
    simp [offset, versionKey, commitKey]; omega] at hfound
  exact hfound

theorem came_built : came d n builtKey =
    d.built.take (n-(d.version.length+d.commit.length+23)) := by
  have hfound := lookup_arrived [(versionKey,d.version),(commitKey,d.commit)] [] builtKey d.built
    (by decide : builtKey ∉ [versionKey,commitKey]) n
  rw [show offset [(versionKey,d.version),(commitKey,d.commit)] builtKey =
      d.version.length+d.commit.length+23 by
    simp [offset, versionKey, commitKey, builtKey]; omega] at hfound
  exact hfound

theorem fields_plain (p : Char → Bool) (h : d.OneLine)
    (hp : ∀ c, p c = true → isLineBreak c = true) : ∀ field ∈ d.fields, Plain p '=' field := by
  have hplain : ∀ text : Text, (∀ c ∈ text, isLineBreak c = false) → ∀ c ∈ text, p c = false := by
    intro text htext c hc
    by_contra hbreak
    simpa [htext c hc] using hp c (by simpa using hbreak)
  have hkey : ∀ key : Text, key.all (fun c => !isLineBreak c && c != '=') = true →
      ∀ c ∈ key, p c = false ∧ c ≠ '=' := by
    intro key hall
    simp only [List.all_eq_true, Bool.and_eq_true, Bool.not_eq_true', bne_iff_ne] at hall
    exact fun c hc => ⟨hplain key (fun c hc => (hall c hc).1) c hc,(hall c hc).2⟩
  intro field hfield
  simp only [Deployed.fields, List.mem_cons, List.not_mem_nil, or_false] at hfield
  rcases hfield with rfl | rfl | rfl
  · exact ⟨hkey versionKey (by decide),hplain _ h.version⟩
  · exact ⟨hkey commitKey (by decide),hplain _ h.commit⟩
  · exact ⟨hkey builtKey (by decide),hplain _ h.built⟩

theorem sedField_torn (h : d.OneLine) (key : Text) (hkey : '=' ∉ key) :
    sedField key (d.stamp.take n) = came d n key := by
  have hbreak : ∀ c, (c == '\n') = true → isLineBreak c = true := by
    intro c hc
    rw [beq_iff_eq.mp hc]
    rfl
  rw [sedField_lookup key _ hkey, Deployed.stamp, ← Deployed.fields,
    pairs_take (by decide) (by decide) _ (fields_plain d _ h hbreak)]
  rfl

theorem get_torn (h : d.OneLine) (key : Text) :
    get (readStamp (some (d.stamp.take n))) key = stripChars (came d n key) := by
  have hkeys := arrived_keys d.fields n
  have hstripped : ∀ key ∈ d.fields.map Prod.fst, stripChars key = key := by
    simp only [Deployed.fields, List.map_cons, List.map_nil]
    decide
  have honce : (d.fields.map Prod.fst).Nodup := by
    simp only [Deployed.fields, List.map_cons, List.map_nil]
    decide
  rw [get, readStamp, Deployed.stamp, ← Deployed.fields,
    pairs_take (by decide) (by decide) _ (fields_plain d _ h fun _ hc => hc),
    lookup_fold _ _ (fun line hline => hstripped _ (hkeys.subset (List.mem_map_of_mem hline)))
      (honce.sublist hkeys.sublist), AList.lookup_empty, came]
  cases (arrived d.fields n).lookup key with
  | none => rfl
  | some value => rfl

end

theorem part_whole (d : Deployed) (n : ℕ) (hn : d.stamp.length ≤ n+1) : d.part n = d := by
  have hlength : d.stamp.length = d.version.length+d.commit.length+d.built.length+24 := by
    simp [Deployed.stamp, render, versionKey, commitKey, builtKey]
    omega
  rw [Deployed.part, List.take_of_length_le (by omega), List.take_of_length_le (by omega),
    List.take_of_length_le (by omega)]

/-- Of a stamp of which any part was written, the service and the backup both have just
the part of each value that has come, the service without the blanks around it; and that
is all of it when no more than the last line end is missing. -/
theorem torn_stamp_read (d : Deployed) (h : d.OneLine) (n : ℕ) (gitCommit : Text) :
    summary (some (d.stamp.take n)) gitCommit =
        ⟨orElse (stripChars (d.part n).version) declared,
          orElse (stripChars (d.part n).commit) gitCommit,stripChars (d.part n).built⟩ ∧
      gitCommitOf (some (d.stamp.take n)) = named (d.part n) ∧
      (d.stamp.length ≤ n+1 → d.part n = d) := by
  refine ⟨?_,?_,part_whole d n⟩
  · simp only [summary, get_torn d n h, came_version, came_commit, came_built, Deployed.part]
  · rw [gitCommitOf]
    simp only [sedField_torn d n h _ (by decide : '=' ∉ versionKey),
      sedField_torn d n h _ (by decide : '=' ∉ commitKey),
      sedField_torn d n h _ (by decide : '=' ∉ builtKey), came_version, came_commit, came_built,
      Deployed.part]

def release : Deployed where
  version := ['0','.','4','.','0']
  commit := ['9','f','2','c','1','a','b']
  built := ['2','0','2','6','-','0','9','-','2','6']

/-- The file ends within the commit. -/
theorem release_torn : summary (some (release.stamp.take 25)) [] =
        ⟨orElse (stripChars (release.part 25).version) declared,
          orElse (stripChars (release.part 25).commit) [],stripChars (release.part 25).built⟩ ∧
      gitCommitOf (some (release.stamp.take 25)) = named (release.part 25) ∧
      (release.stamp.length ≤ 26 → release.part 25 = release) :=
  torn_stamp_read release ⟨@of_decide_eq_true _ (List.decidableBAll _ _) rfl,
    @of_decide_eq_true _ (List.decidableBAll _ _) rfl,
    @of_decide_eq_true _ (List.decidableBAll _ _) rfl⟩ 25 []

end Emma.StampText

import Emma.Library.Ranking
import Mathlib.Data.Char
import Mathlib.Data.List.AList
import Mathlib.Data.List.Lex

/-!
# The rotation of the backups

A run writes one archive, checks it, and deletes all but the first lines of a
listing sorted from the last name down. Whatever matches the pattern is in the
listing, and a name may take several lines. An archive has the number of the run
that made it, whatever the clock said then.
-/

set_option autoImplicit false

namespace Emma.BackupRotation
open Ranking

abbrev Name := List Char

inductive Kind where
  | regular
  | directory
  | other
  deriving DecidableEq, Repr

structure Entry where
  kind : Kind
  made : Option ℕ
  deriving DecidableEq, Repr

/-- How the tools match a pattern, and how they order two lines in the locale. -/
structure Tools where
  fnmatch : Name → Name → Bool
  collate : Name → Name → Bool
  collate_trans : ∀ a b c, collate a b = true → collate b c = true → collate a c = true
  collate_total : ∀ a b, collate a b = true ∨ collate b a = true
  collate_antisymm : ∀ a b, collate a b = true → collate b a = true → a = b

/-- `BACKUP_DIR`, with the number of runs so far. -/
structure Disk where
  entries : AList fun _ : Name => Entry
  runs : ℕ
  past : ∀ name entry, entries.lookup name = some entry → ∀ n, entry.made = some n → n < runs

namespace Disk

def put (d : Disk) (name : Name) (kind : Kind) : Disk where
  entries := d.entries.insert name ⟨kind,some d.runs⟩
  runs := d.runs+1
  past := by
    intro other entry hentry n hn
    by_cases hname : other = name
    · subst hname
      rw [AList.lookup_insert] at hentry
      obtain rfl := Option.some.inj hentry
      obtain rfl := Option.some.inj hn
      exact Nat.lt_succ_self d.runs
    · rw [AList.lookup_insert_ne hname] at hentry
      exact Nat.lt_succ_of_lt (d.past other entry hentry n hn)

def erase (d : Disk) (name : Name) : Disk where
  entries := d.entries.erase name
  runs := d.runs
  past := by
    intro other entry hentry n hn
    by_cases hname : other = name
    · subst hname
      rw [AList.lookup_erase] at hentry
      cases hentry
    · rw [AList.lookup_erase_ne hname] at hentry
      exact d.past other entry hentry n hn

def withArchive (d : Disk) (name : Name) : Disk :=
  d.put name ((d.entries.lookup name).elim .regular Entry.kind)

/-- `tar --create`. -/
def writeArchive (d : Disk) (name : Name) : Option Disk :=
  if (d.entries.lookup name).any fun entry => entry.kind = .directory then none
  else some (d.withArchive name)

/-- `rm -f`, which minds a directory and not a missing file. -/
def rm (d : Disk) (line : Name) : Option Disk :=
  if line = [] ∨ line = ['.'] ∨ line = ['.','.'] then none
  else if (d.entries.lookup line).any fun entry => entry.kind = .directory then none
  else some (d.erase line)

end Disk

def archiveName (project stamp : Name) : Name := project ++ '-'::stamp ++ ".tar.gz".toList

def pattern (project : Name) : Name := project ++ "-*.tar.gz".toList

/-- The lines that `find` prints. -/
def lines (tools : Tools) (project : Name) (d : Disk) : List Name :=
  (d.entries.keys.filter fun name =>
    (d.entries.lookup name).any (fun entry => entry.kind = .regular) &&
      tools.fnmatch (pattern project) name).flatMap fun name => name.splitOn '\n'

def rotate (tools : Tools) (project : Name) (keep : ℕ) (d : Disk) : Option Disk :=
  let archives := sortDown tools.collate (lines tools project d)
  if keep < archives.length then
    (archives.drop keep).foldlM (fun d stale => d.rm stale) d
  else some d

/-- A run, if it succeeds; `readable` is what `tar -t` says of the new archive. -/
def backup (tools : Tools) (project stamp : Name) (keep : ℕ) (readable : Bool) (d : Disk) :
    Option Disk :=
  if keep < 1 then none
  else do
    let d ← d.writeArchive (archiveName project stamp)
    if readable then rotate tools project keep d else none

def Made (d : Disk) (name : Name) (run : ℕ) : Prop :=
  (d.entries.lookup name).bind Entry.made = some run

/-- The new archive is there, and what is gone was made before all that is left. -/
structure NewestKept (archive : Name) (d d' : Disk) : Prop where
  fresh : Made d' archive d.runs
  older : ∀ a b i j, Made d a i → ¬Made d' a i → Made d' b j → i < j

def listing (tools : Tools) (project archive : Name) (d : Disk) : List Name :=
  (if ((d.entries.lookup archive).elim .regular Entry.kind : Kind) = .regular &&
      tools.fnmatch (pattern project) archive then archive.splitOn '\n' else []) ++
    lines tools project (d.erase archive)

def Behind (tools : Tools) (project archive : Name) (keep : ℕ) (d : Disk) (line : Name) : Prop :=
  line ∈ listing tools project archive d ∧
    keep < (listing tools project archive d).countP (tools.collate line)

/-- Of two archives the one that is no newer does not come after the other: its name
is above, or is not listed at all. -/
def Inverted (tools : Tools) (project archive : Name) (d : Disk) (a b : Name) : Prop :=
  a ≠ archive ∧ b ≠ archive ∧ (∃ i j, Made d a i ∧ Made d b j ∧ j ≤ i) ∧
    (b ∉ listing tools project archive d ∨ tools.collate b a = false)

/-- The names are such that the newest archives are above the last line kept: the new
one is, that line lies between no two archives whose names go against the order of the
runs, and whatever is no newer than an archive under the very name of the new one is
behind it. -/
structure WellNamed (tools : Tools) (project archive : Name) (keep : ℕ) (d : Disk) : Prop where
  fits : ¬Behind tools project archive keep d archive
  together : ∀ a b, Inverted tools project archive d a b →
    Behind tools project archive keep d a → Behind tools project archive keep d b
  repeated : ∀ b i j, Made d archive i → Made d b j → j ≤ i → b ≠ archive →
    Behind tools project archive keep d b

section
variable (d : Disk) (archive : Name)

theorem made_past (name : Name) (n : ℕ) (h : Made d name n) : n < d.runs := by
  obtain ⟨entry,hentry,hn⟩ := Option.bind_eq_some_iff.mp h
  exact d.past name entry hentry n hn

theorem made_withArchive (n : ℕ) : Made (d.withArchive archive) archive n ↔ n = d.runs := by
  simp [Made, Disk.withArchive, Disk.put, eq_comm]

theorem made_withArchive_other (name : Name) (hname : name ≠ archive) (n : ℕ) :
    Made (d.withArchive archive) name n ↔ Made d name n := by
  simp [Made, Disk.withArchive, Disk.put, AList.lookup_insert_ne hname]

end

theorem made_rm {d d' : Disk} {line : Name} (h : d.rm line = some d') (name : Name) (n : ℕ) :
    Made d' name n ↔ name ≠ line ∧ Made d name n := by
  unfold Disk.rm at h
  split at h
  · cases h
  split at h
  · cases h
  obtain rfl := Option.some.inj h
  by_cases hname : name = line
  · subst hname
    simp [Made, Disk.erase]
  · simp [Made, Disk.erase, AList.lookup_erase_ne hname, hname]

theorem made_foldlM {d d' : Disk} {stale : List Name}
    (h : stale.foldlM (fun d line => d.rm line) d = some d') (name : Name) (n : ℕ) :
    Made d' name n ↔ name ∉ stale ∧ Made d name n := by
  induction stale generalizing d with
  | nil =>
    obtain rfl := Option.some.inj h
    simp
  | cons line stale ih =>
    obtain ⟨next,hrm,hrest⟩ := Option.bind_eq_some_iff.mp h
    rw [ih hrest, made_rm hrm, List.mem_cons, not_or, and_left_comm, and_assoc]

def Falls (tools : Tools) (project : Name) (keep : ℕ) (d : Disk) (name : Name) : Prop :=
  name ∈ lines tools project d ∧ keep < (lines tools project d).countP (tools.collate name)

theorem made_rotate {tools : Tools} {project : Name} {keep : ℕ} {d d' : Disk}
    (h : rotate tools project keep d = some d') (name : Name) (n : ℕ) :
    Made d' name n ↔ ¬Falls tools project keep d name ∧ Made d name n := by
  have hfalls : name ∈ (sortDown tools.collate (lines tools project d)).drop keep ↔
      Falls tools project keep d name :=
    mem_drop_sortDown tools.collate tools.collate_trans tools.collate_total tools.collate_antisymm
      (lines tools project d) keep name
  unfold rotate at h
  dsimp only at h
  rw [← hfalls]
  split at h
  · exact made_foldlM h name n
  · rename_i hfew
    obtain rfl := Option.some.inj h
    rw [List.drop_eq_nil_of_le (Nat.le_of_not_lt hfew)]
    simp

theorem backup_rotates {tools : Tools} {project stamp : Name} {keep : ℕ} {readable : Bool}
    {d d' : Disk} (h : backup tools project stamp keep readable d = some d') :
    rotate tools project keep (d.withArchive (archiveName project stamp)) = some d' := by
  unfold backup at h
  split at h
  · cases h
  obtain ⟨w,hw,hrest⟩ := Option.bind_eq_some_iff.mp h
  unfold Disk.writeArchive at hw
  split at hw
  · cases hw
  obtain rfl := Option.some.inj hw
  cases readable with
  | true => exact hrest
  | false => cases hrest

theorem keeps_placed {d d' : Disk} {archive : Name} {Falling : Name → Prop}
    (hmade : ∀ name n, Made d' name n ↔ ¬Falling name ∧ Made (d.withArchive archive) name n) :
    NewestKept archive d d' ↔ ¬Falling archive ∧ ∀ a b i j, Made d a i → Made d b j → j ≤ i →
      b ≠ archive → a = archive ∨ Falling a → Falling b := by
  constructor
  · rintro ⟨hfresh,holder⟩
    constructor
    · exact ((hmade archive d.runs).mp hfresh).1
    · intro a b i j ha hb hle hne hlost
      by_contra hstays
      have hgone : ¬Made d' a i := by
        intro hthere
        obtain ⟨hkept,hwritten⟩ := (hmade a i).mp hthere
        rcases hlost with rfl | hfalls
        · have hnew := (made_withArchive d a i).mp hwritten
          have hold := made_past d a i ha
          omega
        · exact hkept hfalls
      have hkept : Made d' b j :=
        (hmade b j).mpr ⟨hstays,(made_withArchive_other d archive b hne j).mpr hb⟩
      have hless := holder a b i j ha hgone hkept
      omega
  · rintro ⟨hfits,hplaced⟩
    constructor
    · exact (hmade archive d.runs).mpr ⟨hfits,(made_withArchive d archive d.runs).mpr rfl⟩
    · intro a b i j ha hgone hkept
      have hpast := made_past d a i ha
      obtain ⟨hstays,hwritten⟩ := (hmade b j).mp hkept
      by_cases hb : b = archive
      · subst hb
        have hnew := (made_withArchive d b j).mp hwritten
        omega
      · rw [made_withArchive_other d archive b hb] at hwritten
        by_contra hless
        apply hstays
        apply hplaced a b i j ha hwritten (by omega) hb
        by_contra hneither
        rw [not_or] at hneither
        exact hgone ((hmade a i).mpr
          ⟨hneither.2,(made_withArchive_other d archive a hneither.1 i).mpr ha⟩)

theorem lines_withArchive (tools : Tools) (project archive : Name) (d : Disk) :
    lines tools project (d.withArchive archive) = listing tools project archive d := by
  have hothers : ∀ name ∈ (d.erase archive).entries.keys,
      (d.withArchive archive).entries.lookup name = (d.erase archive).entries.lookup name := by
    intro name hname
    have hne : name ≠ archive := (AList.mem_erase.mp (AList.mem_keys.mpr hname)).1
    rw [Disk.withArchive, Disk.put, Disk.erase, AList.lookup_insert_ne hne,
      AList.lookup_erase_ne hne]
  have hkeys : (d.withArchive archive).entries.keys = archive::(d.erase archive).entries.keys := by
    rw [Disk.withArchive, Disk.put, Disk.erase, AList.keys_insert, AList.keys_erase]
  rw [lines, hkeys, List.filter_cons, listing, lines]
  rw [List.filter_congr fun name hname => by rw [hothers name hname]]
  have hnew : (d.withArchive archive).entries.lookup archive =
      some ⟨(d.entries.lookup archive).elim .regular Entry.kind,some d.runs⟩ := by
    rw [Disk.withArchive, Disk.put, AList.lookup_insert]
  rw [hnew, Option.any_some]
  split
  · rw [List.flatMap_cons]
  · rfl

/-- What is listed below a line behind the last one kept is behind it too. -/
theorem behind_below {tools : Tools} {project archive : Name} {keep : ℕ} {d : Disk} {a b : Name}
    (ha : Behind tools project archive keep d a) (hb : b ∈ listing tools project archive d)
    (hbelow : tools.collate b a = true) : Behind tools project archive keep d b := by
  refine ⟨hb,Nat.lt_of_lt_of_le ha.2 ?_⟩
  exact List.countP_mono_left fun line _ habove => tools.collate_trans b a line hbelow habove

/-- A run that succeeds keeps the newest archives exactly when the names in the
directory are such. -/
theorem newest_kept_iff (tools : Tools) (project stamp : Name) (keep : ℕ) (readable : Bool)
    (d d' : Disk) (h : backup tools project stamp keep readable d = some d') :
    NewestKept (archiveName project stamp) d d' ↔
      WellNamed tools project (archiveName project stamp) keep d := by
  have hmade := made_rotate (backup_rotates h)
  generalize archiveName project stamp = archive at hmade ⊢
  have hfalling : ∀ name, Falls tools project keep (d.withArchive archive) name ↔
      Behind tools project archive keep d name := by
    intro name
    rw [Falls, Behind, lines_withArchive]
  simp only [hfalling] at hmade
  rw [keeps_placed hmade]
  constructor
  · rintro ⟨hfits,hplaced⟩
    constructor
    · exact hfits
    · rintro a b ⟨-,hb,⟨i,j,hi,hj,hle⟩,-⟩ hbehind
      exact hplaced a b i j hi hj hle hb (.inr hbehind)
    · exact fun b i j hi hj hle hb => hplaced archive b i j hi hj hle hb (.inl rfl)
  · rintro ⟨hfits,htogether,hrepeated⟩
    refine ⟨hfits,fun a b i j hi hj hle hb hlost => ?_⟩
    by_cases ha : a = archive
    · subst ha
      exact hrepeated b i j hi hj hle hb
    · have hbehind := hlost.resolve_left ha
      -- a pair in the order of the runs needs no condition
      by_cases hlisted : b ∈ listing tools project archive d
      · cases hbelow : tools.collate b a with
        | true => exact behind_below hbehind hlisted hbelow
        | false => exact htogether a b ⟨ha,hb,⟨i,j,hi,hj,hle⟩,.inr hbelow⟩ hbehind
      · exact htogether a b ⟨ha,hb,⟨i,j,hi,hj,hle⟩,.inl hlisted⟩ hbehind

/-- A name of one line that is listed stays where fewer others than are kept come
before it. -/
theorem new_name_fits_iff (tools : Tools) (project archive : Name) (keep : ℕ) (d : Disk)
    (hkind : (d.entries.lookup archive).elim .regular Entry.kind = .regular)
    (hmatch : tools.fnmatch (pattern project) archive = true) (hline : '\n' ∉ archive) :
    ¬Behind tools project archive keep d archive ↔
      (lines tools project (d.erase archive)).countP (tools.collate archive) < keep := by
  have hself : tools.collate archive archive = true := by
    simpa using tools.collate_total archive archive
  have hlisting : listing tools project archive d =
      archive::lines tools project (d.erase archive) := by
    rw [listing, if_pos (by simp [hkind, hmatch]), List.splitOn_eq_singleton hline]
    rfl
  rw [Behind, hlisting, List.countP_cons_of_pos hself]
  simp only [List.mem_cons_self, true_and]
  omega

/-- A pattern of plain characters around one star, and the order of the C locale. -/
def plainTools : Tools where
  fnmatch pattern name :=
    let front := pattern.takeWhile (· ≠ '*')
    let back := (pattern.dropWhile (· ≠ '*')).tail
    front.isPrefixOf name && back.isSuffixOf (name.drop front.length)
  collate a b := decide (a ≤ b)
  collate_trans := by
    intro a b c hab hbc
    exact decide_eq_true (le_trans (of_decide_eq_true hab) (of_decide_eq_true hbc))
  collate_total := by
    intro a b
    simpa using le_total a b
  collate_antisymm := by
    intro a b hab hba
    exact le_antisymm (of_decide_eq_true hab) (of_decide_eq_true hba)

def noBackup : Disk := ⟨∅,0,fun _ _ h => by simp at h⟩

def handMade : Disk where
  entries := (∅ : AList fun _ : Name => Entry).insert "emma-old.tar.gz".toList ⟨.regular,none⟩
  runs := 0
  past := by
    intro name entry hentry n hn
    by_cases hname : name = "emma-old.tar.gz".toList
    · rw [hname, AList.lookup_insert] at hentry
      obtain rfl := Option.some.inj hentry
      cases hn
    · rw [AList.lookup_insert_ne hname, AList.lookup_empty] at hentry
      cases hentry

def twoNights : Disk :=
  (noBackup.withArchive "emma-20260924-030000.tar.gz".toList).withArchive
    "emma-20260925-030000.tar.gz".toList

theorem made_twoNights (name : Name) (i : ℕ) (h : Made twoNights name i) :
    name = "emma-20260924-030000.tar.gz".toList ∧ i = 0 ∨
      name = "emma-20260925-030000.tar.gz".toList ∧ i = 1 := by
  by_cases hsecond : name = "emma-20260925-030000.tar.gz".toList
  · rw [hsecond, twoNights, made_withArchive] at h
    exact .inr ⟨hsecond,h⟩
  rw [twoNights, made_withArchive_other _ _ _ hsecond] at h
  by_cases hfirst : name = "emma-20260924-030000.tar.gz".toList
  · rw [hfirst, made_withArchive] at h
    exact .inl ⟨hfirst,h⟩
  rw [made_withArchive_other _ _ _ hfirst] at h
  cases h

/-- On the third night the archive of the first one goes. -/
theorem oldest_is_rotated_out : ∃ d',
    backup plainTools "emma".toList "20260926-030000".toList 2 true twoNights = some d' ∧
      ¬Made d' "emma-20260924-030000.tar.gz".toList 0 ∧
      NewestKept (archiveName "emma".toList "20260926-030000".toList) twoNights d' := by
  obtain ⟨d',hrun⟩ : ∃ d', backup plainTools "emma".toList "20260926-030000".toList 2 true
      twoNights = some d' := ⟨_,rfl⟩
  refine ⟨d',hrun,?_,(newest_kept_iff plainTools _ _ 2 true twoNights d' hrun).mpr ⟨?_,?_,?_⟩⟩
  · rw [made_rotate (backup_rotates hrun), Falls]
    exact fun h => h.1 (by decide)
  · exact fun hbehind => absurd hbehind.2 (by decide)
  · rintro a b ⟨-,-,⟨i,j,ha,hb,hle⟩,hnames⟩ hbehind
    rcases made_twoNights a i ha with ⟨rfl,rfl⟩ | ⟨rfl,rfl⟩
    · rcases made_twoNights b j hb with ⟨rfl,rfl⟩ | ⟨rfl,rfl⟩
      · exact hbehind
      · omega
    · exact absurd hbehind.2 (by decide)
  · intro b i j hi
    rcases made_twoNights _ i hi with ⟨h,-⟩ | ⟨h,-⟩
    · exact absurd h (by decide)
    · exact absurd h (by decide)

theorem new_archive_is_deleted : ∃ d',
    backup plainTools "emma".toList "20260926-030000".toList 1 true handMade = some d' ∧
      ¬NewestKept (archiveName "emma".toList "20260926-030000".toList) handMade d' := by
  refine ⟨_,rfl,?_⟩
  rintro ⟨hfresh,-⟩
  cases hfresh

structure Chronological (tools : Tools) (project : Name) (d : Disk) : Prop where
  once : (lines tools project d).Nodup
  own : ∀ name, name ∈ lines tools project d ↔ ∃ i, Made d name i
  order : ∀ a b i j, Made d a i → Made d b j → j ≤ i → tools.collate b a = true

theorem chronological_rotation (tools : Tools) (project stamp : Name) (keep : ℕ)
    (readable : Bool) (d d' : Disk) (h : backup tools project stamp keep readable d = some d')
    (hnew : ∀ i, ¬Made d (archiveName project stamp) i)
    (hlisting : Chronological tools project (d.withArchive (archiveName project stamp))) :
    NewestKept (archiveName project stamp) d d' := by
  have hkeep : 1 ≤ keep := by
    by_contra hfew
    rw [backup, if_pos (by omega)] at h
    cases h
  apply (keeps_placed (made_rotate (backup_rotates h))).mpr
  generalize archiveName project stamp = archive at hnew hlisting ⊢
  have hwritten := (made_withArchive d archive d.runs).mpr rfl
  constructor
  · rintro ⟨-,hmany⟩
    have hself : ∀ line ∈ lines tools project (d.withArchive archive),
        tools.collate archive line = true → (line == archive) = true := by
      intro line hline habove
      obtain ⟨i,hi⟩ := (hlisting.own line).mp hline
      have hpast : i < d.runs+1 := made_past _ line i hi
      have hbelow := hlisting.order archive line d.runs i hwritten hi (by omega)
      exact beq_iff_eq.mpr (tools.collate_antisymm line archive hbelow habove)
    have hcount := List.countP_mono_left hself
    have honce := List.nodup_iff_count_le_one.mp hlisting.once archive
    rw [List.count] at honce
    omega
  · intro a b i j ha hb hle hne hlost
    have hne' : a ≠ archive := fun hsame => hnew i (hsame ▸ ha)
    obtain ⟨-,hmany⟩ := hlost.resolve_left hne'
    have ha' := (made_withArchive_other d archive a hne' i).mpr ha
    have hb' := (made_withArchive_other d archive b hne j).mpr hb
    have hbelow := hlisting.order a b i j ha' hb' hle
    refine ⟨(hlisting.own b).mpr ⟨j,hb'⟩,Nat.lt_of_lt_of_le hmany ?_⟩
    exact List.countP_mono_left fun line _ habove =>
      tools.collate_trans b a line hbelow habove

end Emma.BackupRotation

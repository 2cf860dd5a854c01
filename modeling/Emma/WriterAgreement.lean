import Emma.QueueListing
import Emma.QueueMoves

/-!
# The script against the store

The same updates are written twice. A request to the script is a line of words
with the note behind them; the store gets the number, the stage and the note as
they are. The script does not ask whether there was a task to update, and cuts
the note in its own way.
-/

set_option autoImplicit false

namespace Emma.WriterAgreement
open Emma.Python Emma.Tasks Emma.DevelopmentTools Emma.QueueScript Emma.QueueMoves
open Emma.QueueListing

inductive Channel where
  | ssh
  | byHand

inductive Verb where
  | advance (stage : Stage)
  | finish
  | abandon

namespace Verb

def words (taskId : ℤ) : Verb → List String
  | advance stage => ["advance",toString taskId,stageText stage]
  | finish => ["finish",toString taskId]
  | abandon => ["abandon",toString taskId]

def operation (taskId : ℤ) (note : String) : Verb → Operation
  | advance stage => .advance taskId (stageText stage) note
  | finish => .finish taskId note
  | abandon => .abandon taskId note

def action (taskId : ℕ) (note : String) : Verb → Action
  | advance stage => .advance taskId stage note
  | finish => .finish taskId note
  | abandon => .abandon taskId note

def effect (taskId : ℤ) (note : String) : Verb → Effect
  | advance stage => .asked taskId stage note
  | finish => .finished taskId note
  | abandon => .abandoned taskId note

end Verb

def request (words : List String) (note : String) : Channel → Request
  | .ssh => ⟨" ".intercalate (words ++ [note]),[]⟩
  | .byHand => ⟨"",words ++ [note]⟩

def Unquoted (note : String) : Prop :=
  let text := note.toList.dropWhile isBlank
  ¬(text.head? = some '"' ∧ text.getLast? = some '"' ∧ 2 ≤ text.length)

instance (note : String) : Decidable (Unquoted note) := instDecidableNot

def scriptNote (note : String) : String := String.ofList (chomp (note.toList.dropWhile isBlank))

def Plain (word : List Char) : Prop := word ≠ [] ∧ ∀ c ∈ word, isBlank c = false

theorem plain_of_all (word : List Char) (h : (!word.isEmpty && word.all fun c => !isBlank c) = true) :
    Plain word := by
  simpa [Plain, List.all_eq_true] using h

def sent (words : List (List Char)) (note : List Char) : List Char :=
  words.foldr (fun word rest => word ++ ' ' :: rest) note

theorem isBlank_of_isSeparator (c : Char) (h : isSeparator c = true) : isBlank c = true := by
  simp only [isSeparator, Bool.or_eq_true, decide_eq_true_eq] at h
  rcases h with rfl | rfl <;> decide

theorem isSpace_of_isBlank (c : Char) (h : isBlank c = true) : isSpace c = true := by
  simp only [isBlank, Bool.or_eq_true, decide_eq_true_eq, Bool.and_eq_true] at h
  rcases h with rfl | h
  · decide
  · simp [isSpace, h]

theorem join_sent (words : List (List Char)) (note : List Char) :
    [' '].intercalate (words ++ [note]) = sent words note := by
  induction words with
  | nil => simp [sent]
  | cons word words ih =>
    have hrest : words ++ [note] ≠ [] := by simp
    obtain ⟨next,rest,hnext⟩ := List.exists_cons_of_ne_nil hrest
    rw [hnext] at ih
    rw [List.cons_append, hnext, List.intercalate_cons_cons, ih]
    simp [sent]

theorem line_toList (words : List String) (note : String) :
    (" ".intercalate (words ++ [note])).toList = sent (words.map String.toList) note.toList := by
  rw [String.toList_intercalate, List.map_append, List.map_singleton, ← join_sent]
  rfl

/-- `read` sees the words of its first line. -/
theorem words_sent (words : List (List Char)) (note : List Char) (h : ∀ word ∈ words, Plain word) :
    Delimited.words isSeparator ((sent words note).takeWhile (· ≠ '\n')) =
      words ++ Delimited.words isSeparator (note.takeWhile (· ≠ '\n')) := by
  induction words with
  | nil => rfl
  | cons word words ih =>
    obtain ⟨hsome,hplain⟩ := h word List.mem_cons_self
    have hline : ∀ c ∈ word, decide (c ≠ '\n') = true := by
      intro c hc
      have hnot := hplain c hc
      apply decide_eq_true
      rintro rfl
      cases hnot
    have hseparator : ∀ c ∈ word, isSeparator c = false := by
      intro c hc
      apply Bool.eq_false_iff.mpr
      intro hsep
      have hblank := isBlank_of_isSeparator c hsep
      rw [hplain c hc] at hblank
      cases hblank
    have hrest := ih fun other hother => h other (List.mem_cons_of_mem word hother)
    have hsent : sent (word::words) note = word ++ ' ' :: sent words note := rfl
    rw [hsent, List.takeWhile_append_of_pos hline, List.takeWhile_cons_of_pos (by decide),
      Delimited.words_append_break isSeparator word _ ' ' (by decide),
      Delimited.words_word isSeparator word hsome hseparator, hrest]
    rfl

def dropWord (text : List Char) : List Char :=
  (text.dropWhile isBlank).dropWhile fun c => !isBlank c

theorem dropWord_word (word rest : List Char) (h : Plain word) :
    dropWord (word ++ ' ' :: rest) = ' ' :: rest := by
  obtain ⟨hsome,hplain⟩ := h
  obtain ⟨c,cs,rfl⟩ := List.exists_cons_of_ne_nil hsome
  have hfirst : isBlank c = false := hplain c List.mem_cons_self
  rw [dropWord, List.cons_append, List.dropWhile_cons_of_neg (by simp [hfirst]),
    ← List.cons_append, List.dropWhile_append_of_pos (by simpa using hplain),
    List.dropWhile_cons_of_neg (by decide)]

theorem dropWord_blank (text : List Char) : dropWord (' ' :: text) = dropWord text := by
  rw [dropWord, List.dropWhile_cons_of_pos (by decide)]
  rfl

theorem drop_sent (words : List (List Char)) (note : List Char) (h : ∀ word ∈ words, Plain word) :
    (dropWord^[words.length] (sent words note)).dropWhile isBlank = note.dropWhile isBlank := by
  have hafter : ∀ words : List (List Char), (∀ word ∈ words, Plain word) → words ≠ [] →
      dropWord^[words.length] (sent words note) = ' ' :: note := by
    intro words h hsome
    induction words with
    | nil => exact absurd rfl hsome
    | cons word words ih =>
      have hone : dropWord (sent (word::words) note) = ' ' :: sent words note :=
        dropWord_word word _ (h word List.mem_cons_self)
      rw [List.length_cons, Function.iterate_succ_apply, hone]
      cases words with
      | nil => rfl
      | cons next words =>
        have hrest := ih (fun other hother => h other (List.mem_cons_of_mem word hother)) (by simp)
        rw [List.length_cons, Function.iterate_succ_apply, dropWord_blank,
          ← Function.iterate_succ_apply]
        exact hrest
  cases words with
  | nil => rfl
  | cons word words =>
    rw [hafter (word::words) h (by simp), List.dropWhile_cons_of_pos (by decide)]

theorem trailingText_sent (words : List String) (note : String)
    (h : ∀ word ∈ words, Plain word.toList) (hunquoted : Unquoted note) :
    trailingText words.length (" ".intercalate (words ++ [note])) = scriptNote note := by
  have hdrop : (dropWord^[words.length] (" ".intercalate (words ++ [note])).toList).dropWhile
      isBlank = note.toList.dropWhile isBlank := by
    rw [line_toList, ← List.length_map (f := String.toList)]
    apply drop_sent
    intro word hword
    obtain ⟨text,htext,rfl⟩ := List.mem_map.mp hword
    exact h text htext
  unfold trailingText scriptNote
  dsimp only
  change String.ofList (chomp (if ((dropWord^[words.length] _).dropWhile isBlank).head? = some '"' ∧
    ((dropWord^[words.length] _).dropWhile isBlank).getLast? = some '"' ∧
    2 ≤ ((dropWord^[words.length] _).dropWhile isBlank).length then _ else
      (dropWord^[words.length] _).dropWhile isBlank)) = _
  rw [hdrop, if_neg hunquoted]

theorem negative_toList (n : ℕ) :
    (toString (Int.negSucc n)).toList = '-' :: (toString (n+1)).toList := by
  change ("-" ++ toString (n+1)).toList = _
  rw [String.toList_append]
  rfl

theorem number_plain (taskId : ℤ) : Plain (toString taskId).toList := by
  have hdigits : ∀ n : ℕ, Plain (toString n).toList := by
    intro n
    rw [Nat.toString_eq_repr, Nat.toList_repr]
    constructor
    · exact Nat.toDigits_ne_nil
    · intro c hc
      have hdigit := Nat.isDigit_of_mem_toDigits (by decide) (by decide) hc
      apply Bool.eq_false_iff.mpr
      intro hblank
      simp only [isBlank, Bool.or_eq_true, decide_eq_true_eq, Bool.and_eq_true] at hblank
      simp only [Char.isDigit, Bool.and_eq_true, decide_eq_true_eq] at hdigit
      rcases hblank with rfl | hblank
      · exact absurd hdigit.1 (by decide)
      · have hlow : 48 ≤ c.toNat := hdigit.1
        omega
  cases taskId with
  | ofNat n => exact hdigits n
  | negSucc n =>
    rw [negative_toList]
    constructor
    · simp
    · intro c hc
      rcases List.mem_cons.mp hc with rfl | hc
      · decide
      · exact (hdigits (n+1)).2 c hc

theorem stage_plain (stage : Stage) : Plain (stageText stage).toList := by
  apply plain_of_all
  cases stage <;> decide

theorem words_plain (verb : Verb) (taskId : ℤ) : ∀ word ∈ verb.words taskId, Plain word.toList := by
  have hnumber := number_plain taskId
  cases verb with
  | advance stage =>
    have hverb : Plain "advance".toList := plain_of_all _ (by decide)
    simp only [Verb.words, List.forall_mem_cons, List.not_mem_nil, false_imp_iff, implies_true,
      and_true]
    exact ⟨hverb,hnumber,stage_plain stage⟩
  | finish =>
    have hverb : Plain "finish".toList := plain_of_all _ (by decide)
    simp only [Verb.words, List.forall_mem_cons, List.not_mem_nil, false_imp_iff, implies_true,
      and_true]
    exact ⟨hverb,hnumber⟩
  | abandon =>
    have hverb : Plain "abandon".toList := plain_of_all _ (by decide)
    simp only [Verb.words, List.forall_mem_cons, List.not_mem_nil, false_imp_iff, implies_true,
      and_true]
    exact ⟨hverb,hnumber⟩

theorem line_ne (words : List String) (note : String) (hsome : words ≠ [])
    (h : ∀ word ∈ words, Plain word.toList) : " ".intercalate (words ++ [note]) ≠ "" := by
  obtain ⟨word,rest,rfl⟩ := List.exists_cons_of_ne_nil hsome
  intro hempty
  have hline := congrArg String.toList hempty
  rw [line_toList] at hline
  have hword := (h word List.mem_cons_self).1
  simp [sent] at hline

theorem raw_request (words : List String) (note : String) (channel : Channel) (hsome : words ≠ [])
    (h : ∀ word ∈ words, Plain word.toList) :
    (request words note channel).raw = " ".intercalate (words ++ [note]) := by
  cases channel with
  | ssh => exact if_neg (line_ne words note hsome h)
  | byHand => rfl

theorem args_request (words : List String) (note : String) (channel : Channel) (hsome : words ≠ [])
    (h : ∀ word ∈ words, Plain word.toList) :
    ∃ tail, (request words note channel).args = words ++ tail := by
  cases channel with
  | byHand => exact ⟨[note],rfl⟩
  | ssh =>
    refine ⟨(Delimited.words isSeparator (note.toList.takeWhile (· ≠ '\n'))).map String.ofList,?_⟩
    have hwords : ∀ word ∈ words.map String.toList, Plain word := by
      intro word hword
      obtain ⟨text,htext,rfl⟩ := List.mem_map.mp hword
      exact h text htext
    dsimp only [request, Request.args]
    rw [if_neg (line_ne words note hsome h), line_toList, words_sent _ _ hwords, List.map_append,
      List.map_map]
    congr 1
    exact (List.map_congr_left fun word _ => String.ofList_toList).trans (List.map_id words)

theorem requireInt_number (taskId : ℕ) : requireInt (toString (taskId : ℤ)) = .ok taskId := by
  have htext : toString (taskId : ℤ) = toString taskId := rfl
  have hchars : (toString taskId).toList = Nat.toDigits 10 taskId := by
    rw [Nat.toString_eq_repr, Nat.toList_repr]
  have hsome : toString taskId ≠ "" := by
    intro hempty
    have hnil := congrArg String.toList hempty
    rw [hchars] at hnil
    exact absurd hnil Nat.toDigits_ne_nil
  have hdigits : (toString taskId).toList.all Char.isDigit = true := by
    rw [hchars, List.all_eq_true]
    exact Delimited.digits_run taskId
  rw [htext, requireInt, if_pos ⟨hsome,hdigits⟩, hchars,
    Nat.ofDigitChars_toDigits (by decide) (by decide)]

theorem requireInt_negative (taskId : ℕ) :
    ∃ refusal, requireInt (toString (Int.negSucc taskId)) = .error refusal := by
  refine ⟨_,if_neg ?_⟩
  rintro ⟨-,hdigits⟩
  rw [negative_toList] at hdigits
  cases hdigits

theorem requireStage_text (stage : Stage) : requireStage (stageText stage) = .ok stage := by
  cases stage <;> rfl

/-- A request with a number is understood as the verb, the number and the note
that the script cuts out. -/
theorem understood_request (verb : Verb) (taskId : ℕ) (note : String) (channel : Channel)
    (hunquoted : Unquoted note) (hsome : scriptNote note ≠ "") :
    understood (request (verb.words taskId) note channel) =
      .ok (verb.action taskId (scriptNote note)) := by
  have hplain := words_plain verb taskId
  have hwords : verb.words taskId ≠ [] := by cases verb <;> simp [Verb.words]
  have htrailing := trailingText_sent (verb.words taskId) note hplain hunquoted
  have hraw := raw_request (verb.words taskId) note channel hwords hplain
  obtain ⟨tail,hargs⟩ := args_request (verb.words taskId) note channel hwords hplain
  have hnumber := requireInt_number taskId
  rw [← hraw] at htrailing
  generalize request (verb.words taskId) note channel = r at htrailing hargs
  cases verb with
  | advance stage =>
    have hverb : r.word 0 = "advance" := by rw [Request.word, hargs]; rfl
    have hid : requireInt (r.word 1) = .ok taskId := by rw [Request.word, hargs]; exact hnumber
    have hstage : requireStage (r.word 2) = .ok stage := by
      rw [Request.word, hargs]
      exact requireStage_text stage
    have htext : trailingText 3 r.raw = scriptNote note := htrailing
    simp [understood, hverb, hid, hstage, htext, hsome, bind, Except.bind,
      pure, Except.pure, Verb.action]
  | finish =>
    have hverb : r.word 0 = "finish" := by rw [Request.word, hargs]; rfl
    have hid : requireInt (r.word 1) = .ok taskId := by rw [Request.word, hargs]; exact hnumber
    have htext : trailingText 2 r.raw = scriptNote note := htrailing
    simp [understood, hverb, hid, htext, bind, Except.bind, pure, Except.pure,
      Verb.action]
  | abandon =>
    have hverb : r.word 0 = "abandon" := by rw [Request.word, hargs]; rfl
    have hid : requireInt (r.word 1) = .ok taskId := by rw [Request.word, hargs]; exact hnumber
    have htext : trailingText 2 r.raw = scriptNote note := htrailing
    simp [understood, hverb, hid, htext, bind, Except.bind, pure, Except.pure,
      Verb.action]

theorem understood_negative (verb : Verb) (taskId : ℕ) (note : String) (channel : Channel) :
    ∃ refusal, understood (request (verb.words (Int.negSucc taskId)) note channel) =
      .error refusal := by
  have hplain := words_plain verb (Int.negSucc taskId)
  have hwords : verb.words (Int.negSucc taskId) ≠ [] := by cases verb <;> simp [Verb.words]
  obtain ⟨tail,hargs⟩ := args_request (verb.words (Int.negSucc taskId)) note channel hwords hplain
  obtain ⟨refusal,hrefused⟩ := requireInt_negative taskId
  refine ⟨refusal,?_⟩
  generalize request (verb.words (Int.negSucc taskId)) note channel = r at hargs
  cases verb with
  | advance stage =>
    have hverb : r.word 0 = "advance" := by rw [Request.word, hargs]; rfl
    have hid : requireInt (r.word 1) = .error refusal := by
      rw [Request.word, hargs]
      exact hrefused
    simp [understood, hverb, hid, bind, Except.bind]
  | finish =>
    have hverb : r.word 0 = "finish" := by rw [Request.word, hargs]; rfl
    have hid : requireInt (r.word 1) = .error refusal := by
      rw [Request.word, hargs]
      exact hrefused
    simp [understood, hverb, hid, bind, Except.bind]
  | abandon =>
    have hverb : r.word 0 = "abandon" := by rw [Request.word, hargs]; rfl
    have hid : requireInt (r.word 1) = .error refusal := by
      rw [Request.word, hargs]
      exact hrefused
    simp [understood, hverb, hid, bind, Except.bind]

/-- After the blanks in front and the line ends behind, the note has no white
space left at either end. -/
structure Tight (note : String) : Prop where
  opening : ∀ c ∈ (note.toList.dropWhile isBlank).head?, isSpace c = false
  closing : ∀ c ∈ (chomp note.toList).getLast?, isSpace c = false

theorem chomp_ne_nil (note : String) (h : strip note ≠ "") :
    chomp (note.toList.dropWhile isBlank) ≠ [] := by
  intro hnil
  apply h
  have hends := List.rdropWhile_eq_nil_iff.mp hnil
  have hspaces : ∀ c ∈ note.toList, isSpace c = true := by
    intro c hc
    rw [← List.takeWhile_append_dropWhile (p := isBlank) (l := note.toList),
      List.mem_append] at hc
    rcases hc with hc | hc
    · exact isSpace_of_isBlank c (List.mem_takeWhile_imp hc)
    · have hend := hends c hc
      simp only [decide_eq_true_eq] at hend
      rw [hend]
      decide
  rw [strip, stripChars, List.dropWhile_eq_nil_iff.mpr hspaces]
  rfl

/-- The line ends behind the note are cut off whether or not the blanks in front
were dropped before. -/
theorem chomp_blanks (text : List Char) (h : chomp (text.dropWhile isBlank) ≠ []) :
    chomp text = text.takeWhile isBlank ++ chomp (text.dropWhile isBlank) := by
  have hsplit : text = (text.takeWhile isBlank ++ chomp (text.dropWhile isBlank)) ++
      (text.dropWhile isBlank).rtakeWhile (· = '\n') := by
    rw [List.append_assoc, chomp, List.rdropWhile_append_rtakeWhile,
      List.takeWhile_append_dropWhile]
  conv_lhs => rw [hsplit]
  apply Delimited.rdropWhile_run
  · intro c hc
    exact List.mem_rtakeWhile_imp (p := fun c => decide (c = '\n')) hc
  · intro c hc
    rw [List.getLast?_append_of_ne_nil _ h, List.getLast?_eq_some_getLast h] at hc
    rw [← Option.some.inj hc]
    exact Bool.eq_false_iff.mpr (List.rdropWhile_last_not _ _ h)

/-- Both writers keep the same of a note exactly when it is tight. -/
theorem strip_eq_iff (note : String) (h : strip note ≠ "") :
    strip note = scriptNote note ↔ Tight note := by
  have hsome := chomp_ne_nil note h
  have hchomp := chomp_blanks note.toList hsome
  have hlast : (chomp note.toList).getLast? = (chomp (note.toList.dropWhile isBlank)).getLast? := by
    rw [hchomp, List.getLast?_append_of_ne_nil _ hsome]
  have hhead : (note.toList.dropWhile isBlank).head? =
      (chomp (note.toList.dropWhile isBlank)).head? := by
    obtain ⟨rest,hrest⟩ := List.rdropWhile_prefix (· = '\n') (note.toList.dropWhile isBlank)
    conv_lhs => rw [← hrest]
    exact List.head?_append_of_ne_nil _ hsome
  constructor
  · intro hsame
    obtain ⟨hopening,hclosing⟩ := strip_ends note
    rw [hsame, scriptNote, String.toList_ofList] at hopening hclosing
    exact ⟨hhead ▸ hopening,hlast ▸ hclosing⟩
  · intro htight
    have hdrop : note.toList.dropWhile isSpace = note.toList.dropWhile isBlank := by
      conv_lhs => rw [← List.takeWhile_append_dropWhile (p := isBlank) (l := note.toList)]
      apply Delimited.dropWhile_run
      · intro c hc
        exact isSpace_of_isBlank c (List.mem_takeWhile_imp hc)
      · exact htight.opening
    rw [strip, stripChars, hdrop, scriptNote]
    congr 1
    conv_lhs => rw [← List.rdropWhile_append_rtakeWhile (p := fun c => decide (c = '\n'))
      (l := note.toList.dropWhile isBlank)]
    apply Delimited.rdropWhile_run
    · intro c hc
      have hend := List.mem_rtakeWhile_imp (p := fun c => decide (c = '\n')) hc
      simp only [decide_eq_true_eq] at hend
      rw [hend]
      decide
    · exact hlast ▸ htight.closing

def timeless (t : TaskTable) : List (ℕ × Task) :=
  t.rows.map fun row => (row.1,{ row.2 with updatedAt := 0 })

/-- The verb of the script and the method of the store, from one state. -/
structure Agree (clock : Clock) (s : Stores) (verb : Verb) (taskId : ℤ) (note : String)
    (channel : Channel) : Prop where
  rows : timeless (QueueScript.run clock (request (verb.words taskId) note channel) s).2.tasks =
    timeless ((verb.operation taskId note).perform clock s).2.tasks
  counter : (QueueScript.run clock (request (verb.words taskId) note channel) s).2.tasks.seq =
    ((verb.operation taskId note).perform clock s).2.tasks.seq
  success : (QueueScript.run clock (request (verb.words taskId) note channel) s).1.isOk = true ↔
    ((verb.operation taskId note).perform clock s).1 = .ok true

def Known (t : TaskTable) (taskId : ℤ) : Prop :=
  (bound taskId).isOk = true ∧ ∃ (id : ℕ) (task : Task), (id : ℤ) = taskId ∧ t.find id = some task

def Verb.onto (note : String) (now : ℚ) (task : Task) : Verb → Task
  | .advance stage => { task with
      stage := stage, note := note, answer := "", status := .waitingUser, updatedAt := now }
  | .finish => { task with status := .done, stage := .deployed, note := note, updatedAt := now }
  | .abandon => { task with status := .abandoned, note := note, updatedAt := now }

theorem effect_edit (verb : Verb) (taskId : ℤ) (note : String) (now : ℚ) :
    (verb.effect taskId note).edit now =
      .rewrite taskId (fun _ => true) fun task => verb.onto note now task := by
  cases verb <;> rfl

theorem operation_effect (verb : Verb) (taskId : ℤ) (note : String) :
    (verb.operation taskId note).effect = .bounded taskId (verb.effect taskId (strip note)) := by
  cases verb with
  | advance stage =>
    have hstage : stageOrder.lookup (stageText stage) = some stage := by cases stage <;> rfl
    dsimp only [Verb.operation, Operation.effect]
    rw [hstage]
    rfl
  | finish => rfl
  | abandon => rfl

theorem operation_ok (clock : Clock) (s : Stores) (verb : Verb) (taskId : ℤ) (note : String) :
    ((verb.operation taskId note).perform clock s).1 = .ok true ↔
      ((verb.operation taskId note).effect.edit (clock s.readings)).lands s.tasks = true := by
  cases verb with
  | advance stage => exact Operation.advance_ok clock s taskId (stageText stage) note
  | finish => exact (onTasks_updateWhere clock s taskId (.finished taskId (strip note)) _ _
      fun _ => rfl).2
  | abandon => exact (onTasks_updateWhere clock s taskId (.abandoned taskId (strip note)) _ _
      fun _ => rfl).2

theorem bounded_known (t : TaskTable) (taskId : ℤ) (e : Effect) (h : Known t taskId) :
    Effect.bounded taskId e = e := if_pos h.1

theorem store_ok (clock : Clock) (s : Stores) (verb : Verb) (taskId : ℤ) (note : String) :
    ((verb.operation taskId note).perform clock s).1 = .ok true ↔ Known s.tasks taskId := by
  rw [operation_ok, operation_effect]
  by_cases hbound : (bound taskId).isOk = true
  · rw [Effect.bounded, if_pos hbound, effect_edit, Edit.lands_rewrite]
    constructor
    · rintro ⟨id,task,hfind,hid,-⟩
      exact ⟨hbound,id,task,hid,hfind⟩
    · rintro ⟨-,id,task,hid,hfind⟩
      exact ⟨id,task,hfind,hid,rfl⟩
  · rw [Effect.bounded, if_neg hbound]
    constructor
    · intro hlands
      cases hlands
    · intro hknown
      exact absurd hknown.1 hbound

theorem rewrite_unknown (t : TaskTable) (taskId : ℤ) (guard : Task → Bool) (f : Task → Task)
    (h : ∀ (id : ℕ) (task : Task), t.find id = some task → (id : ℤ) ≠ taskId) :
    (Edit.rewrite taskId guard f).apply t = t := by
  apply RowTable.update_none
  intro row hrow
  have hid := h row.1 row.2 ((t.find_iff row.1 row.2).mpr hrow)
  simp [hid]

theorem store_negative (clock : Clock) (s : Stores) (verb : Verb) (taskId : ℕ) (note : String) :
    ((verb.operation (Int.negSucc taskId) note).perform clock s).2.tasks = s.tasks := by
  rw [Operation.perform_edit, operation_effect]
  rcases Effect.bounded_cases (Int.negSucc taskId) (verb.effect (Int.negSucc taskId) (strip note))
    with hnone | hsame
  · rw [hnone]
    rfl
  · rw [hsame, effect_edit, rewrite_unknown]
    intro id task _
    omega

theorem script_tasks (clock : Clock) (s : Stores) (verb : Verb) (taskId : ℕ) (note : String)
    (channel : Channel) (hunquoted : Unquoted note) (hsome : scriptNote note ≠ "") :
    (QueueScript.run clock (request (verb.words taskId) note channel) s).2.tasks =
      ((verb.effect taskId (scriptNote note)).edit (clock (s.readings+1))).apply s.tasks := by
  rw [run_eq, understood_request verb taskId note channel hunquoted hsome]
  have haction := action_edit clock (DevelopmentTools.touch clock s)
    (verb.action taskId (scriptNote note))
  have heffect : actionEffect (verb.action taskId (scriptNote note)) =
      verb.effect taskId (scriptNote note) := by cases verb <;> rfl
  rw [heffect] at haction
  exact haction

theorem run_isOk (clock : Clock) (r : Request) (s : Stores) :
    (QueueScript.run clock r s).1.isOk = true ↔ ∃ action, understood r = .ok action := by
  cases hunderstood : understood r with
  | ok action =>
    obtain ⟨hword,hverb⟩ := isVerb_understood r action hunderstood
    rw [QueueScript.run, if_neg hword, if_neg (by simp [hverb])]
    simp [hunderstood, Except.isOk, Except.toBool]
  | error refusal =>
    rw [QueueScript.run]
    split
    · simp [Except.isOk, Except.toBool]
    · split <;> simp [hunderstood, Except.isOk, Except.toBool]

theorem timeless_rewrite (t : TaskTable) (verb : Verb) (id : ℕ) (task : Task) (note note' : String)
    (now now' : ℚ) (hfind : t.find id = some task) :
    timeless (((verb.effect id note).edit now).apply t) =
      timeless (((verb.effect id note').edit now').apply t) ↔ note = note' := by
  have hrow := (t.find_iff id task).mp hfind
  simp only [effect_edit, Edit.apply, timeless, RowTable.update, List.map_map, List.map_inj_left]
  constructor
  · intro hrows
    have hthis := hrows (id,task) hrow
    cases verb <;> simpa [Verb.onto] using hthis
  · rintro rfl row _
    simp only [Function.comp_apply, Bool.and_true]
    split
    · cases verb <;> rfl
    · rfl

theorem agree_negative (clock : Clock) (s : Stores) (verb : Verb) (n : ℕ) (note : String)
    (channel : Channel) : Agree clock s verb (Int.negSucc n) note channel := by
  obtain ⟨refusal,hrefused⟩ := understood_negative verb n note channel
  have hunknown : ¬Known s.tasks (Int.negSucc n) := by
    rintro ⟨-,id,task,hid,-⟩
    omega
  have hscript : (QueueScript.run clock (request (verb.words (Int.negSucc n)) note channel)
      s).2.tasks = s.tasks := by rw [run_eq, hrefused]
  have hstore := store_negative clock s verb n note
  constructor
  · rw [hscript, hstore]
  · rw [hscript, hstore]
  · rw [run_isOk, store_ok, hrefused]
    simp [hunknown]

theorem scriptNote_ne (note : String) (hblank : strip note ≠ "") : scriptNote note ≠ "" := by
  intro hempty
  have hnil := congrArg String.toList hempty
  rw [scriptNote, String.toList_ofList] at hnil
  exact chomp_ne_nil note hblank hnil

/-- On a number the script takes, the writers agree where the task is there and
both write the same note. -/
theorem agree_numbered (clock : Clock) (s : Stores) (verb : Verb) (n : ℕ) (note : String)
    (channel : Channel) (hblank : strip note ≠ "") (hunquoted : Unquoted note) :
    Agree clock s verb n note channel ↔ Known s.tasks n ∧ Tight note := by
  have hsome := scriptNote_ne note hblank
  have hscript := script_tasks clock s verb n note channel hunquoted hsome
  have hstore := Operation.perform_edit clock s (verb.operation n note)
  have hok : (QueueScript.run clock (request (verb.words n) note channel) s).1.isOk = true :=
    (run_isOk clock _ s).mpr ⟨_,understood_request verb n note channel hunquoted hsome⟩
  rw [operation_effect] at hstore
  constructor
  · intro hagree
    have hknown := (store_ok clock s verb n note).mp (hagree.success.mp hok)
    have hrows := hagree.rows
    obtain ⟨-,id,task,hid,hfind⟩ := id hknown
    obtain rfl : id = n := Int.ofNat.inj hid
    rw [hscript, hstore, bounded_known s.tasks _ _ hknown,
      timeless_rewrite s.tasks verb id task _ _ _ _ hfind] at hrows
    exact ⟨hknown,(strip_eq_iff note hblank).mp hrows.symm⟩
  · rintro ⟨hknown,htight⟩
    have hnote := (strip_eq_iff note hblank).mpr htight
    rw [bounded_known s.tasks (n : ℤ) _ hknown] at hstore
    obtain ⟨-,id,task,hid,hfind⟩ := id hknown
    obtain rfl : id = n := Int.ofNat.inj hid
    constructor
    · rw [hscript, hstore, timeless_rewrite s.tasks verb id task _ _ _ _ hfind]
      exact hnote.symm
    · rw [hscript, hstore, effect_edit, effect_edit]
      rfl
    · rw [store_ok]
      exact ⟨fun _ => hknown,fun _ => hok⟩

/-- On a note that is not blank and not in quotes, the two writers agree exactly
where the number is no number of the script's, or a task has it and the note is
tight. -/
theorem writers_agree_iff (clock : Clock) (s : Stores) (verb : Verb) (taskId : ℤ) (note : String)
    (channel : Channel) (hblank : strip note ≠ "") (hunquoted : Unquoted note) :
    Agree clock s verb taskId note channel ↔
      taskId < 0 ∨ Known s.tasks taskId ∧ Tight note := by
  cases taskId with
  | negSucc n =>
    have hnegative : Int.negSucc n < 0 := Int.negSucc_lt_zero n
    simp [agree_negative clock s verb n note channel, hnegative]
  | ofNat n =>
    have hsign : ¬(n : ℤ) < 0 := by omega
    rw [Int.ofNat_eq_natCast, agree_numbered clock s verb n note channel hblank hunquoted]
    simp [hsign]

def commissioned : Stores := ((Operation.create "aggiungi i promemoria").step (fun n => n) .empty)

theorem first_question_is_agreed :
    Agree (fun n => n) commissioned (.advance .understood) 1 "Procedo?" .ssh := by
  apply (writers_agree_iff (fun n => n) commissioned (.advance .understood) 1 "Procedo?" .ssh
    (by decide) (by decide)).mpr
  refine .inr ⟨⟨by decide,1,⟨"aggiungi i promemoria",.new,.queued,"","",0,0⟩,rfl,by decide⟩,?_,?_⟩
  · intro c hc
    obtain rfl := Option.some.inj (show some 'P' = some c from hc)
    rfl
  · intro c hc
    obtain rfl := Option.some.inj (show some '?' = some c from hc)
    rfl

/-- The script closes a task that is not there and says so. -/
theorem missing_task_is_finished : ¬Agree (fun n => n) .empty .finish 1 "fatto" .ssh := by
  intro hagree
  have hscript : (QueueScript.run (fun n => n) (request (Verb.words 1 .finish) "fatto" .ssh)
      .empty).1.isOk = true := by decide
  have hstore : ((Verb.operation 1 "fatto" .finish).perform (fun n => n) .empty).1 =
      .ok false := by decide
  have hsuccess := hagree.success.mp hscript
  rw [hstore] at hsuccess
  cases hsuccess

end Emma.WriterAgreement

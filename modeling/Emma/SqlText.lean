import Emma.QueueScript
import Emma.Library.SqlTokens

/-!
# The statements the script writes

A statement is put together from fixed text, a number, a stage and the value of
`note` or `request`, with its quotes doubled. The value comes out of a command
substitution and passes a second one on its way into the statement; each drops
the line ends behind its text, so the second finds none.
-/

set_option autoImplicit false

namespace Emma.SqlText
open Emma.Tasks Emma.QueueScript SqlTokens

inductive Writing where
  | create
  | advance (taskId stage : String)
  | finish (taskId : String)
  | abandon (taskId : String)
  deriving DecidableEq

/-- What `sql_escape` prints. -/
def sqlEscape (text : List Char) : List Char := doubled text

theorem chomp_idem (text : List Char) : chomp (chomp text) = chomp text :=
  List.rdropWhile_idempotent _ _

/-- What `$(...)` puts into a variable: a text with no line end behind it. -/
structure Value where
  chars : List Char
  settled : chomp chars = chars

def substituted (text : List Char) : Value := ⟨chomp text,chomp_idem text⟩

namespace Writing

/-- The words have passed `require_int` and `require_stage`. -/
def Checked : Writing → Prop
  | create => True
  | advance taskId stage =>
    (∃ n, requireInt taskId = .ok n) ∧ ∃ s, requireStage stage = .ok s
  | finish taskId => ∃ n, requireInt taskId = .ok n
  | abandon taskId => ∃ n, requireInt taskId = .ok n

def createHead : String :=
  "INSERT INTO tasks(created_at, updated_at, request, stage, status)\n" ++
  "               VALUES(strftime('%s','now'), strftime('%s','now'),\n" ++
  "                      '"

def createTail : String := "', 'new', 'queued')"

def advanceHead (stage : String) : String :=
  "UPDATE tasks\n" ++
  "               SET stage = '" ++ stage ++ "', note = '"

def advanceTail : String :=
  "', answer = '',\n" ++
  "                   status = 'waiting_user', updated_at = strftime('%s','now')\n" ++
  "               WHERE id = "

def finishHead : String :=
  "UPDATE tasks\n" ++
  "               SET status = 'done', stage = 'deployed',\n" ++
  "                   note = '"

def finishTail : String :=
  "', updated_at = strftime('%s','now')\n" ++
  "               WHERE id = "

def abandonHead : String :=
  "UPDATE tasks\n" ++
  "               SET status = 'abandoned', note = '"

def abandonTail : String :=
  "',\n" ++
  "                   updated_at = strftime('%s','now')\n" ++
  "               WHERE id = "

/-- The text handed to `write`, for the value of `request` or `note`. -/
def sql (note : Value) (w : Writing) : List Char :=
  let escaped := (substituted (sqlEscape note.chars)).chars
  match w with
  | create => createHead.toList ++ escaped ++ createTail.toList
  | advance taskId stage =>
    (advanceHead stage).toList ++ escaped ++ advanceTail.toList ++ taskId.toList
  | finish taskId => finishHead.toList ++ escaped ++ finishTail.toList ++ taskId.toList
  | abandon taskId => abandonHead.toList ++ escaped ++ abandonTail.toList ++ taskId.toList

end Writing

section Statements

def word (text : String) : Token := .word text.toList

def literal (text : String) : Token := .literal text.toList

/-- `strftime('%s','now')`. -/
def now : List Token :=
  [word "strftime",.symbol '(',literal "%s",.symbol ',',literal "now",.symbol ')']

def assigned (column : String) (value : List Token) : List Token :=
  [word column,.symbol '='] ++ value

def comma : List Token := [.symbol ',']

def update (assignments : List Token) (taskId : String) : List Token :=
  [word "UPDATE",word "tasks",word "SET"] ++ assignments ++
    [word "WHERE",word "id",.symbol '=',word taskId]

end Statements

/-- The one statement of each verb, with the text as the value of its literal. -/
def Writing.statement (text : List Char) : Writing → List Token
  | .create =>
    [word "INSERT",word "INTO",word "tasks",.symbol '(',word "created_at",.symbol ',',
      word "updated_at",.symbol ',',word "request",.symbol ',',word "stage",.symbol ',',
      word "status",.symbol ')',word "VALUES",.symbol '('] ++ now ++ comma ++ now ++ comma ++
      [.literal text] ++ comma ++ [literal "new"] ++ comma ++ [literal "queued",.symbol ')']
  | .advance taskId stage => update (assigned "stage" [literal stage] ++ comma ++
      assigned "note" [.literal text] ++ comma ++ assigned "answer" [literal ""] ++ comma ++
      assigned "status" [literal "waiting_user"] ++ comma ++ assigned "updated_at" now) taskId
  | .finish taskId => update (assigned "status" [literal "done"] ++ comma ++
      assigned "stage" [literal "deployed"] ++ comma ++ assigned "note" [.literal text] ++ comma ++
      assigned "updated_at" now) taskId
  | .abandon taskId => update (assigned "status" [literal "abandoned"] ++ comma ++
      assigned "note" [.literal text] ++ comma ++ assigned "updated_at" now) taskId

/-- Doubling the quotes leaves the line ends at the end where they are. -/
theorem chomp_sqlEscape (text : List Char) : chomp (sqlEscape text) = sqlEscape (chomp text) := by
  induction text using List.reverseRecOn with
  | nil => rfl
  | append_singleton text c ih =>
    rw [sqlEscape, doubled_append, chomp, chomp]
    by_cases hc : c = '\n'
    · subst hc
      rw [show doubled ['\n'] = ['\n'] from rfl, List.rdropWhile_concat_pos _ _ _ (by decide),
        List.rdropWhile_concat_pos _ _ _ (by decide)]
      exact ih
    · rw [List.rdropWhile_concat_neg _ _ _ (by simpa using hc), sqlEscape, doubled_append]
      by_cases hquote : c = '\''
      · subst hquote
        rw [show doubled ['\''] = ['\''] ++ ['\''] from rfl, ← List.append_assoc,
          List.rdropWhile_concat_neg _ _ _ (by decide)]
      · rw [doubled_plain [c] (by simpa using Ne.symm hquote),
          List.rdropWhile_concat_neg _ _ _ (by simpa using hc)]

theorem number_chars (taskId : String) (h : ∃ n, requireInt taskId = .ok n) :
    taskId.toList ≠ [] ∧ ∀ c ∈ taskId.toList, isWordChar c = true := by
  obtain ⟨n,hn⟩ := h
  unfold requireInt at hn
  split at hn
  · rename_i hdigits
    constructor
    · intro hnil
      exact hdigits.1 (String.toList_eq_nil_iff.mp hnil)
    · intro c hc
      have hdigit : c.isDigit = true := List.all_eq_true.mp hdigits.2 c hc
      simp [isWordChar, Char.isAlphanum, hdigit]
  · cases hn

theorem stage_known (stage : String) (h : ∃ s, requireStage stage = .ok s) :
    stage ∈ validStages := by
  obtain ⟨s,hs⟩ := h
  unfold requireStage at hs
  split at hs
  · rename_i found hfound
    obtain ⟨front,back,hsplit,-⟩ := List.lookup_eq_some_iff.mp hfound
    rw [validStages, hsplit]
    simp
  · cases hs

theorem tokenise_numbered {front back : List Char} {before later : List Token} (text : List Char)
    (taskId : String) (hfront : Opens front before) (hback : Closes back later .between)
    (h : ∃ n, requireInt taskId = .ok n) :
    tokenise (front ++ doubled text ++ back ++ taskId.toList) =
      some (before ++ .literal text::later ++ [word taskId]) := by
  obtain ⟨hsome,hchars⟩ := number_chars taskId h
  rw [tokenise, walk_append, walk_around text hfront hback, walk_word taskId.toList hsome hchars]
  simp only [close, Option.map_some, List.append_nil]
  rfl

def updateHead : List Token := [word "UPDATE",word "tasks",word "SET"]

theorem advance_opens (stage : String) (h : stage ∈ validStages) :
    Opens (Writing.advanceHead stage).toList
      (updateHead ++ assigned "stage" [literal stage] ++ comma ++ [word "note",.symbol '=']) := by
  have hall : ∀ stage ∈ validStages, Opens (Writing.advanceHead stage).toList
      (updateHead ++ assigned "stage" [literal stage] ++ comma ++ [word "note",.symbol '=']) := by
    decide +kernel
  exact hall stage h

theorem create_opens : Opens Writing.createHead.toList
    ([word "INSERT",word "INTO",word "tasks",.symbol '(',word "created_at",.symbol ',',
      word "updated_at",.symbol ',',word "request",.symbol ',',word "stage",.symbol ',',
      word "status",.symbol ')',word "VALUES",.symbol '('] ++ now ++ comma ++ now ++ comma) := by
  decide +kernel

theorem create_closes : Closes Writing.createTail.toList
    (comma ++ [literal "new"] ++ comma ++ [literal "queued",.symbol ')']) .between := by
  decide +kernel

theorem advance_closes : Closes Writing.advanceTail.toList
    (comma ++ assigned "answer" [literal ""] ++ comma ++ assigned "status" [literal "waiting_user"] ++
      comma ++ assigned "updated_at" now ++ [word "WHERE",word "id",.symbol '=']) .between := by
  decide +kernel

theorem finish_opens : Opens Writing.finishHead.toList
    (updateHead ++ assigned "status" [literal "done"] ++ comma ++
      assigned "stage" [literal "deployed"] ++ comma ++ [word "note",.symbol '=']) := by
  decide +kernel

theorem abandon_opens : Opens Writing.abandonHead.toList
    (updateHead ++ assigned "status" [literal "abandoned"] ++ comma ++
      [word "note",.symbol '=']) := by
  decide +kernel

theorem finish_closes : Closes Writing.finishTail.toList
    (comma ++ assigned "updated_at" now ++ [word "WHERE",word "id",.symbol '=']) .between := by
  decide +kernel

theorem abandon_closes : Closes Writing.abandonTail.toList
    (comma ++ assigned "updated_at" now ++ [word "WHERE",word "id",.symbol '=']) .between := by
  decide +kernel

/-- There are no line ends left for the second substitution to drop. -/
theorem substituted_sqlEscape (note : Value) :
    (substituted (sqlEscape note.chars)).chars = doubled note.chars := by
  have hchomp := chomp_sqlEscape note.chars
  rw [note.settled] at hchomp
  exact hchomp

/-- Whatever the text says, the SQL is the one statement of its verb, with exactly
that text as the value of its literal. -/
theorem text_stays_in_its_literal (w : Writing) (note : Value) (h : w.Checked) :
    tokenise (w.sql note) = some (w.statement note.chars) := by
  cases w with
  | create =>
    rw [Writing.sql, substituted_sqlEscape, tokenise,
      walk_around note.chars create_opens create_closes]
    rfl
  | advance taskId stage =>
    rw [Writing.sql, substituted_sqlEscape, tokenise_numbered note.chars taskId
      (advance_opens stage (stage_known stage h.2)) advance_closes h.1]
    rfl
  | finish taskId =>
    rw [Writing.sql, substituted_sqlEscape,
      tokenise_numbered note.chars taskId finish_opens finish_closes h]
    rfl
  | abandon taskId =>
    rw [Writing.sql, substituted_sqlEscape,
      tokenise_numbered note.chars taskId abandon_opens abandon_closes h]
    rfl

def quotedNote : Value := substituted "l'ho fatto -- '); DROP".toList

theorem quoted_note_stays_in_its_literal : (Writing.finish "3").Checked ∧
    tokenise ((Writing.finish "3").sql quotedNote) =
      some ((Writing.finish "3").statement "l'ho fatto -- '); DROP".toList) :=
  ⟨⟨3,rfl⟩,text_stays_in_its_literal (.finish "3") quotedNote ⟨3,rfl⟩⟩

/-- What `trailing_text` prints. -/
def printed (skip : ℕ) (raw : String) : List Char :=
  let drop (text : List Char) : List Char :=
    (text.dropWhile isBlank).dropWhile fun c => !isBlank c
  let text := (drop^[skip] raw.toList).dropWhile isBlank
  if text.head? = some '"' ∧ text.getLast? = some '"' ∧ 2 ≤ text.length
    then (text.drop 1).dropLast else text

def writing (r : Request) : Option (Writing × List Char) :=
  match r.word 0 with
  | "create" => some (.create,printed 1 r.raw)
  | "advance" => some (.advance (r.word 1) (r.word 2),printed 3 r.raw)
  | "finish" => some (.finish (r.word 1),printed 2 r.raw)
  | "abandon" => some (.abandon (r.word 1),printed 2 r.raw)
  | _ => none

def freeText : Action → String
  | .create request => request
  | .advance _ _ note => note
  | .finish _ note => note
  | .abandon _ note => note
  | _ => ""

theorem trailingText_printed (skip : ℕ) (raw : String) :
    trailingText skip raw = String.ofList (chomp (printed skip raw)) := rfl

/-- The value that goes into the statement is the free text of the action that the
request is understood to mean. -/
theorem understood_writing (r : Request) (action : Action) (w : Writing) (text : List Char)
    (h : understood r = .ok action) (hw : writing r = some (w,text)) :
    w.Checked ∧ (freeText action).toList = chomp text := by
  unfold understood at h
  unfold writing at hw
  split at hw
  · rename_i hverb
    simp only [hverb] at h
    split at h
    · cases h
    · cases h
      cases hw
      exact ⟨trivial,String.toList_ofList⟩
  · rename_i hverb
    simp only [hverb] at h
    cases hid : requireInt (r.word 1) with
    | error refusal => simp only [hid, bind, Except.bind, reduceCtorEq] at h
    | ok taskId =>
      cases hstage : requireStage (r.word 2) with
      | error refusal => simp only [hid, hstage, bind, Except.bind, reduceCtorEq] at h
      | ok stage =>
        simp only [hid, hstage, bind, Except.bind] at h
        split at h
        · cases h
        · cases h
          cases hw
          exact ⟨⟨⟨taskId,hid⟩,stage,hstage⟩,String.toList_ofList⟩
  · rename_i hverb
    simp only [hverb] at h
    cases hid : requireInt (r.word 1) with
    | error refusal => simp only [hid, bind, Except.bind, reduceCtorEq] at h
    | ok taskId =>
      simp only [hid] at h
      cases h
      cases hw
      exact ⟨⟨taskId,hid⟩,String.toList_ofList⟩
  · rename_i hverb
    simp only [hverb] at h
    cases hid : requireInt (r.word 1) with
    | error refusal => simp only [hid, bind, Except.bind, reduceCtorEq] at h
    | ok taskId =>
      simp only [hid] at h
      cases h
      cases hw
      exact ⟨⟨taskId,hid⟩,String.toList_ofList⟩
  · cases hw

end Emma.SqlText

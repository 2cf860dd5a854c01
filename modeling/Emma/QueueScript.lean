import Emma.DevelopmentTools

/-!
# The script behind the developer's key

A request arrives as one line over SSH, or as arguments by hand. The fixed
words are split off as a shell splits them, the free text is cut from the raw
request. Every accepted verb records that the session is alive, before its
arguments are looked at, and succeeds whether or not the task exists.
-/

set_option autoImplicit false

namespace Emma.QueueScript
open Emma.Tasks Emma.DevelopmentTools

/-- `[[:space:]]` in the C locale, where only ASCII characters are blanks. -/
def isBlank (c : Char) : Bool := c = ' ' || (9 ≤ c.toNat && c.toNat ≤ 13)

/-- The separators `read` splits a line at. -/
def isSeparator (c : Char) : Bool := c = ' ' || c = '\t'

structure Request where
  sshOriginalCommand : String
  arguments : List String

namespace Request

/-- `ARGS`, of which `read` only sees the first line. -/
def args (r : Request) : List String :=
  if r.sshOriginalCommand = "" then r.arguments
  else (Delimited.words isSeparator
    (r.sshOriginalCommand.toList.takeWhile (· ≠ '\n'))).map String.ofList

/-- `RAW`. -/
def raw (r : Request) : String :=
  if r.sshOriginalCommand = "" then " ".intercalate r.arguments else r.sshOriginalCommand

def word (r : Request) (n : ℕ) : String := r.args.getD n ""

end Request

def chomp (text : List Char) : List Char := text.rdropWhile (· = '\n')

def trailingText (skip : ℕ) (raw : String) : String :=
  let drop (text : List Char) : List Char :=
    (text.dropWhile isBlank).dropWhile fun c => !isBlank c
  let text := (drop^[skip] raw.toList).dropWhile isBlank
  let text := if text.head? = some '"' ∧ text.getLast? = some '"' ∧ 2 ≤ text.length
    then (text.drop 1).dropLast else text
  String.ofList (chomp text)

def requireInt (word : String) : Except String ℕ :=
  if word ≠ "" ∧ word.toList.all Char.isDigit then .ok (Nat.ofDigitChars 10 word.toList 0)
  else .error ("'" ++ word ++ "' is not a task number")

def validStages : List String := stageOrder.map Prod.fst

def requireStage (candidate : String) : Except String Stage :=
  match stageOrder.lookup candidate with
  | some stage => .ok stage
  | none => .error ("'" ++ candidate ++ "' is not a stage (" ++ " ".intercalate validStages ++ ")")

def validVerbs : List String :=
  ["list","list-all","show","touch","create","advance","finish","abandon"]

def isVerb (verb : String) : Bool :=
  (" " ++ " ".intercalate validVerbs ++ " ").toList.tails.any fun tail =>
    (" " ++ verb ++ " ").toList.isPrefixOf tail

inductive Action where
  | list
  | listAll
  | show (taskId : ℕ)
  | touch
  | create (request : String)
  | advance (taskId : ℕ) (stage : Stage) (note : String)
  | finish (taskId : ℕ) (note : String)
  | abandon (taskId : ℕ) (note : String)

def understood (r : Request) : Except String Action := do
  match r.word 0 with
  | "list" => return .list
  | "list-all" => return .listAll
  | "show" => return .show (← requireInt (r.word 1))
  | "touch" => return .touch
  | "create" =>
    let request := trailingText 1 r.raw
    if request = "" then .error "create needs a description of the work"
    else return .create request
  | "advance" =>
    let taskId ← requireInt (r.word 1)
    let stage ← requireStage (r.word 2)
    let note := trailingText 3 r.raw
    if note = "" then .error "advance needs a note: it is the question the user answers"
    else return .advance taskId stage note
  | "finish" => return .finish (← requireInt (r.word 1)) (trailingText 2 r.raw)
  | "abandon" => return .abandon (← requireInt (r.word 1)) (trailingText 2 r.raw)
  | verb => .error ("unknown command '" ++ verb ++
      "' (list, list-all, show, touch, advance, finish, abandon)")

inductive Printed where
  | listing (rows : List (ℕ × Task))
  | line (text : String)

def rewritten (t : TaskTable) (taskId : ℕ) (f : Task → Task) : TaskTable :=
  t.update (fun row => row.1 = taskId) f

/-- A statement of the script, at a reading of the clock of its own. -/
def Action.run (clock : Clock) (s : Stores) : Action → Printed × Stores
  | .list => (.listing (s.tasks.select fun row => row.2.status = .queued),s)
  | .listAll => (.listing s.tasks.rows,s)
  | .show taskId => (.listing (s.tasks.select fun row => row.1 = taskId),s)
  | .touch => (.line "ok",s)
  | .create request =>
    let now := clock s.readings
    let tasks := s.tasks.insert ⟨request,.new,.queued,"","",now,now⟩
    (.line ("created #" ++ toString ((tasks.rows.map Prod.fst).foldl max 0)),
      { s.ticked with tasks := tasks })
  | .advance taskId stage note =>
    (.line "ok",{ s.ticked with tasks := rewritten s.tasks taskId fun task =>
      { task with
        stage := stage, note := note, answer := "", status := .waitingUser
        updatedAt := clock s.readings } })
  | .finish taskId note =>
    (.line "ok",{ s.ticked with tasks := rewritten s.tasks taskId fun task =>
      { task with
        status := .done, stage := .deployed, note := note, updatedAt := clock s.readings } })
  | .abandon taskId note =>
    (.line "ok",{ s.ticked with tasks := rewritten s.tasks taskId fun task =>
      { task with status := .abandoned, note := note, updatedAt := clock s.readings } })

def run (clock : Clock) (r : Request) (s : Stores) : Except String Printed × Stores :=
  if r.word 0 = "" then (.error "no command given",s)
  else if isVerb (r.word 0) = false then
    (.error ("unknown command '" ++ r.word 0 ++ "' (" ++ " ".intercalate validVerbs ++ ")"),s)
  else
    let s := DevelopmentTools.touch clock s
    match understood r with
    | .error refusal => (.error refusal,s)
    | .ok action => (.ok (action.run clock s).1,(action.run clock s).2)

theorem isVerb_understood (r : Request) (action : Action) (h : understood r = .ok action) :
    r.word 0 ≠ "" ∧ isVerb (r.word 0) = true := by
  unfold understood at h
  split at h
  all_goals first
    | rename_i hverb
      rw [hverb]
      constructor <;> decide
    | cases h

/-- A request that is understood is carried out once the session was recorded. -/
theorem run_eq (clock : Clock) (r : Request) (s : Stores) :
    (run clock r s).2.tasks = match understood r with
      | .ok action => (action.run clock (DevelopmentTools.touch clock s)).2.tasks
      | .error _ => s.tasks := by
  unfold run
  cases h : understood r with
  | error refusal =>
    split
    · rfl
    · split <;> rfl
  | ok action =>
    obtain ⟨hword,hverb⟩ := isVerb_understood r action h
    rw [if_neg hword, if_neg (by simp [hverb])]

end Emma.QueueScript

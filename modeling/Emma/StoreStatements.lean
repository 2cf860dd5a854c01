import Emma.Facts
import Emma.Library.Transactions
import Emma.ToolState

/-!
# The three stores, statement by statement

Tasks, facts and switched-off tools each have a connection of their own to the
database file. A method checks what it can without it, asks for the connection,
and then runs its statements; each of them, and each commit, may raise. What a
statement makes of a table is what the tables themselves say.
-/

set_option autoImplicit false

namespace Emma.StoreStatements
open FaultyProgram Transactions Emma.Python

section
variable {σ α : Type}

abbrev Method (σ α : Type) := Action σ PyError α

/-- `_require_open`. -/
def requireOpen (store : String) : Method σ Unit :=
  Transactions.requireOpen (.runtimeError ("call open() on the " ++ store ++ " before using it"))

def read (f : σ → α) : Method σ α := select .databaseError 0 f

def change (f : σ → Except PyError (α × σ)) : Method σ α := write .databaseError f

/-- `open`, which takes a new connection also where there is one. -/
def openStore : Method σ Unit := do
  perform .mkdir .osError (pure ())
  perform .connect .databaseError (FaultyProgram.change Connection.opened)
  perform .journalMode .databaseError (pure ())
  perform .schema .databaseError (pure ())
  perform .commitSchema .databaseError (FaultyProgram.change Connection.settled)

def closeStore : Method σ Unit := do
  if ← look fun s : Connection σ => s.session.isSome then
    perform .close .databaseError (FaultyProgram.change Connection.closed)

end

namespace TaskStore
open Emma.Tasks

/-- The tables `tasks` and `dev_heartbeat`. -/
structure TaskFile where
  tasks : TaskTable
  heartbeat : Option ℚ
  deriving DecidableEq

def onTasks {α : Type} (f : TaskTable → Except PyError (α × TaskTable)) (file : TaskFile) :
    Except PyError (α × TaskFile) := do
  let (a,tasks) ← f file.tasks
  return (a,{ file with tasks := tasks })

def connected : Method TaskFile Unit := requireOpen "task store"

def create (request : String) (now : ℚ) : Method TaskFile ℕ := do
  if strip request = "" then raise (.valueError "a development request cannot be empty")
  else do
    connected
    change (onTasks fun t => Tasks.create t request now)

def recordAnswer (taskId : ℤ) (answer : String) (now : ℚ) : Method TaskFile Bool := do
  if strip answer = "" then return false
  else do
    connected
    change (onTasks fun t => Tasks.recordAnswer t taskId answer now)

def advance (taskId : ℤ) (stage note : String) (now : ℚ) : Method TaskFile Bool := do
  if (stageOrder.lookup stage).isNone then raise (.valueError ("unknown stage '" ++ stage ++ "'"))
  else do
    connected
    change (onTasks fun t => Tasks.advance t taskId stage note now)

def finish (taskId : ℤ) (note : String) (now : ℚ) : Method TaskFile Bool := do
  connected
  change (onTasks fun t => Tasks.finish t taskId note now)

def abandon (taskId : ℤ) (note : String) (now : ℚ) : Method TaskFile Bool := do
  connected
  change (onTasks fun t => Tasks.abandon t taskId note now)

def touch (now : ℚ) : Method TaskFile Unit := do
  connected
  change fun file => .ok ((),{ file with heartbeat := some now })

def listing (f : TaskTable → List (ℕ × Task)) : Method TaskFile (List (ℕ × Task)) := do
  connected
  read fun file => f file.tasks

def lastSeen : Method TaskFile (Option ℚ) := do
  connected
  read TaskFile.heartbeat

inductive Call where
  | «open»
  | close
  | create (request : String) (now : ℚ)
  | recordAnswer (taskId : ℤ) (answer : String) (now : ℚ)
  | advance (taskId : ℤ) (stage note : String) (now : ℚ)
  | finish (taskId : ℤ) (note : String) (now : ℚ)
  | abandon (taskId : ℤ) (note : String) (now : ℚ)
  | touch (now : ℚ)
  | awaitingUser
  | openTasks
  | queued
  | lastSeen

inductive Reply where
  | nothing
  | number (taskId : ℕ)
  | changed (found : Bool)
  | tasks (rows : List (ℕ × Task))
  | seen (at_ : Option ℚ)
  deriving DecidableEq

def method : Call → Method TaskFile Reply
  | .open => do openStore; return .nothing
  | .close => do closeStore; return .nothing
  | .create request now => return .number (← create request now)
  | .recordAnswer taskId answer now => return .changed (← recordAnswer taskId answer now)
  | .advance taskId stage note now => return .changed (← advance taskId stage note now)
  | .finish taskId note now => return .changed (← finish taskId note now)
  | .abandon taskId note now => return .changed (← abandon taskId note now)
  | .touch now => do touch now; return .nothing
  | .awaitingUser => return .tasks (← listing Tasks.awaitingUser)
  | .openTasks => return .tasks (← listing Tasks.openTasks)
  | .queued => return .tasks (← listing Tasks.queued)
  | .lastSeen => return .seen (← lastSeen)

def Call.keepsOpen : Call → Prop
  | .open => False
  | .close => False
  | _ => True

end TaskStore

namespace FactStore
open Emma.Facts

def connected : Method FactTable Unit := requireOpen "fact store"

def remember (text : String) (now : ℚ) : Method FactTable (Option ℕ × String) :=
  let cleaned := joinWords text
  if hwritten : cleaned = "" then return (none,"il fatto e' vuoto")
  else if hshort : maxFactLength < cleaned.length then
    return (none,"il fatto e' troppo lungo (" ++ toString cleaned.length ++
      " caratteri, il massimo e' " ++ toString maxFactLength ++ ")")
  else do
    connected
    match ← select .databaseError 0 fun t : FactTable =>
        (active t).find? fun row => sqlLower row.2.text = sqlLower cleaned with
    | some row => return (some row.1,"gia' registrato")
    | none =>
      let count ← select .databaseError 1 fun t : FactTable => (active t).length
      if maxActiveFacts ≤ count then
        return (none,"ci sono gia' " ++ toString maxActiveFacts ++ " fatti attivi, che e' il " ++
          "massimo; dimenticane uno per farne posto")
      else change fun t => .ok ((some (t.seq+1),""),
        t.insert ⟨cleaned,now,none,admissible_joinWords text hwritten hshort⟩)

/-- Undisturbed, the statements do to a settled table what the method does. -/
theorem remember_smooth (text : String) (now : ℚ) (t : FactTable) :
    remember text now smooth ⟨t,some t,false⟩ =
      (.returned (Facts.remember t text now).1,
        ⟨(Facts.remember t text now).2,some (Facts.remember t text now).2,false⟩) := by
  rw [remember, Facts.remember]
  split
  · rfl
  split
  · rfl
  have hopen : connected smooth (⟨t,some t,false⟩ : Connection FactTable) =
      (.returned (),⟨t,some t,false⟩) := rfl
  have hread : ∀ {α : Type} (n : ℕ) (f : FactTable → α),
      select PyError.databaseError n f smooth ⟨t,some t,false⟩ =
        (.returned (f t),⟨t,some t,false⟩) := fun _ _ => rfl
  rw [bind_returned hopen, bind_returned (hread 0 _)]
  cases (Facts.active t).find? fun row => sqlLower row.2.text = sqlLower (joinWords text) with
  | some row => rfl
  | none =>
    dsimp only
    rw [bind_returned (hread 1 _)]
    split <;> rfl

def forget (factId : ℤ) (now : ℚ) : Method FactTable Bool := do
  connected
  change fun t => Facts.forget t factId now

def active : Method FactTable (List (ℕ × Fact)) := do
  connected
  read Facts.active

inductive Call where
  | «open»
  | close
  | remember (text : String) (now : ℚ)
  | forget (factId : ℤ) (now : ℚ)
  | active

inductive Reply where
  | nothing
  | remembered (answer : Option ℕ × String)
  | changed (found : Bool)
  | facts (rows : List (ℕ × Fact))

def method : Call → Method FactTable Reply
  | .open => do openStore; return .nothing
  | .close => do closeStore; return .nothing
  | .remember text now => return .remembered (← remember text now)
  | .forget factId now => return .changed (← forget factId now)
  | .active => return .facts (← active)

def Call.keepsOpen : Call → Prop
  | .open => False
  | .close => False
  | _ => True

end FactStore

namespace ToolStateStore
open Emma.ToolState

def connected : Method ToolStateTable Unit := requireOpen "tool state store"

def disabled : Method ToolStateTable (List String) := do
  connected
  read ToolStateTable.disabled

def switchedOff : Method ToolStateTable (List SwitchedOff) := do
  connected
  read fun t => t.rows.mergeSort fun a b => a.since ≤ b.since

def disabledSince (name : String) : Method ToolStateTable (Option ℚ) := do
  connected
  read fun t => t.disabledSince name

def isDisabled (name : String) : Method ToolStateTable Bool := do
  return (← disabledSince name).isSome

def disable (name reason : String) (now : ℚ) : Method ToolStateTable Bool := do
  if name ∈ protectedNames then return false
  else do
    connected
    change fun t => .ok (t.disable name reason now)

def enable (name : String) : Method ToolStateTable Bool := do
  connected
  change fun t => .ok (t.enable name)

inductive Call where
  | «open»
  | close
  | disable (name reason : String) (now : ℚ)
  | enable (name : String)
  | disabled
  | switchedOff
  | disabledSince (name : String)
  | isDisabled (name : String)

inductive Reply where
  | nothing
  | changed (found : Bool)
  | names (off : List String)
  | rows (off : List SwitchedOff)
  | since (at_ : Option ℚ)
  deriving DecidableEq

def method : Call → Method ToolStateTable Reply
  | .open => do openStore; return .nothing
  | .close => do closeStore; return .nothing
  | .disable name reason now => return .changed (← disable name reason now)
  | .enable name => return .changed (← enable name)
  | .disabled => return .names (← disabled)
  | .switchedOff => return .rows (← switchedOff)
  | .disabledSince name => return .since (← disabledSince name)
  | .isDisabled name => return .changed (← isDisabled name)

def Call.keepsOpen : Call → Prop
  | .open => False
  | .close => False
  | _ => True

end ToolStateStore
end Emma.StoreStatements

import Emma.Library.RowTable
import Emma.Python
import Mathlib.Data.Rat.Defs

/-!
# The development queue

A task is created open, waits on one side or the other, and is closed by being
finished or dropped. No row is ever deleted and no request is ever rewritten;
only an advance may open a closed task again.
-/

set_option autoImplicit false

namespace Emma.Tasks
open Emma.Python

inductive Stage where
  | new
  | understood
  | implemented
  | committed
  | pushed
  | deployed
  deriving DecidableEq, Repr

def stageOrder : List (String × Stage) :=
  [("new",.new),("understood",.understood),("implemented",.implemented),
    ("committed",.committed),("pushed",.pushed),("deployed",.deployed)]

inductive Status where
  | queued
  | waitingUser
  | done
  | abandoned
  deriving DecidableEq, Repr

/-- A row of `tasks`, without its id. -/
structure Task where
  request : String
  stage : Stage
  status : Status
  note : String
  answer : String
  createdAt : ℚ
  updatedAt : ℚ
  deriving DecidableEq

abbrev TaskTable := RowTable Task

def isOpen (task : Task) : Bool := task.status = .queued || task.status = .waitingUser

/-- An integer that SQLite cannot hold is refused when it is bound. -/
def bound (taskId : ℤ) : Except PyError ℤ :=
  if -9223372036854775808 ≤ taskId ∧ taskId ≤ 9223372036854775807 then .ok taskId
  else .error (.overflowError "Python int too large to convert to SQLite INTEGER")

def create (t : TaskTable) (request : String) (now : ℚ) : Except PyError (ℕ × TaskTable) :=
  let text := strip request
  if text = "" then .error (.valueError "a development request cannot be empty")
  else .ok (t.seq+1,t.insert ⟨text,.new,.queued,"","",now,now⟩)

def openTasks (t : TaskTable) : List (ℕ × Task) := t.select fun row => isOpen row.2

def awaitingUser (t : TaskTable) : List (ℕ × Task) :=
  t.select fun row => row.2.status = .waitingUser

def queued (t : TaskTable) : List (ℕ × Task) := t.select fun row => row.2.status = .queued

/-- `UPDATE ... WHERE`: whether a row was changed, and the table after it. -/
def updateWhere (t : TaskTable) (taskId : ℤ) (p : Task → Bool) (f : Task → Task) :
    Except PyError (Bool × TaskTable) := do
  let taskId ← bound taskId
  return (t.rows.any fun row => row.1 = taskId && p row.2,
    t.update (fun row => row.1 = taskId && p row.2) f)

def recordAnswer (t : TaskTable) (taskId : ℤ) (answer : String) (now : ℚ) :
    Except PyError (Bool × TaskTable) :=
  let text := strip answer
  if text = "" then .ok (false,t)
  else updateWhere t taskId (fun task => task.status = .waitingUser) fun task =>
    { task with answer := text, status := .queued, updatedAt := now }

def advance (t : TaskTable) (taskId : ℤ) (stage note : String) (now : ℚ) :
    Except PyError (Bool × TaskTable) :=
  match stageOrder.lookup stage with
  | none => .error (.valueError ("unknown stage '" ++ stage ++ "'"))
  | some stage => updateWhere t taskId (fun _ => true) fun task =>
    { task with
      stage := stage, note := strip note, answer := "", status := .waitingUser
      updatedAt := now }

def closeWith (t : TaskTable) (taskId : ℤ) (status : Status) (stage : Stage) (note : String)
    (now : ℚ) : Except PyError (Bool × TaskTable) :=
  updateWhere t taskId (fun _ => true) fun task =>
    { task with status := status, stage := stage, note := strip note, updatedAt := now }

def finish (t : TaskTable) (taskId : ℤ) (note : String) (now : ℚ) :
    Except PyError (Bool × TaskTable) :=
  closeWith t taskId .done .deployed note now

def abandon (t : TaskTable) (taskId : ℤ) (note : String) (now : ℚ) :
    Except PyError (Bool × TaskTable) :=
  updateWhere t taskId (fun _ => true) fun task =>
    { task with status := .abandoned, note := strip note, updatedAt := now }

def Evolves (reopened : ℕ → Prop) (t t' : TaskTable) : Prop :=
  t'.seq = t.seq ∧ ∀ row' ∈ t'.rows, ∃ row ∈ t.rows, row.1 = row'.1 ∧
    row.2.request = row'.2.request ∧
    (isOpen row'.2 = true → isOpen row.2 = true ∨ reopened row.1)

theorem evolves_refl (reopened : ℕ → Prop) (t : TaskTable) : Evolves reopened t t :=
  ⟨rfl,fun row hrow => ⟨row,hrow,rfl,rfl,.inl⟩⟩

theorem evolves_unmoved (reopened : ℕ → Prop) {t t' : TaskTable} (h : t' = t) :
    Evolves reopened t t' := h ▸ evolves_refl reopened t

theorem updateWhere_evolves {t t' : TaskTable} {taskId : ℤ} {p : Task → Bool} {f : Task → Task}
    {changed : Bool} (h : updateWhere t taskId p f = .ok (changed,t')) (reopened : ℕ → Prop)
    (hrequest : ∀ task, (f task).request = task.request)
    (hopen : ∀ row ∈ t.rows, (row.1 : ℤ) = taskId → p row.2 = true → isOpen (f row.2) = true →
      isOpen row.2 = true ∨ reopened row.1) : Evolves reopened t t' := by
  unfold updateWhere bound at h
  split at h
  · simp only [bind, Except.bind, pure, Except.pure, Except.ok.injEq, Prod.mk.injEq] at h
    obtain ⟨-,rfl⟩ := h
    refine ⟨rfl,fun row' hrow' => ?_⟩
    obtain ⟨row,hrow,rfl⟩ := List.mem_map.mp hrow'
    refine ⟨row,hrow,?_⟩
    split
    · rename_i hp
      simp only [Bool.and_eq_true, decide_eq_true_eq] at hp
      exact ⟨rfl,(hrequest _).symm,hopen row hrow hp.1 hp.2⟩
    · exact ⟨rfl,rfl,.inl⟩
  · simp [bind, Except.bind] at h

theorem recordAnswer_evolves {t t' : TaskTable} {taskId : ℤ} {answer : String} {now : ℚ}
    {changed : Bool} (h : recordAnswer t taskId answer now = .ok (changed,t'))
    (reopened : ℕ → Prop) : Evolves reopened t t' := by
  unfold recordAnswer at h
  dsimp only at h
  split at h
  · simp only [Except.ok.injEq, Prod.mk.injEq] at h
    exact h.2 ▸ evolves_refl reopened t
  · refine updateWhere_evolves h reopened (fun _ => rfl) fun row _ _ hp _ => .inl ?_
    simp only [decide_eq_true_eq] at hp
    simp [isOpen, hp]

theorem abandon_evolves {t t' : TaskTable} {taskId : ℤ} {note : String} {now : ℚ}
    {changed : Bool} (h : abandon t taskId note now = .ok (changed,t'))
    (reopened : ℕ → Prop) : Evolves reopened t t' :=
  updateWhere_evolves h reopened (fun _ => rfl) fun _ _ _ _ hopen => by simp [isOpen] at hopen

theorem finish_evolves {t t' : TaskTable} {taskId : ℤ} {note : String} {now : ℚ}
    {changed : Bool} (h : finish t taskId note now = .ok (changed,t'))
    (reopened : ℕ → Prop) : Evolves reopened t t' := by
  unfold finish closeWith at h
  exact updateWhere_evolves h reopened (fun _ => rfl) fun _ _ _ _ hopen => by
    simp [isOpen] at hopen

theorem advance_evolves {t t' : TaskTable} {taskId : ℤ} {stage note : String} {now : ℚ}
    {changed : Bool} (h : advance t taskId stage note now = .ok (changed,t')) :
    Evolves (fun id => (id : ℤ) = taskId) t t' := by
  unfold advance at h
  split at h
  · cases h
  · exact updateWhere_evolves h _ (fun _ => rfl) fun _ _ hid _ _ => .inr hid

end Emma.Tasks

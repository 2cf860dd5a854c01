import Emma.ContextReading
import Emma.QueueMoves

/-!
# Whether a closed task stays closed

Only the answer of the user is guarded by the status of the task. The other
updates name a number and nothing else, in the store as in the script.
-/

set_option autoImplicit false

namespace Emma.ClosedTasks
open Emma.Tasks Emma.DevelopmentTools Emma.QueueScript Emma.QueueMoves Emma.ContextReading
open Runs

structure OffTheLists (t : TaskTable) (id : ℕ) : Prop where
  openTasks : id ∉ (openTasks t).map Prod.fst
  queued : id ∉ (queued t).map Prod.fst
  awaitingUser : id ∉ (awaitingUser t).map Prod.fst
  contextLine : id ∉ openNumbers t

/-- What was closed at some point of a run keeps its status to every later
point, and is on none of the lists there. -/
def StaysClosed (clock : Clock) (moves : List Move) (s : Stores) : Prop :=
  ∀ front later back, moves = front ++ later ++ back →
    ∀ id task, (after (Move.perform clock) front s).tasks.find id = some task →
      isOpen task = false →
      OffTheLists (after (Move.perform clock) (front ++ later) s).tasks id ∧
      ((after (Move.perform clock) (front ++ later) s).tasks.find id).map Task.status =
        some task.status

def verdict (move : Move) : Option (ℤ × Status) :=
  match move.effect with
  | .asked taskId _ _ => some (taskId,.waitingUser)
  | .finished taskId _ => some (taskId,.done)
  | .abandoned taskId _ => some (taskId,.abandoned)
  | _ => none

/-- A move that names a closed task gives it the status it has. -/
def Respects (move : Move) (t : TaskTable) : Prop :=
  ∀ taskId status, verdict move = some (taskId,status) →
    ∀ id task, t.find id = some task → isOpen task = false → (id : ℤ) = taskId →
      task.status = status

theorem offTheLists_of_closed (t : TaskTable) (id : ℕ) (task : Task)
    (hfind : t.find id = some task) (hclosed : isOpen task = false) : OffTheLists t id := by
  have honly : ∀ row ∈ t.rows, row.1 = id → isOpen row.2 = false := by
    intro row hrow hid
    have hsame := t.row_unique row (id,task) hrow ((t.find_iff id task).mp hfind) hid
    rwa [hsame]
  have hlist : ∀ p : ℕ × Task → Bool, (∀ row, p row = true → isOpen row.2 = true) →
      id ∉ (t.select p).map Prod.fst := by
    intro p hp hmem
    obtain ⟨row,hrow,hid⟩ := List.mem_map.mp hmem
    obtain ⟨hin,hselected⟩ := List.mem_filter.mp hrow
    have hopen := hp row hselected
    rw [honly row hin hid] at hopen
    cases hopen
  constructor
  · exact hlist _ fun row h => h
  · exact hlist _ fun row h => by simp_all [isOpen]
  · exact hlist _ fun row h => by simp_all [isOpen]
  · exact hlist _ fun row h => h

theorem rewrite_status (taskId : ℤ) (f : Task → Task) (status : Status) (id : ℕ) (task : Task)
    (hf : (f task).status = status) :
    ((Edit.rewrite taskId (fun _ => true) f).onTask id task).status =
      if (id : ℤ) = taskId then status else task.status := by
  simp only [Edit.onTask, and_true]
  split
  · exact hf
  · rfl

theorem onTask_status (clock : Clock) (s : Stores) (move : Move) (id : ℕ) (task : Task)
    (hclosed : isOpen task = false) : ((move.edit clock s).onTask id task).status =
      match verdict move with
      | some (taskId,status) => if (id : ℤ) = taskId then status else task.status
      | none => task.status := by
  rw [Move.edit, verdict]
  cases move.effect with
  | nothing => rfl
  | created request => rfl
  | answered taskId answer =>
    have hwaiting : task.status ≠ .waitingUser := by
      intro h
      simp [isOpen, h] at hclosed
    simp [Effect.edit, Edit.onTask, hwaiting]
  | asked taskId stage note => exact rewrite_status taskId _ .waitingUser id task rfl
  | finished taskId note => exact rewrite_status taskId _ .done id task rfl
  | abandoned taskId note => exact rewrite_status taskId _ .abandoned id task rfl

/-- One move leaves the closed tasks their status exactly when it respects them. -/
theorem respects_iff (clock : Clock) (s : Stores) (move : Move) : Respects move s.tasks ↔
    ∀ id task, s.tasks.find id = some task → isOpen task = false →
      ((move.edit clock s).onTask id task).status = task.status := by
  constructor
  · intro hrespects id task hfind hclosed
    rw [onTask_status clock s move id task hclosed]
    split
    · rename_i taskId status hverdict
      split
      · rename_i hid
        exact (hrespects taskId status hverdict id task hfind hclosed hid).symm
      · rfl
    · rfl
  · intro hkept taskId status hverdict id task hfind hclosed hid
    have hstatus := hkept id task hfind hclosed
    rw [onTask_status clock s move id task hclosed, hverdict] at hstatus
    simpa [hid] using hstatus.symm

/-- From a point where a task is closed, moves that respect closed tasks leave it
its status. -/
theorem after_respectful (clock : Clock) (moves : List Move) (s : Stores)
    (hrespects : Throughout (Move.perform clock) (fun s move => Respects move s.tasks) moves s)
    (id : ℕ) (task : Task) (hfind : s.tasks.find id = some task) (hclosed : isOpen task = false) :
    ∃ task', (after (Move.perform clock) moves s).tasks.find id = some task' ∧
      task'.status = task.status := by
  apply hrespects.keeps (fun s => ∃ task', s.tasks.find id = some task' ∧
    task'.status = task.status) _ ⟨task,hfind,rfl⟩
  rintro s move ⟨found,hfound,hstatus⟩ hrespect
  have hfoundClosed : isOpen found = false := by
    rw [isOpen, hstatus]
    exact hclosed
  have hkept := (respects_iff clock s move).mp hrespect id found hfound hfoundClosed
  exact ⟨_,Move.find_perform clock s move id found hfound,hkept.trans hstatus⟩

/-- Closed tasks stay closed in a run exactly when each of its moves that names
a closed task gives it the status it has. -/
theorem closed_stay_closed_iff (clock : Clock) (moves : List Move) (s : Stores) :
    StaysClosed clock moves s ↔
      Throughout (Move.perform clock) (fun s move => Respects move s.tasks) moves s := by
  constructor
  · intro hstays front move back hmoves
    rw [respects_iff clock]
    intro id task hfind hclosed
    have hkept := (hstays front [move] back (by simpa using hmoves) id task hfind hclosed).2
    rw [after_append, after_cons, after_nil, Move.find_perform clock _ move id task hfind] at hkept
    exact Option.some.inj hkept
  · intro hrespects front later back hmoves id task hfind hclosed
    rw [hmoves, throughout_append, throughout_append] at hrespects
    obtain ⟨task',hfind',hstatus⟩ := after_respectful clock later _ hrespects.1.2 id task hfind
      hclosed
    rw [after_append]
    constructor
    · apply offTheLists_of_closed _ id task' hfind'
      rw [isOpen, hstatus]
      exact hclosed
    · rw [hfind', Option.map_some, hstatus]

def reopening : List Move :=
  [.store (.create "aggiungi i promemoria"),.store (.finish 1 "fatto"),
    .script ⟨"advance 1 understood Procedo?",[]⟩]

theorem finished_task_is_reopened : ¬StaysClosed (fun n => n) reopening .empty := by
  intro hstays
  have hkept := (hstays (reopening.take 2) (reopening.drop 2) [] rfl 1
    ⟨"aggiungi i promemoria",.deployed,.done,"fatto","",0,1⟩ (by decide) rfl).2
  revert hkept
  decide

end Emma.ClosedTasks

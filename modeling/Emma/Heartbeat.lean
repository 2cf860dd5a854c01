import Emma.QueueMoves

/-!
# Whether anybody is there

No service stands behind the queue, only a session that somebody left open. What
the user is told of it comes from the last time the session asked for anything the
script knows, whether it was given it or not.
-/

set_option autoImplicit false

namespace Emma.Heartbeat
open Emma.Tasks Emma.DevelopmentTools Emma.QueueScript
open Runs

variable (clock : Clock)

def contact (s : Stores) : QueueMoves.Move → Option ℚ
  | .store .touch => some (clock s.readings)
  | .script r => if r.word 0 ≠ "" ∧ isVerb (r.word 0) = true then some (clock s.readings) else none
  | .store _ => none

def step (s : Stores) (move : QueueMoves.Move) : Stores := move.perform clock s

theorem onTasks_lastSeen {α : Type} (s : Stores)
    (f : TaskTable → ℚ → Except Python.PyError (α × TaskTable)) :
    (onTasks clock s f).2.lastSeen = s.lastSeen := by
  unfold onTasks
  split <;> rfl

theorem action_lastSeen (s : Stores) (action : Action) :
    (action.run clock s).2.lastSeen = s.lastSeen := by
  cases action <;> rfl

/-- A call of the store that is not its touch says nothing about the session. -/
theorem perform_lastSeen (s : Stores) (op : QueueMoves.Operation) (h : op ≠ .touch) :
    (op.perform clock s).2.lastSeen = s.lastSeen := by
  cases op with
  | touch => exact absurd rfl h
  | read => rfl
  | create request => exact onTasks_lastSeen clock s fun tasks now => Tasks.create tasks request now
  | recordAnswer taskId answer =>
    exact onTasks_lastSeen clock s fun tasks now => Tasks.recordAnswer tasks taskId answer now
  | advance taskId stage note =>
    exact onTasks_lastSeen clock s fun tasks now => Tasks.advance tasks taskId stage note now
  | finish taskId note =>
    exact onTasks_lastSeen clock s fun tasks now => Tasks.finish tasks taskId note now
  | abandon taskId note =>
    exact onTasks_lastSeen clock s fun tasks now => Tasks.abandon tasks taskId note now

theorem step_lastSeen (s : Stores) (move : QueueMoves.Move) :
    (step clock s move).lastSeen = (contact clock s move).or s.lastSeen := by
  cases move with
  | store op =>
    by_cases htouch : op = .touch
    · rw [htouch]
      rfl
    · have hnone : contact clock s (.store op) = none := by
        cases op with
        | touch => exact absurd rfl htouch
        | _ => rfl
      rw [hnone]
      exact perform_lastSeen clock s op htouch
  | script r =>
    have hrun : (step clock s (.script r)).lastSeen = (QueueScript.run clock r s).2.lastSeen := rfl
    rw [hrun, contact, QueueScript.run]
    by_cases hempty : r.word 0 = ""
    · rw [if_pos hempty, if_neg (by simp [hempty])]
      rfl
    by_cases hverb : isVerb (r.word 0) = true
    · rw [if_neg hempty, if_neg (by simp [hverb]), if_pos ⟨hempty,hverb⟩]
      dsimp only
      split
      · rfl
      · rw [action_lastSeen]
        rfl
    · rw [if_neg hempty, if_pos (by simpa using hverb), if_neg (by simp [hverb])]
      rfl

def Contact (s : Stores) (move : QueueMoves.Move) : Prop := (contact clock s move).isSome = true

theorem silent_lastSeen (moves : List QueueMoves.Move) (s : Stores)
    (h : Throughout (step clock) (fun s move => ¬Contact clock s move) moves s) :
    (after (step clock) moves s).lastSeen = s.lastSeen := by
  apply h.keeps (fun t => t.lastSeen = s.lastSeen) _ rfl
  intro t move ht hsilent
  have hnone : contact clock t move = none := by simpa [Contact] using hsilent
  rw [step_lastSeen, hnone, Option.none_or, ht]

/-- The lines that `work_status` adds for an age. -/
def warned (age : ℚ) : List String :=
  if age > staleAfterSeconds then
    ["NOTA: l'ultimo contatto con la sessione di sviluppo risale a " ++ describeAge age ++
      ". Probabilmente non e' attiva."]
  else []

def neverSeen : List String :=
  ["NOTA: nessuna sessione di sviluppo ha ancora letto la coda. " ++
    "Se ci sono lavori in attesa, la sessione non e' attiva."]

/-- The answer of `work_status` with these lines at its end. -/
def status (t : TaskTable) (warning : List String) : String :=
  if openTasks t = [] then "Nessun lavoro di sviluppo aperto."
  else "\n".intercalate ([WorkStatus.header (openTasks t),""] ++
    (openTasks t).map WorkStatus.describe ++ warning)

theorem warning_lines (s : Stores) :
    let warning := (WorkStatus.stalenessWarning clock s).1
    (if warning = "" then [] else [warning]) = match s.lastSeen with
      | none => neverSeen
      | some seen => warned (clock s.readings-seen) := by
  intro warning
  cases hseen : s.lastSeen with
  | none =>
    have hwarning : neverSeen = [warning] := by
      simp only [warning, WorkStatus.stalenessWarning, hseen]
      rfl
    have hsome : warning ≠ "" := by
      rw [← List.singleton_inj.mp hwarning]
      simp
    rw [if_neg hsome]
    exact hwarning.symm
  | some seen =>
    have hwarning : warning = if clock s.readings-seen > staleAfterSeconds then
        "NOTA: l'ultimo contatto con la sessione di sviluppo risale a " ++
          describeAge (clock s.readings-seen) ++ ". Probabilmente non e' attiva."
        else "" := by
      simp only [warning, WorkStatus.stalenessWarning, hseen]
    rw [hwarning]
    dsimp only
    rw [warned]
    by_cases hstale : clock s.readings-seen > staleAfterSeconds
    · rw [if_pos hstale, if_pos hstale, if_neg (by simp)]
    · rw [if_neg hstale, if_neg hstale, if_pos rfl]

theorem run_status (arguments : LanguageModel.Arguments) (s : Stores) :
    (WorkStatus.run clock arguments s).1 = .ok (status s.tasks (match s.lastSeen with
      | none => neverSeen
      | some seen => warned (clock s.readings-seen))) := by
  rw [← warning_lines clock s, WorkStatus.run, status]
  cases openTasks s.tasks with
  | nil => rfl
  | cons row rows => rfl

/-- Whatever the two sides did, the status ends with what the last contact of the
session makes of it: nothing where it was in the last six hours, its age where it was
earlier, and where there was none that there was none. -/
theorem status_tells_the_contact (moves : List QueueMoves.Move)
    (arguments : LanguageModel.Arguments) :
    let s := after (step clock) moves .empty
    let answer := (WorkStatus.run clock arguments s).1
    Throughout (step clock) (fun s move => ¬Contact clock s move) moves .empty ∧
        answer = .ok (status s.tasks neverSeen) ∨
      ∃ front move back seen, moves = front ++ move::back ∧
        contact clock (after (step clock) front .empty) move = some seen ∧
        Throughout (step clock) (fun s move => ¬Contact clock s move) back
          (after (step clock) (front ++ [move]) .empty) ∧
        answer = .ok (status s.tasks (warned (clock s.readings-seen))) := by
  intro s answer
  have hanswer : answer = _ := run_status clock arguments s
  rcases last_or_none (Contact clock) moves .empty with hnone | ⟨front,move,back,hmoves,hmove,hback⟩
  · left
    have hseen : s.lastSeen = none := silent_lastSeen clock moves .empty hnone
    rw [hanswer, hseen]
    exact ⟨hnone,rfl⟩
  · right
    obtain ⟨seen,hcontact⟩ := Option.isSome_iff_exists.mp hmove
    have hlast : after (step clock) (front ++ [move]) .empty =
        step clock (after (step clock) front .empty) move := by simp
    have hseen : s.lastSeen = some seen := by
      have hrest := silent_lastSeen clock back _ hback
      rw [step_lastSeen, hcontact, Option.some_or] at hrest
      rw [← hrest]
      simp only [s, hmoves, after_append, after_cons]
    rw [← hlast] at hback
    rw [hanswer, hseen]
    exact ⟨front,move,back,seen,hmoves,hcontact,hback,rfl⟩

end Emma.Heartbeat

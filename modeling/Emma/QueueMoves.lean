import Emma.Library.Runs
import Emma.QueueScript

/-!
# The moves on the queue

The process calls the store, the developer's session runs the script. Whatever
a move is, it edits the table in one of three ways: not at all, by a new row at
the end, or by rewriting the row of one task where that task meets a guard. The
effect of a move says which, once its arguments were checked.
-/

set_option autoImplicit false

namespace Emma.QueueMoves
open Emma.Python Emma.Tasks Emma.DevelopmentTools Emma.QueueScript

inductive Edit where
  | keep
  | insert (task : Task)
  | rewrite (taskId : ℤ) (guard : Task → Bool) (f : Task → Task)

namespace Edit

def apply (t : TaskTable) : Edit → TaskTable
  | keep => t
  | insert task => t.insert task
  | rewrite taskId guard f => t.update (fun row => row.1 = taskId && guard row.2) f

def lands (t : TaskTable) : Edit → Bool
  | keep => false
  | insert _ => true
  | rewrite taskId guard _ => t.rows.any fun row => row.1 = taskId && guard row.2

def onTask (id : ℕ) (task : Task) : Edit → Task
  | keep => task
  | insert _ => task
  | rewrite taskId guard f => if id = taskId ∧ guard task = true then f task else task

theorem find_apply (e : Edit) (t : TaskTable) (id : ℕ) (task : Task)
    (h : t.find id = some task) : (e.apply t).find id = some (e.onTask id task) := by
  cases e with
  | keep => exact h
  | insert new =>
    have hbound := t.find_bounded id task h
    rw [apply, RowTable.find_insert, if_neg (by omega)]
    exact h
  | rewrite taskId guard f =>
    rw [apply, RowTable.find_update, h]
    simp [onTask]

theorem find_apply_cases (e : Edit) (t : TaskTable) (id : ℕ) (task' : Task)
    (h : (e.apply t).find id = some task') :
    (∃ task, t.find id = some task ∧ e.onTask id task = task') ∨
      t.find id = none ∧ e = .insert task' := by
  cases hfind : t.find id with
  | some task =>
    rw [e.find_apply t id task hfind] at h
    exact .inl ⟨task,rfl,Option.some.inj h⟩
  | none =>
    right
    constructor
    · rfl
    cases e with
    | keep =>
      rw [apply, hfind] at h
      cases h
    | insert new =>
      rw [apply, RowTable.find_insert, hfind] at h
      split at h
      · rw [Option.some.inj h]
      · cases h
    | rewrite taskId guard f =>
      rw [apply, RowTable.find_update, hfind] at h
      cases h

theorem lands_rewrite (t : TaskTable) (taskId : ℤ) (guard : Task → Bool) (f : Task → Task) :
    (rewrite taskId guard f).lands t = true ↔
      ∃ id task, t.find id = some task ∧ (id : ℤ) = taskId ∧ guard task = true := by
  simp [lands, RowTable.find_iff]

end Edit

inductive Effect where
  | nothing
  | created (request : String)
  | answered (taskId : ℤ) (answer : String)
  | asked (taskId : ℤ) (stage : Stage) (note : String)
  | finished (taskId : ℤ) (note : String)
  | abandoned (taskId : ℤ) (note : String)

namespace Effect

def edit (now : ℚ) : Effect → Edit
  | nothing => .keep
  | created request => .insert ⟨request,.new,.queued,"","",now,now⟩
  | answered taskId answer => .rewrite taskId (fun task => task.status = .waitingUser) fun task =>
      { task with answer := answer, status := .queued, updatedAt := now }
  | asked taskId stage note => .rewrite taskId (fun _ => true) fun task =>
      { task with
        stage := stage, note := note, answer := "", status := .waitingUser, updatedAt := now }
  | finished taskId note => .rewrite taskId (fun _ => true) fun task =>
      { task with status := .done, stage := .deployed, note := note, updatedAt := now }
  | abandoned taskId note => .rewrite taskId (fun _ => true) fun task =>
      { task with status := .abandoned, note := note, updatedAt := now }

/-- A number that cannot be bound raises before the statement. -/
def bounded (taskId : ℤ) (e : Effect) : Effect := if (bound taskId).isOk then e else .nothing

theorem bounded_cases (taskId : ℤ) (e : Effect) :
    bounded taskId e = .nothing ∨ bounded taskId e = e := by
  unfold bounded
  split
  · exact .inr rfl
  · exact .inl rfl

theorem bounded_some {taskId : ℤ} {e e' : Effect} (h : bounded taskId e = e')
    (hsome : e' ≠ .nothing) : e = e' := by
  rcases bounded_cases taskId e with hnone | hsame
  · exact absurd (h.symm.trans hnone) hsome
  · exact hsame.symm.trans h

/-- A task that was not there is new, queued and says nothing yet. -/
theorem edit_insert (now : ℚ) (e : Effect) (task : Task) (h : e.edit now = .insert task) :
    ∃ request, e = .created request ∧ task = ⟨request,.new,.queued,"","",now,now⟩ := by
  cases e with
  | created request => exact ⟨request,rfl,(Edit.insert.inj h).symm⟩
  | _ => cases h

inductive Met (now : ℚ) (id : ℕ) (task : Task) : Effect → Task → Prop
  | answered (answer : String) (h : task.status = .waitingUser) :
      Met now id task (.answered id answer)
        { task with answer := answer, status := .queued, updatedAt := now }
  | asked (stage : Stage) (note : String) : Met now id task (.asked id stage note)
      { task with
        stage := stage, note := note, answer := "", status := .waitingUser, updatedAt := now }
  | finished (note : String) : Met now id task (.finished id note)
      { task with status := .done, stage := .deployed, note := note, updatedAt := now }
  | abandoned (note : String) : Met now id task (.abandoned id note)
      { task with status := .abandoned, note := note, updatedAt := now }
  | missed (e : Effect) (hasked : ∀ stage note, e ≠ .asked id stage note)
      (hanswered : ∀ answer, e = .answered id answer → task.status ≠ .waitingUser) :
      Met now id task e task

theorem met (now : ℚ) (e : Effect) (id : ℕ) (task : Task) :
    Met now id task e ((e.edit now).onTask id task) := by
  cases e with
  | nothing => exact .missed .nothing (by simp) (by simp)
  | created request => exact .missed (.created request) (by simp) (by simp)
  | answered taskId answer =>
    dsimp only [edit, Edit.onTask]
    split
    · rename_i hhit
      obtain ⟨rfl,hwaiting⟩ := hhit
      exact .answered answer (by simpa using hwaiting)
    · rename_i hmiss
      apply Met.missed _ (by simp)
      intro given hsame hwaiting
      obtain ⟨rfl,-⟩ := answered.inj hsame
      exact hmiss ⟨rfl,by simpa using hwaiting⟩
  | asked taskId stage note =>
    dsimp only [edit, Edit.onTask]
    split
    · rename_i hhit
      obtain ⟨rfl,-⟩ := hhit
      exact .asked stage note
    · rename_i hmiss
      apply Met.missed _ _ (by simp)
      intro next text hsame
      obtain ⟨rfl,-⟩ := asked.inj hsame
      exact hmiss ⟨rfl,rfl⟩
  | finished taskId note =>
    dsimp only [edit, Edit.onTask]
    split
    · rename_i hhit
      obtain ⟨rfl,-⟩ := hhit
      exact .finished note
    · exact .missed _ (by simp) (by simp)
  | abandoned taskId note =>
    dsimp only [edit, Edit.onTask]
    split
    · rename_i hhit
      obtain ⟨rfl,-⟩ := hhit
      exact .abandoned note
    · exact .missed _ (by simp) (by simp)

theorem find_edit_cases (now : ℚ) (e : Effect) (t : TaskTable) (id : ℕ) (task' : Task)
    (h : ((e.edit now).apply t).find id = some task') :
    (∃ task, t.find id = some task ∧ Met now id task e task') ∨
      t.find id = none ∧ ∃ request, e = .created request ∧
        task' = ⟨request,.new,.queued,"","",now,now⟩ := by
  rcases Edit.find_apply_cases _ t id task' h with ⟨task,hbefore,rfl⟩ | ⟨hnone,hnew⟩
  · exact .inl ⟨task,hbefore,e.met now id task⟩
  · exact .inr ⟨hnone,edit_insert now e task' hnew⟩

/-- A task that waits on the user was asked just now, or waited before and is as
it was. -/
theorem waiting_cases (now : ℚ) (e : Effect) (t : TaskTable) (id : ℕ) (task' : Task)
    (hfind : ((e.edit now).apply t).find id = some task') (hwaiting : task'.status = .waitingUser) :
    (∃ stage, e = .asked id stage task'.note) ∨
      (∀ stage note, e ≠ .asked id stage note) ∧ t.find id = some task' := by
  rcases find_edit_cases now e t id task' hfind with ⟨task,hbefore,hmet⟩ | ⟨-,request,-,rfl⟩
  · cases hmet with
    | answered => cases hwaiting
    | asked stage note => exact .inl ⟨stage,rfl⟩
    | finished => cases hwaiting
    | abandoned => cases hwaiting
    | missed _ hasked => exact .inr ⟨hasked,hbefore⟩
  · cases hwaiting

end Effect

/-- A call of the store; the reads are told apart by nothing here. -/
inductive Operation where
  | create (request : String)
  | recordAnswer (taskId : ℤ) (answer : String)
  | advance (taskId : ℤ) (stage note : String)
  | finish (taskId : ℤ) (note : String)
  | abandon (taskId : ℤ) (note : String)
  | touch
  | read

/-- A statement of the store rewrites its task, and tells whether it met one. -/
theorem onTasks_updateWhere (clock : Clock) (s : Stores) (taskId : ℤ) (e : Effect)
    (guard : Task → Bool) (f : ℚ → Task → Task)
    (he : ∀ now, e.edit now = .rewrite taskId guard (f now)) :
    let effect := (Effect.bounded taskId e).edit (clock s.readings)
    let done := onTasks clock s fun tasks now => updateWhere tasks taskId guard (f now)
    done.2.tasks = effect.apply s.tasks ∧ (done.1 = .ok true ↔ effect.lands s.tasks = true) := by
  dsimp only
  unfold onTasks updateWhere Effect.bounded
  cases hbound : bound taskId with
  | error e => exact ⟨rfl,by simp [bind, Except.bind, Edit.lands, Except.isOk, Except.toBool,
      Effect.edit]⟩
  | ok n =>
    obtain rfl : n = taskId := by
      unfold bound at hbound
      split at hbound
      · exact (Except.ok.inj hbound).symm
      · cases hbound
    simp only [Except.isOk, Except.toBool, if_true, he]
    exact ⟨rfl,by simp [bind, Except.bind, Edit.lands, pure, Except.pure]⟩

namespace Operation

def perform (clock : Clock) (s : Stores) : Operation → Except PyError Bool × Stores
  | create request =>
    let (created,s) := onTasks clock s fun tasks now => Tasks.create tasks request now
    (created.map fun _ => true,s)
  | recordAnswer taskId answer =>
    onTasks clock s fun tasks now => Tasks.recordAnswer tasks taskId answer now
  | advance taskId stage note =>
    onTasks clock s fun tasks now => Tasks.advance tasks taskId stage note now
  | finish taskId note => onTasks clock s fun tasks now => Tasks.finish tasks taskId note now
  | abandon taskId note => onTasks clock s fun tasks now => Tasks.abandon tasks taskId note now
  | touch => (.ok true,DevelopmentTools.touch clock s)
  | read => (.ok true,s)

def effect : Operation → Effect
  | create request => if strip request = "" then .nothing else .created (strip request)
  | recordAnswer taskId answer =>
    if strip answer = "" then .nothing else .bounded taskId (.answered taskId (strip answer))
  | advance taskId stage note => match stageOrder.lookup stage with
    | none => .nothing
    | some stage => .bounded taskId (.asked taskId stage (strip note))
  | finish taskId note => .bounded taskId (.finished taskId (strip note))
  | abandon taskId note => .bounded taskId (.abandoned taskId (strip note))
  | touch => .nothing
  | read => .nothing

theorem perform_edit (clock : Clock) (s : Stores) (op : Operation) :
    (op.perform clock s).2.tasks = (op.effect.edit (clock s.readings)).apply s.tasks := by
  cases op with
  | create request =>
    unfold perform effect onTasks Tasks.create
    by_cases hempty : strip request = "" <;> simp [hempty, Effect.edit, Edit.apply, Stores.ticked]
  | recordAnswer taskId answer =>
    unfold perform effect Tasks.recordAnswer
    by_cases hempty : strip answer = ""
    · simp [hempty, onTasks, Effect.edit, Edit.apply, Stores.ticked]
    · simp only [hempty, if_false]
      exact (onTasks_updateWhere clock s taskId _ _ _ fun _ => rfl).1
  | advance taskId stage note =>
    dsimp only [perform, effect, Tasks.advance]
    cases hstage : stageOrder.lookup stage with
    | none => rfl
    | some stage => exact (onTasks_updateWhere clock s taskId (.asked taskId stage (strip note))
        _ _ fun _ => rfl).1
  | finish taskId note =>
    dsimp only [perform, effect, Tasks.finish, closeWith]
    exact (onTasks_updateWhere clock s taskId (.finished taskId (strip note)) _ _ fun _ => rfl).1
  | abandon taskId note =>
    dsimp only [perform, effect, Tasks.abandon]
    exact (onTasks_updateWhere clock s taskId (.abandoned taskId (strip note)) _ _ fun _ => rfl).1
  | touch => rfl
  | read => rfl

theorem effect_asked (op : Operation) (taskId : ℤ) (next : Stage) (note : String)
    (h : op.effect = .asked taskId next note) : ∃ stage text, op = .advance taskId stage text := by
  cases op with
  | create request =>
    dsimp only [effect] at h
    split at h <;> cases h
  | recordAnswer number answer =>
    dsimp only [effect] at h
    split at h
    · cases h
    · cases Effect.bounded_some h (by simp)
  | advance number stage text =>
    dsimp only [effect] at h
    split at h
    · cases h
    · obtain ⟨rfl,-,-⟩ := Effect.asked.inj (Effect.bounded_some h (by simp))
      exact ⟨stage,text,rfl⟩
  | finish number text => cases Effect.bounded_some h (by simp)
  | abandon number text => cases Effect.bounded_some h (by simp)
  | touch => cases h
  | read => cases h

/-- Only `record_answer` answers, and never with nothing. -/
theorem effect_answered (op : Operation) (taskId : ℤ) (answer : String)
    (h : op.effect = .answered taskId answer) :
    (∃ text, op = .recordAnswer taskId text) ∧ answer ≠ "" := by
  cases op with
  | create request =>
    dsimp only [effect] at h
    split at h <;> cases h
  | recordAnswer number text =>
    dsimp only [effect] at h
    split at h
    · cases h
    · rename_i hsome
      obtain ⟨rfl,rfl⟩ := Effect.answered.inj (Effect.bounded_some h (by simp))
      exact ⟨⟨text,rfl⟩,hsome⟩
  | advance number stage text =>
    dsimp only [effect] at h
    split at h
    · cases h
    · cases Effect.bounded_some h (by simp)
  | finish number text => cases Effect.bounded_some h (by simp)
  | abandon number text => cases Effect.bounded_some h (by simp)
  | touch => cases h
  | read => cases h

theorem advance_effect (taskId : ℤ) (stage note : String) :
    (advance taskId stage note).effect = .nothing ∨
      ∃ next, (advance taskId stage note).effect = .asked taskId next (strip note) := by
  dsimp only [effect]
  split
  · exact .inl rfl
  · rename_i next _
    rcases Effect.bounded_cases taskId (.asked taskId next (strip note)) with h | h
    · exact .inl h
    · exact .inr ⟨next,h⟩

theorem recordAnswer_effect (taskId : ℤ) (answer : String) :
    (recordAnswer taskId answer).effect = .nothing ∨
      (recordAnswer taskId answer).effect = .answered taskId (strip answer) := by
  dsimp only [effect]
  split
  · exact .inl rfl
  · exact Effect.bounded_cases taskId (.answered taskId (strip answer))

theorem recordAnswer_ok (clock : Clock) (s : Stores) (taskId : ℤ) (answer : String) :
    ((recordAnswer taskId answer).perform clock s).1 = .ok true ↔
      ((recordAnswer taskId answer).effect.edit (clock s.readings)).lands s.tasks = true := by
  dsimp only [perform, effect, Tasks.recordAnswer]
  by_cases hempty : strip answer = ""
  · simp [hempty, onTasks, Effect.edit, Edit.lands]
  · simp only [hempty, if_false]
    exact (onTasks_updateWhere clock s taskId _ _ _ fun _ => rfl).2

theorem advance_ok (clock : Clock) (s : Stores) (taskId : ℤ) (stage note : String) :
    ((advance taskId stage note).perform clock s).1 = .ok true ↔
      ((advance taskId stage note).effect.edit (clock s.readings)).lands s.tasks = true := by
  dsimp only [perform, effect, Tasks.advance]
  cases hstage : stageOrder.lookup stage with
  | none => simp [onTasks, Effect.edit, Edit.lands]
  | some stage => exact (onTasks_updateWhere clock s taskId (.asked taskId stage (strip note))
      _ _ fun _ => rfl).2

def step (clock : Clock) (s : Stores) (op : Operation) : Stores := (op.perform clock s).2

theorem step_tasks (clock : Clock) (s : Stores) (op : Operation) :
    (op.step clock s).tasks = (op.effect.edit (clock s.readings)).apply s.tasks :=
  op.perform_edit clock s

end Operation

def actionEffect : Action → Effect
  | .list => .nothing
  | .listAll => .nothing
  | .show _ => .nothing
  | .touch => .nothing
  | .create request => .created request
  | .advance taskId stage note => .asked taskId stage note
  | .finish taskId note => .finished taskId note
  | .abandon taskId note => .abandoned taskId note

theorem action_edit (clock : Clock) (s : Stores) (action : Action) :
    (action.run clock s).2.tasks =
      ((actionEffect action).edit (clock s.readings)).apply s.tasks := by
  have hid : ∀ (taskId : ℕ) (f : Task → Task), rewritten s.tasks taskId f =
      (Edit.rewrite taskId (fun _ => true) f).apply s.tasks := by
    intro taskId f
    simp [rewritten, Edit.apply]
  cases action with
  | list => rfl
  | listAll => rfl
  | «show» taskId => rfl
  | touch => rfl
  | create request => rfl
  | advance taskId stage note =>
    dsimp only [Action.run, actionEffect, Effect.edit]
    exact hid taskId _
  | finish taskId note =>
    dsimp only [Action.run, actionEffect, Effect.edit]
    exact hid taskId _
  | abandon taskId note =>
    dsimp only [Action.run, actionEffect, Effect.edit]
    exact hid taskId _

inductive Move where
  | store (op : Operation)
  | script (r : Request)

namespace Move

def perform (clock : Clock) (s : Stores) : Move → Stores
  | store op => (op.perform clock s).2
  | script r => (QueueScript.run clock r s).2

def effect : Move → Effect
  | store op => op.effect
  | script r => match understood r with
    | .ok action => actionEffect action
    | .error _ => .nothing

def instant (clock : Clock) (s : Stores) : Move → ℚ
  | store _ => clock s.readings
  | script _ => clock (s.readings+1)

def edit (clock : Clock) (s : Stores) (move : Move) : Edit :=
  move.effect.edit (move.instant clock s)

theorem perform_edit (clock : Clock) (s : Stores) (move : Move) :
    (move.perform clock s).tasks = (move.edit clock s).apply s.tasks := by
  cases move with
  | store op => exact op.perform_edit clock s
  | script r =>
    dsimp only [perform, edit, effect]
    rw [QueueScript.run_eq]
    cases understood r with
    | error refusal => rfl
    | ok action => exact action_edit clock (DevelopmentTools.touch clock s) action

theorem find_perform (clock : Clock) (s : Stores) (move : Move) (id : ℕ) (task : Task)
    (h : s.tasks.find id = some task) :
    (move.perform clock s).tasks.find id = some ((move.edit clock s).onTask id task) := by
  rw [perform_edit]
  exact (move.edit clock s).find_apply s.tasks id task h

end Move
end Emma.QueueMoves

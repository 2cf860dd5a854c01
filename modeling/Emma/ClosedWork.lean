import Emma.Library.Interleaving
import Emma.ToolStatements

/-!
# Closed work and the tools of the user

Any number of calls of the tools and of requests of the developer's session run
side by side, one statement at a time. Dropping a job takes two statements, and
the second does not ask again whether the job is open. So what matters is what
came between the two.
-/

set_option autoImplicit false

namespace Emma.ClosedWork
open Statements Emma.Python Emma.LanguageModel Emma.Orchestrator Emma.Tasks Emma.DevelopmentTools
open Emma.QueueScript Emma.QueueMoves Emma.ToolStatements Runs

inductive Call where
  | requestDevelopment (arguments : Arguments)
  | workStatus (arguments : Arguments)
  | answerQuestion (arguments : Arguments)
  | abandonDevelopment (arguments : Arguments)
  | removeTool (arguments : Arguments)
  | enableTool (arguments : Arguments)
  | session (r : Request)

inductive Process where
  | tool (script : ToolScript)
  | session (script : QueueRun)

def Call.start (names : List String) : Call → Process
  | .requestDevelopment arguments => .tool (RequestDevelopment.script arguments)
  | .workStatus arguments => .tool (WorkStatus.script arguments)
  | .answerQuestion arguments => .tool (AnswerQuestion.script arguments)
  | .abandonDevelopment arguments => .tool (AbandonDevelopment.script arguments)
  | .removeTool arguments => .tool (RemoveTool.script names arguments)
  | .enableTool arguments => .tool (EnableTool.script arguments)
  | .session r => .session (queueRun r)

def act (clock : Clock) : Process × Stores → Process × Stores
  | (.tool script,s) =>
    let (script,s) := script.advance (ToolStatement.perform clock) s
    (.tool script,s)
  | (.session script,s) =>
    let (script,s) := script.advance (QueueStatement.perform clock) s
    (.session script,s)

def toolEffect {β : Type} : ToolStatement β → Effect
  | .create request => (Operation.create request).effect
  | .recordAnswer taskId answer => (Operation.recordAnswer taskId answer).effect
  | .abandon taskId note => (Operation.abandon taskId note).effect
  | _ => .nothing

def queueEffect {β : Type} : QueueStatement β → Effect
  | .insert request => .created request
  | .advance taskId stage note => .asked taskId stage note
  | .finish taskId note => .finished taskId note
  | .abandon taskId note => .abandoned taskId note
  | _ => .nothing

/-- What a call leaves of the tables when nobody comes between its statements. -/
def Call.run (clock : Clock) (names : List String) (s : Stores) : Call → Stores
  | .requestDevelopment arguments =>
    (DevelopmentTools.RequestDevelopment.run clock arguments s).2
  | .workStatus arguments => (DevelopmentTools.WorkStatus.run clock arguments s).2
  | .answerQuestion arguments => (DevelopmentTools.AnswerQuestion.run clock arguments s).2
  | .abandonDevelopment arguments =>
    (DevelopmentTools.AbandonDevelopment.run clock arguments s).2
  | .removeTool arguments => (ToolStateTools.RemoveTool.run clock names arguments s).2
  | .enableTool arguments => (ToolStateTools.EnableTool.run arguments s).2
  | .session r => (QueueScript.run clock r s).2

namespace Process

def finish (clock : Clock) (s : Stores) : Process → Stores
  | tool script => (script.finish (ToolStatement.perform clock) s).2
  | session script => (script.finish (QueueStatement.perform clock) s).2

def isTool : Process → Bool
  | tool _ => true
  | session _ => false

def looks : Process → Bool
  | tool (.next .openTasks _) => true
  | _ => false

def effect : Process → Effect
  | tool (.next statement _) => toolEffect statement
  | session (.next statement _) => queueEffect statement
  | _ => .nothing

end Process

def closes : Effect → Option ℤ
  | .finished taskId _ => some taskId
  | .abandoned taskId _ => some taskId
  | _ => none

def reopens : Effect → Option ℤ
  | .asked taskId _ _ => some taskId
  | _ => none

section
variable {ι : Type} [DecidableEq ι]

abbrev Work (ι : Type) := (ι → Process) × Stores

def step (clock : Clock) : Work ι → ι → Work ι := Interleaving.step fun _ => act clock

def opening (names : List String) (calls : ι → Call) (s : Stores) : Work ι :=
  (fun i => (calls i).start names,s)

/-- No statement of a tool changes a task that is done or abandoned. -/
def KeepsClosedWork (clock : Clock) (schedule : List ι) (w : Work ι) : Prop :=
  Throughout (step clock) (fun w i => (w.1 i).isTool = true →
    ∀ id task, w.2.tasks.find id = some task → isOpen task = false →
      (step clock w i).2.tasks.find id = some task) schedule w

def LeavesClosed (clock : Clock) (taskId : ℤ) (schedule : List ι) (w : Work ι) : Prop :=
  ∃ early j late, schedule = early ++ j::late ∧
    closes ((after (step clock) early w).1 j).effect = some taskId ∧
    Throughout (step clock) (fun w j => ¬reopens (w.1 j).effect = some taskId) late
      (after (step clock) (early ++ [j]) w)

def AlreadyDropped (note : String) (now : ℚ) (task : Task) : Prop :=
  task.status = .abandoned ∧ task.note = note ∧ task.updatedAt = now

def FindsOpen (taskId : ℤ) (w : Work ι) (i : ι) : Prop :=
  (w.1 i).looks = true ∧ ∃ row ∈ openTasks w.2.tasks, (row.1 : ℤ) = taskId

/-- Where a tool found a task open and is about to drop it, nothing in between has
left the task closed, unless the update finds what it would write. -/
def NothingOvertakes (clock : Clock) (schedule : List ι) (w : Work ι) : Prop :=
  ∀ front i between back taskId note, schedule = front ++ i::(between ++ i::back) →
    let looking := after (step clock) front w
    let dropping := after (step clock) between (step clock looking i)
    FindsOpen taskId looking i → (dropping.1 i).isTool = true →
    (dropping.1 i).effect = .abandoned taskId note →
    LeavesClosed clock taskId between (step clock looking i) →
    ∃ (id : ℕ) (task : Task), (id : ℤ) = taskId ∧ dropping.2.tasks.find id = some task ∧
      AlreadyDropped note (clock dropping.2.readings) task

end

theorem start_finish (clock : Clock) (names : List String) (s : Stores) (call : Call) :
    (call.start names).finish clock s = call.run clock names s := by
  cases call with
  | requestDevelopment arguments =>
    exact congrArg Prod.snd (requestDevelopment_finish clock arguments s)
  | workStatus arguments => exact congrArg Prod.snd (workStatus_finish clock arguments s)
  | answerQuestion arguments => exact congrArg Prod.snd (answerQuestion_finish clock arguments s)
  | abandonDevelopment arguments =>
    exact congrArg Prod.snd (abandonDevelopment_finish clock arguments s)
  | removeTool arguments => exact congrArg Prod.snd (removeTool_finish clock arguments s names)
  | enableTool arguments => exact congrArg Prod.snd (enableTool_finish clock arguments s)
  | session r => exact congrArg Prod.snd (queueRun_finish clock s r)

theorem iterate_act (clock : Clock) (p : Process) (s : Stores) :
    ∃ n, ((act clock)^[n] (p,s)).2 = p.finish clock s := by
  cases p with
  | tool script =>
    obtain ⟨n,hn⟩ := Script.iterate_carrier (ToolStatement.perform clock)
      (fun q : ToolScript × Stores => (Process.tool q.1,q.2)) (act clock) (fun _ => rfl) script s
    exact ⟨n,congrArg Prod.snd hn⟩
  | session script =>
    obtain ⟨n,hn⟩ := Script.iterate_carrier (QueueStatement.perform clock)
      (fun q : QueueRun × Stores => (Process.session q.1,q.2)) (act clock) (fun _ => rfl) script s
    exact ⟨n,congrArg Prod.snd hn⟩

theorem call_alone {ι : Type} [DecidableEq ι] (clock : Clock) (names : List String)
    (calls : ι → Call) (s : Stores) (i : ι) : ∃ n,
      (after (step clock) (List.replicate n i) (opening names calls s)).2 =
        (calls i).run clock names s := by
  obtain ⟨n,hn⟩ := iterate_act clock ((calls i).start names) s
  use n
  rw [← start_finish, ← hn]
  exact congrArg Prod.snd (Interleaving.run_replicate (fun _ => act clock) i n _ s)

theorem tool_edit (clock : Clock) {β : Type} (statement : ToolStatement β) (s : Stores) :
    (statement.perform clock β s).2.tasks =
      ((toolEffect statement).edit (clock s.readings)).apply s.tasks := by
  cases statement with
  | create request =>
    rw [toolEffect, ← Operation.perform_edit, ToolStatement.perform, Operation.perform]
  | recordAnswer taskId answer =>
    rw [toolEffect, ← Operation.perform_edit, ToolStatement.perform, Operation.perform]
  | abandon taskId note =>
    rw [toolEffect, ← Operation.perform_edit, ToolStatement.perform, Operation.perform]
  | _ => rfl

theorem queue_edit (clock : Clock) {β : Type} (statement : QueueStatement β) (s : Stores) :
    (statement.perform clock β s).2.tasks =
      ((queueEffect statement).edit (clock s.readings)).apply s.tasks := by
  cases statement with
  | insert request => exact action_edit clock s (.create request)
  | advance taskId stage note => exact action_edit clock s (.advance taskId stage note)
  | finish taskId note => exact action_edit clock s (.finish taskId note)
  | abandon taskId note => exact action_edit clock s (.abandon taskId note)
  | _ => rfl

theorem act_edit (clock : Clock) (p : Process) (s : Stores) :
    (act clock (p,s)).2.tasks = (p.effect.edit (clock s.readings)).apply s.tasks := by
  rcases p with (result | ⟨statement,rest⟩) | (result | ⟨statement,rest⟩)
  · rfl
  · exact tool_edit clock statement s
  · rfl
  · exact queue_edit clock statement s

theorem tool_effect_cases {β : Type} (statement : ToolStatement β) :
    toolEffect statement = .nothing ∨ (∃ request, toolEffect statement = .created request) ∨
      (∃ taskId answer, toolEffect statement = .answered taskId answer) ∨
      ∃ taskId note, toolEffect statement = .abandoned taskId note := by
  cases statement with
  | create request =>
    dsimp only [toolEffect, Operation.effect]
    split
    · exact .inl rfl
    · exact .inr (.inl ⟨_,rfl⟩)
  | recordAnswer taskId answer =>
    rcases Operation.recordAnswer_effect taskId answer with h | h
    · exact .inl h
    · exact .inr (.inr (.inl ⟨_,_,h⟩))
  | abandon taskId note =>
    rcases Effect.bounded_cases taskId (.abandoned taskId (strip note)) with h | h
    · exact .inl h
    · exact .inr (.inr (.inr ⟨_,_,h⟩))
  | _ => exact .inl rfl

theorem isOpen_onTask (now : ℚ) (e : Effect) (id : ℕ) (task : Task) :
    isOpen ((e.edit now).onTask id task) = true ↔
      reopens e = some ↑id ∨ ¬closes e = some ↑id ∧ isOpen task = true := by
  cases e with
  | nothing => simp [Effect.edit, Edit.onTask, reopens, closes]
  | created request => simp [Effect.edit, Edit.onTask, reopens, closes]
  | answered taskId answer =>
    simp only [Effect.edit, Edit.onTask, reopens, closes]
    split
    · rename_i hhit
      have hwaiting : task.status = .waitingUser := by simpa using hhit.2
      simp [isOpen, hwaiting]
    · simp
  | asked taskId stage note =>
    by_cases hid : (id : ℤ) = taskId
    · simp [Effect.edit, Edit.onTask, reopens, hid, isOpen]
    · simp [Effect.edit, Edit.onTask, reopens, closes, hid, Ne.symm hid]
  | finished taskId note =>
    by_cases hid : (id : ℤ) = taskId
    · simp [Effect.edit, Edit.onTask, reopens, closes, hid, isOpen]
    · simp [Effect.edit, Edit.onTask, reopens, closes, hid, Ne.symm hid]
  | abandoned taskId note =>
    by_cases hid : (id : ℤ) = taskId
    · simp [Effect.edit, Edit.onTask, reopens, closes, hid, isOpen]
    · simp [Effect.edit, Edit.onTask, reopens, closes, hid, Ne.symm hid]

theorem isTool_effect_cases (p : Process) (h : p.isTool = true) :
    p.effect = .nothing ∨ (∃ request, p.effect = .created request) ∨
      (∃ taskId answer, p.effect = .answered taskId answer) ∨
      ∃ taskId note, p.effect = .abandoned taskId note := by
  cases p with
  | tool script =>
    cases script with
    | done result => exact .inl rfl
    | next statement rest => exact tool_effect_cases statement
  | session script => cases h

section
variable {ι : Type} [DecidableEq ι] (clock : Clock)

theorem find_step (w : Work ι) (i : ι) (id : ℕ) (task : Task)
    (h : w.2.tasks.find id = some task) : (step clock w i).2.tasks.find id =
      some (((w.1 i).effect.edit (clock w.2.readings)).onTask id task) := by
  have htasks : (step clock w i).2.tasks =
      ((w.1 i).effect.edit (clock w.2.readings)).apply w.2.tasks := act_edit clock (w.1 i) w.2
  rw [htasks]
  exact Edit.find_apply _ w.2.tasks id task h

theorem find_after (w : Work ι) (schedule : List ι) (id : ℕ)
    (h : (w.2.tasks.find id).isSome = true) :
    ((after (step clock) schedule w).2.tasks.find id).isSome = true := by
  apply after_keeps (fun w : Work ι => (w.2.tasks.find id).isSome = true) _ schedule w h
  intro w i hthere
  obtain ⟨task,hfind⟩ := Option.isSome_iff_exists.mp hthere
  rw [find_step clock w i id task hfind]
  rfl

theorem leavesClosed_iff (w : Work ι) (schedule : List ι) (id : ℕ) (task : Task)
    (hfind : w.2.tasks.find id = some task) (hopen : isOpen task = true) :
    LeavesClosed clock id schedule w ↔
      ∀ task', (after (step clock) schedule w).2.tasks.find id = some task' →
        isOpen task' = false := by
  have hswitched := @switched_off_iff _ _ (step clock)
    (fun w : Work ι => (w.2.tasks.find id).isSome = true)
    (fun w => ∃ task, w.2.tasks.find id = some task ∧ isOpen task = true)
    (fun w j => closes (w.1 j).effect = some ↑id) (fun w j => reopens (w.1 j).effect = some ↑id)
    (fun w j h => find_after clock w [j] id h)
    (by
      intro w j hthere
      obtain ⟨found,hfound⟩ := Option.isSome_iff_exists.mp hthere
      simp only [find_step clock w j id found hfound, hfound, Option.some.injEq,
        exists_eq_left']
      exact isOpen_onTask _ _ id found)
    (by
      intro w j
      cases (w.1 j).effect <;> simp [closes, reopens])
    schedule w (by simp [hfind]) ⟨task,hfind,hopen⟩
  rw [LeavesClosed, ← hswitched]
  simp

/-- Looking changes nothing, and a task that is found open is open behind it. -/
theorem step_looks (w : Work ι) (i : ι) (taskId : ℤ) (h : FindsOpen taskId w i) :
    ∃ (id : ℕ) (task : Task), (id : ℤ) = taskId ∧
      (step clock w i).2.tasks.find id = some task ∧ isOpen task = true := by
  obtain ⟨hlooks,row,hrow,hid⟩ := h
  obtain ⟨hmem,hopen⟩ := List.mem_filter.mp hrow
  have hnothing : (w.1 i).effect = .nothing := by
    revert hlooks
    generalize w.1 i = p
    unfold Process.looks Process.effect
    split
    · simp [toolEffect]
    · simp
  refine ⟨row.1,row.2,hid,?_,hopen⟩
  rw [find_step clock w i row.1 row.2 ((RowTable.find_iff _ _ _).mpr hmem), hnothing]
  rfl

/-- The only statement of a tool that rewrites closed work is one that drops it. -/
theorem tool_keeps_iff (w : Work ι) (i : ι) (htool : (w.1 i).isTool = true) (id : ℕ) (task : Task)
    (hfind : w.2.tasks.find id = some task) (hclosed : isOpen task = false) :
    (step clock w i).2.tasks.find id = some task ↔
      ∀ note, (w.1 i).effect = .abandoned id note →
        AlreadyDropped note (clock w.2.readings) task := by
  rw [find_step clock w i id task hfind, Option.some.injEq]
  rcases isTool_effect_cases (w.1 i) htool with h | ⟨request,h⟩ | ⟨taskId,answer,h⟩ |
    ⟨taskId,note,h⟩
  · simp [h, Effect.edit, Edit.onTask]
  · simp [h, Effect.edit, Edit.onTask]
  · have hwaiting : task.status ≠ .waitingUser := by
      intro hstatus
      simp [isOpen, hstatus] at hclosed
    simp [h, Effect.edit, Edit.onTask, hwaiting]
  · rw [h]
    by_cases hid : (id : ℤ) = taskId
    · subst hid
      obtain ⟨request,stage,status,text,answer,created,updated⟩ := task
      simp [Effect.edit, Edit.onTask, AlreadyDropped, eq_comm]
    · simp [Effect.edit, Edit.onTask, hid, Ne.symm hid]

end

/-- A statement that does not drop a task. -/
def Spares (β : Type) : ToolStatement β → Prop
  | .abandon _ _ => False
  | _ => True

def Process.Spares : Process → Prop
  | tool script => script.Throughout ClosedWork.Spares
  | session _ => True

theorem act_spares (clock : Clock) (p : Process) (s : Stores) (h : p.Spares) :
    (act clock (p,s)).1.Spares := by
  cases p with
  | tool script => exact Script.Throughout.advance (ToolStatement.perform clock) h s
  | session script => trivial

theorem spares_effect (p : Process) (h : p.Spares) (htool : p.isTool = true) (taskId : ℤ)
    (note : String) : p.effect ≠ .abandoned taskId note := by
  cases p with
  | tool script =>
    cases h with
    | done result => simp [Process.effect]
    | next statement rest first others =>
      cases statement with
      | create request =>
        dsimp only [Process.effect, toolEffect, Operation.effect]
        split <;> simp
      | recordAnswer number answer =>
        rcases Operation.recordAnswer_effect number answer with heffect | heffect
        · simp [Process.effect, toolEffect, heffect]
        · simp [Process.effect, toolEffect, heffect]
      | abandon number text => exact first.elim
      | _ => simp [Process.effect, toolEffect]
  | session script => cases htool

theorem requestDevelopment_spares (arguments : Arguments) :
    (RequestDevelopment.script arguments).Throughout Spares := by
  apply Script.Throughout.next _ _ trivial
  rintro (e | taskId)
  · cases e <;> exact .done _
  · exact .done _

theorem workStatus_spares (arguments : Arguments) :
    (WorkStatus.script arguments).Throughout Spares := by
  apply Script.Throughout.next _ _ trivial
  intro openNow
  cases openNow with
  | nil => exact .done _
  | cons task others =>
    apply Script.Throughout.next _ _ trivial
    intro seen
    cases seen with
    | none => exact .done _
    | some seen => exact .next _ _ trivial fun now => .done _

theorem answerQuestion_spares (arguments : Arguments) :
    (AnswerQuestion.script arguments).Throughout Spares := by
  rw [AnswerQuestion.script]
  cases arguments.integer "number" with
  | error e => cases e <;> exact .done _
  | ok taskId =>
    apply Script.Throughout.next _ _ trivial
    rintro (e | _ | _) <;> exact .done _

theorem file_spares (name reason : String) :
    (RemoveTool.file name reason).Throughout Spares := by
  apply Script.Throughout.next _ _ trivial
  intro openNow
  split
  · exact .done _
  · apply Script.Throughout.next _ _ trivial
    rintro (e | taskId) <;> exact .done _

theorem again_spares (name reason : String) :
    (RemoveTool.again name reason).Throughout Spares := by
  apply Script.Throughout.next _ _ trivial
  intro since
  cases since with
  | none => exact file_spares name reason
  | some since => exact .next _ _ trivial fun now => .ite (.done _) (file_spares name reason)

theorem removeTool_spares (names : List String) (arguments : Arguments) :
    (RemoveTool.script names arguments).Throughout Spares := by
  apply Script.Throughout.ite (.done _)
  apply Script.Throughout.ite (.done _)
  apply Script.Throughout.ite (.done _)
  apply Script.Throughout.ite (.done _)
  apply Script.Throughout.next _ _ trivial
  intro switched
  cases switched with
  | true => exact .done _
  | false => exact again_spares _ _

theorem enableTool_spares (arguments : Arguments) :
    (EnableTool.script arguments).Throughout Spares := by
  apply Script.Throughout.ite (.done _)
  apply Script.Throughout.next _ _ trivial
  intro switched
  cases switched <;> exact .done _

theorem start_spares (names : List String) (call : Call)
    (h : ∀ arguments, call ≠ .abandonDevelopment arguments) : (call.start names).Spares := by
  cases call with
  | requestDevelopment arguments => exact requestDevelopment_spares arguments
  | workStatus arguments => exact workStatus_spares arguments
  | answerQuestion arguments => exact answerQuestion_spares arguments
  | abandonDevelopment arguments => exact absurd rfl (h arguments)
  | removeTool arguments => exact removeTool_spares names arguments
  | enableTool arguments => exact enableTool_spares arguments
  | session r => trivial

def Process.Drops (taskId : ℤ) (p : Process) : Prop :=
  ∃ note rest, p = .tool (.next (.abandon taskId note) rest) ∧
    ∀ answer, (rest answer).Throughout ClosedWork.Spares

theorem start_act (clock : Clock) (names : List String) (call : Call) (s : Stores) :
    (act clock (call.start names,s)).1.Spares ∨ ∃ taskId, (call.start names).looks = true ∧
      (∃ row ∈ openTasks s.tasks, (row.1 : ℤ) = taskId) ∧
      (act clock (call.start names,s)).1.Drops taskId := by
  by_cases hcall : ∀ arguments, call ≠ .abandonDevelopment arguments
  · exact .inl (act_spares clock _ s (start_spares names call hcall))
  push Not at hcall
  obtain ⟨arguments,rfl⟩ := hcall
  rw [Call.start, AbandonDevelopment.script]
  cases arguments.integer "number" with
  | error e => cases e <;> exact .inl (.done _)
  | ok taskId =>
    dsimp only [act, Script.advance, ToolStatement.perform]
    split
    · exact .inl (.done _)
    · rename_i hfound
      right
      refine ⟨taskId,rfl,by simpa using hfound,_,_,rfl,fun answer => ?_⟩
      rcases answer with e | _ | _ <;> exact .done _

theorem start_effect (names : List String) (call : Call) (htool : (call.start names).isTool = true)
    (taskId : ℤ) (note : String) : (call.start names).effect ≠ .abandoned taskId note := by
  by_cases hcall : ∀ arguments, call ≠ .abandonDevelopment arguments
  · exact spares_effect _ (start_spares names call hcall) htool taskId note
  push Not at hcall
  obtain ⟨arguments,rfl⟩ := hcall
  rw [Call.start, AbandonDevelopment.script]
  cases arguments.integer "number" with
  | error e => cases e <;> simp [Process.effect]
  | ok taskId => simp [Process.effect, toolEffect]

section
variable {ι : Type} [DecidableEq ι] (clock : Clock) (names : List String) (calls : ι → Call)
variable (s : Stores)

/-- How far a process has come: it has not begun, it can drop nothing any more, or
it found a task open and is about to drop it. -/
theorem course (schedule : List ι) (i : ι) :
    let w := after (step clock) schedule (opening names calls s)
    w.1 i = (calls i).start names ∨ (w.1 i).Spares ∨
      ∃ front between taskId, schedule = front ++ i::between ∧
        FindsOpen taskId (after (step clock) front (opening names calls s)) i ∧
        (w.1 i).Drops taskId := by
  induction schedule using List.reverseRecOn with
  | nil => exact .inl rfl
  | append_singleton schedule j ih =>
    dsimp only at ih ⊢
    rw [after_append, after_cons, after_nil]
    by_cases hij : i = j
    · subst hij
      have hself : (step clock (after (step clock) schedule (opening names calls s)) i).1 i =
          (act clock ((after (step clock) schedule (opening names calls s)).1 i,
            (after (step clock) schedule (opening names calls s)).2)).1 := Function.update_self ..
      rw [hself]
      right
      rcases ih with hstart | hspares | ⟨front,between,taskId,hschedule,hfinds,note,rest,hdrops,hrest⟩
      · rw [hstart]
        rcases start_act clock names (calls i) _ with hspares | ⟨taskId,hlooks,hopen,hdrops⟩
        · exact .inl hspares
        · right
          refine ⟨schedule,[],taskId,rfl,⟨?_,hopen⟩,hdrops⟩
          rw [hstart]
          exact hlooks
      · exact .inl (act_spares clock _ _ hspares)
      · left
        rw [hdrops]
        exact hrest _
    · have hother : (step clock (after (step clock) schedule (opening names calls s)) j).1 i =
          (after (step clock) schedule (opening names calls s)).1 i := Function.update_of_ne hij ..
      rw [hother]
      refine ih.imp id (Or.imp id ?_)
      rintro ⟨front,between,taskId,rfl,hfinds,hdrops⟩
      exact ⟨front,between ++ [j],taskId,by simp,hfinds,hdrops⟩

theorem dropping_found_open (schedule : List ι) (i : ι) (taskId : ℤ) (note : String)
    (htool : ((after (step clock) schedule (opening names calls s)).1 i).isTool = true)
    (heffect : ((after (step clock) schedule (opening names calls s)).1 i).effect =
      .abandoned taskId note) :
    ∃ front between, schedule = front ++ i::between ∧
      FindsOpen taskId (after (step clock) front (opening names calls s)) i := by
  rcases course clock names calls s schedule i with hstart | hspares |
    ⟨front,between,number,hschedule,hfinds,text,rest,hdrops,-⟩
  · rw [hstart] at htool heffect
    exact absurd heffect (start_effect names (calls i) htool taskId note)
  · exact absurd heffect (spares_effect _ hspares htool taskId note)
  · rw [hdrops] at heffect
    obtain ⟨rfl,-⟩ := Effect.abandoned.inj (Effect.bounded_some heffect (by simp))
    exact ⟨front,between,hschedule,hfinds⟩

/-- The statements of the tools leave closed work alone exactly when nothing
overtakes one that drops a task. -/
theorem closed_work_is_kept_iff (schedule : List ι) :
    KeepsClosedWork clock schedule (opening names calls s) ↔
      NothingOvertakes clock schedule (opening names calls s) := by
  constructor
  · intro hkeeps front i between back taskId note hschedule looking dropping hfinds htool heffect
      hleaves
    obtain ⟨id,task,rfl,hfind,hopen⟩ := step_looks clock looking i taskId hfinds
    obtain ⟨task',hfind'⟩ := Option.isSome_iff_exists.mp
      (find_after clock (step clock looking i) between id (by rw [hfind]; rfl))
    have hclosed := (leavesClosed_iff clock _ between id task hfind hopen).mp hleaves task' hfind'
    have hreached : after (step clock) (front ++ i::between) (opening names calls s) = dropping := by
      rw [after_append, after_cons]
    have hkept := hkeeps (front ++ i::between) i back (by simpa using hschedule)
    rw [hreached] at hkept
    exact ⟨id,task',rfl,hfind',(tool_keeps_iff clock dropping i htool id task' hfind' hclosed).mp
      (hkept htool id task' hfind' hclosed) note heffect⟩
  · intro hnothing front' i back hschedule htool id task hfind hclosed
    apply (tool_keeps_iff clock _ i htool id task hfind hclosed).mpr
    intro note heffect
    obtain ⟨front,between,rfl,hfinds⟩ :=
      dropping_found_open clock names calls s front' i id note htool heffect
    rw [after_append, after_cons] at htool hfind heffect ⊢
    obtain ⟨id',found,hid,hfound,hopen⟩ := step_looks clock _ i id hfinds
    obtain rfl := Int.ofNat_inj.mp hid
    have hleaves := (leavesClosed_iff clock _ between id' found hfound hopen).mpr fun task' htask' =>
      Option.some.inj (hfind.symm.trans htask') ▸ hclosed
    obtain ⟨same,task',hsame,hfind',hdropped⟩ := hnothing front i between back id' note
      (by simpa using hschedule) hfinds htool heffect hleaves
    obtain rfl := Int.ofNat_inj.mp hsame
    rwa [Option.some.inj (hfind.symm.trans hfind')]

end

def overtaken : Bool → Call
  | true => .abandonDevelopment [("number",⟨.integer 1,"1",.ok 1⟩)]
  | false => .session ⟨"finish 1 fatto",[]⟩

def oneJob : Stores :=
  (onTasks (fun n => n) .empty fun tasks now => create tasks "aggiungi i promemoria" now).2

theorem finished_job_is_dropped :
    ¬KeepsClosedWork (fun n => n) [true,false,false,true] (opening [] overtaken oneJob) := by
  intro hkeeps
  have hkept := hkeeps [true,false,false] true [] rfl rfl 1
    ⟨"aggiungi i promemoria",.deployed,.done,"fatto","",0,2⟩ (by decide) rfl
  revert hkept
  decide

end Emma.ClosedWork

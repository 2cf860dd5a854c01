import Emma.ToolStateTools

/-!
# Evidence for a removal

A run is a sequence of calls of the tools and of the developer's session, one
after the other, from empty tables. The row of a tool is the only record of
when it was turned off, so what the row says has to hold of the whole run. Jobs
are recognised by their opening sentence, which no call ever rewrites.
-/

set_option autoImplicit false

namespace Emma.RemovalEvidence
open Emma.Python Emma.LanguageModel Emma.Orchestrator Emma.Tasks Emma.ToolState
open Emma.DevelopmentTools Emma.ToolStateTools

inductive StoreCall where
  | removeTool (arguments : Arguments)
  | enableTool (arguments : Arguments)
  | requestDevelopment (arguments : Arguments)
  | workStatus (arguments : Arguments)
  | answerQuestion (arguments : Arguments)
  | abandonDevelopment (arguments : Arguments)
  | advance (taskId : ℤ) (stage note : String)
  | finish (taskId : ℤ) (note : String)
  | abandon (taskId : ℤ) (note : String)
  | touch

/-- The tables after a call; whether it raised does not matter to them. -/
def act (clock : Clock) (names : List String) (s : Stores) : StoreCall → Stores
  | .removeTool arguments => (RemoveTool.run clock names arguments s).2
  | .enableTool arguments => (EnableTool.run arguments s).2
  | .requestDevelopment arguments => (RequestDevelopment.run clock arguments s).2
  | .workStatus arguments => (WorkStatus.run clock arguments s).2
  | .answerQuestion arguments => (AnswerQuestion.run clock arguments s).2
  | .abandonDevelopment arguments => (AbandonDevelopment.run clock arguments s).2
  | .advance taskId stage note =>
    (onTasks clock s fun tasks now => Tasks.advance tasks taskId stage note now).2
  | .finish taskId note => (onTasks clock s fun tasks now => Tasks.finish tasks taskId note now).2
  | .abandon taskId note =>
    (onTasks clock s fun tasks now => Tasks.abandon tasks taskId note now).2
  | .touch => DevelopmentTools.touch clock s

structure StoreStep where
  call : StoreCall
  before : Stores
  after : Stores

def steps (clock : Clock) (names : List String) : List StoreCall → Stores → List StoreStep
  | [], _ => []
  | call::rest, s => ⟨call,s,act clock names s call⟩::
      steps clock names rest (act clock names s call)

def reached (clock : Clock) (names : List String) (calls : List StoreCall) (s : Stores) : Stores :=
  calls.foldl (act clock names) s

def SwitchesOff (x : String) (since : ℚ) (step : StoreStep) : Prop :=
  ∃ arguments, step.call = .removeTool arguments ∧ requestedName arguments = x ∧
    TurnedOff x since step.before step.after

def SwitchesOn (x : String) (step : StoreStep) : Prop :=
  ∃ arguments, step.call = .enableTool arguments ∧ requestedName arguments = x ∧
    x ∈ step.before.toolState.disabled ∧ x ∉ step.after.toolState.disabled

def Files (x : String) (now : ℚ) (id : ℕ) (step : StoreStep) : Prop :=
  ∃ arguments, step.call = .removeTool arguments ∧ requestedName arguments = x ∧
    id = step.before.tasks.seq+1 ∧
    ∃ task, step.after.tasks = step.before.tasks.insert task ∧ task.createdAt = now

def Readvances (step : StoreStep) : Prop :=
  ∃ taskId stage note, step.call = .advance taskId stage note ∧
    ∃ row ∈ step.before.tasks.rows, (row.1 : ℤ) = taskId ∧ isOpen row.2 = false

def OpenJob (id : ℕ) (s : Stores) : Prop := ∃ row ∈ s.tasks.rows, row.1 = id ∧ isOpen row.2 = true

theorem steps_calls (clock : Clock) (names : List String) (calls : List StoreCall) (s : Stores) :
    (steps clock names calls s).map StoreStep.call = calls := by
  induction calls generalizing s with
  | nil => rfl
  | cons call rest ih => rw [steps, List.map_cons, ih]

inductive SwitchEffect (call : StoreCall) (s s' : Stores) : Prop
  | same (h : s'.toolState = s.toolState)
  | off (arguments : Arguments) (hcall : call = .removeTool arguments) (since : ℚ)
      (h : TurnedOff (requestedName arguments) since s s')
  | on (arguments : Arguments) (hcall : call = .enableTool arguments)
      (h : s'.toolState = (s.toolState.enable (requestedName arguments)).2)

theorem act_switches (clock : Clock) (hclock : Monotone clock) (names : List String)
    (call : StoreCall) (s : Stores) : SwitchEffect call s (act clock names s call) := by
  cases call with
  | removeTool arguments =>
    rw [act]
    rcases (removeTool_effect clock hclock names arguments s).2 with
      hsame | hoff | ⟨since,now,-,-,-,hsame,-⟩
    · exact .same hsame.1
    · exact .off arguments rfl _ hoff
    · exact .same hsame
  | enableTool arguments =>
    rw [act]
    rcases enableTool_effect arguments s with hsame | hchanged
    · exact .same (congrArg Stores.toolState hsame)
    · exact .on arguments rfl (congrArg Stores.toolState hchanged)
  | requestDevelopment arguments =>
    rw [act]
    exact .same (requestDevelopment_toolState clock arguments s)
  | workStatus arguments =>
    rw [act]
    exact .same (workStatus_unmoved clock arguments s).1
  | answerQuestion arguments =>
    rw [act]
    exact .same (answerQuestion_effect clock arguments s fun _ => False).1
  | abandonDevelopment arguments =>
    rw [act]
    exact .same (abandonDevelopment_effect clock arguments s fun _ => False).1
  | advance taskId stage note =>
    rw [act]
    exact .same (onTasks_toolState _ _ _)
  | finish taskId note =>
    rw [act]
    exact .same (onTasks_toolState _ _ _)
  | abandon taskId note =>
    rw [act]
    exact .same (onTasks_toolState _ _ _)
  | touch =>
    rw [act]
    exact .same rfl

def Advances (call : StoreCall) (id : ℕ) : Prop :=
  ∃ taskId stage note, call = .advance taskId stage note ∧ (id : ℤ) = taskId

inductive QueueEffect (call : StoreCall) (s s' : Stores) : Prop
  | evolved (h : Evolves (Advances call) s.tasks s'.tasks)
  | created (task : Task) (h : s'.tasks = s.tasks.insert task)
      (hfiled : ∀ arguments, call = .removeTool arguments →
        RemoveTool.existingJob s.tasks (requestedName arguments) = none ∧
        startsWith task.request (removalRequest (requestedName arguments)) = true ∧
        ∃ since, s.toolState.disabledSince (requestedName arguments) = some since ∧
          since+minTimeOffSeconds ≤ task.createdAt)

theorem act_queue (clock : Clock) (hclock : Monotone clock) (names : List String)
    (call : StoreCall) (s : Stores) : QueueEffect call s (act clock names s call) := by
  cases call with
  | removeTool arguments =>
    rw [act]
    rcases (removeTool_effect clock hclock names arguments s).2 with
      hsame | ⟨-,-,hsame⟩ | ⟨since,now,hsince,hold,hnone,-,reason,htasks⟩
    · exact .evolved (evolves_unmoved _ hsame.2)
    · exact .evolved (evolves_unmoved _ hsame)
    · refine .created _ htasks fun other hother => ?_
      obtain rfl : arguments = other := by simpa using hother
      exact ⟨hnone,removalText_opens _ _,since,hsince,hold⟩
  | enableTool arguments =>
    rw [act]
    refine .evolved (evolves_unmoved _ ?_)
    rcases enableTool_effect arguments s with hsame | hchanged
    · rw [hsame]
    · rw [hchanged]
  | requestDevelopment arguments =>
    rw [act]
    rcases requestDevelopment_queue clock arguments s with hsame | ⟨task,htasks⟩
    · exact .evolved (evolves_unmoved _ hsame)
    · exact .created task htasks fun _ h => by cases h
  | workStatus arguments =>
    rw [act]
    exact .evolved (evolves_unmoved _ (workStatus_unmoved clock arguments s).2)
  | answerQuestion arguments =>
    rw [act]
    exact .evolved (answerQuestion_effect clock arguments s _).2
  | abandonDevelopment arguments =>
    rw [act]
    exact .evolved (abandonDevelopment_effect clock arguments s _).2
  | advance taskId stage note =>
    rw [act]
    refine .evolved (onTasks_evolves clock s _ _ fun _ _ hok => ?_)
    obtain ⟨hseq,hrows⟩ := advance_evolves hok
    refine ⟨hseq,fun row' hrow' => ?_⟩
    obtain ⟨row,hrow,hid,hrequest,hopen⟩ := hrows row' hrow'
    exact ⟨row,hrow,hid,hrequest,fun h => (hopen h).imp id fun h => ⟨taskId,stage,note,rfl,h⟩⟩
  | finish taskId note =>
    rw [act]
    exact .evolved (onTasks_evolves clock s _ _ fun _ _ hok => finish_evolves hok _)
  | abandon taskId note =>
    rw [act]
    exact .evolved (onTasks_evolves clock s _ _ fun _ _ hok => abandon_evolves hok _)
  | touch =>
    rw [act]
    exact .evolved (evolves_refl _ _)

def Evidenced (past : List StoreStep) (s : Stores) : Prop :=
  ∀ row ∈ s.toolState.rows, ∃ earlier off between, past = earlier ++ off::between ∧
    SwitchesOff row.name row.since off ∧
    ∀ other ∈ between, ¬SwitchesOn row.name other ∧ row.name ∈ other.after.toolState.disabled

theorem evidenced_step (clock : Clock) (hclock : Monotone clock) (names : List String)
    (call : StoreCall) (past : List StoreStep) (s : Stores) (h : Evidenced past s) :
    Evidenced (past ++ [⟨call,s,act clock names s call⟩]) (act clock names s call) := by
  have heffect := act_switches clock hclock names call s
  generalize act clock names s call = s' at heffect
  intro row hrow
  have hin : row.name ∈ s'.toolState.disabled := ToolStateTable.mem_disabled.mpr ⟨row,hrow,rfl⟩
  have hold : row ∈ s.toolState.rows → ∃ earlier off between,
      past ++ [⟨call,s,s'⟩] = earlier ++ off::between ∧ SwitchesOff row.name row.since off ∧
      ∀ other ∈ between, ¬SwitchesOn row.name other ∧
        row.name ∈ other.after.toolState.disabled := by
    intro hbefore
    obtain ⟨earlier,off,between,hpast,hoff,hbetween⟩ := h row hbefore
    refine ⟨earlier,off,between ++ [⟨call,s,s'⟩],by simp [hpast],hoff,fun other hother => ?_⟩
    rcases List.mem_append.mp hother with hother | hother
    · exact hbetween other hother
    · obtain rfl := List.mem_singleton.mp hother
      exact ⟨fun ⟨_,_,_,_,hgone⟩ => hgone hin,hin⟩
  cases heffect with
  | same hsame => exact hold (hsame ▸ hrow)
  | off arguments hcall since hturned =>
    obtain ⟨hon,⟨reason,hrows⟩,htasks⟩ := hturned
    rw [hrows] at hrow
    rcases List.mem_append.mp hrow with hbefore | hnew
    · exact hold hbefore
    · obtain rfl := List.mem_singleton.mp hnew
      exact ⟨past,⟨call,s,s'⟩,[],rfl,⟨arguments,hcall,rfl,hon,⟨reason,hrows⟩,htasks⟩,by simp⟩
  | on arguments hcall hchanged =>
    rw [hchanged, ToolStateTable.enable_rows] at hrow
    exact hold (List.mem_of_mem_filter hrow)

theorem evidenced_run (clock : Clock) (hclock : Monotone clock) (names : List String)
    (calls : List StoreCall) (past : List StoreStep) (s : Stores) (h : Evidenced past s)
    (front : List StoreStep) (step : StoreStep) (back : List StoreStep)
    (hsteps : steps clock names calls s = front ++ step::back) :
    Evidenced (past ++ front) step.before ∧
      ∃ call, step = ⟨call,step.before,act clock names step.before call⟩ := by
  induction calls generalizing past s front with
  | nil => simp [steps] at hsteps
  | cons call rest ih =>
    rw [steps] at hsteps
    cases front with
    | nil =>
      simp only [List.nil_append, List.cons.injEq] at hsteps
      rw [← hsteps.1]
      exact ⟨by simpa using h,call,rfl⟩
    | cons first front =>
      simp only [List.cons_append, List.cons.injEq] at hsteps
      have hnext := ih _ _ (evidenced_step clock hclock names call past s h) front hsteps.2
      rw [← hsteps.1]
      simpa using hnext

structure Distinct (past : List StoreStep) (s : Stores) : Prop where
  known : ∀ f ∈ past, ∀ x now id, Files x now id f → id ≤ s.tasks.seq ∧
    ∀ row ∈ s.tasks.rows, row.1 = id → startsWith row.2.request (removalRequest x) = true
  single : ∀ x, ∀ f ∈ past, ∀ g ∈ past, ∀ now id now' id', Files x now id f →
    Files x now' id' g → OpenJob id s → OpenJob id' s → id = id'

theorem mem_insert_rows {t : TaskTable} {task : Task} {row : ℕ × Task}
    (h : row ∈ (t.insert task).rows) : row ∈ t.rows ∨ row = (t.seq+1,task) := by
  simpa using h

/-- A job that is not advanced while closed is open only if it was. -/
theorem openJob_before {call : StoreCall} {s s' : Stores} {id : ℕ}
    (hevolves : Evolves (Advances call) s.tasks s'.tasks) (hkept : ¬Readvances ⟨call,s,s'⟩)
    (h : OpenJob id s') : OpenJob id s := by
  obtain ⟨row',hrow',rfl,hopen'⟩ := h
  obtain ⟨row,hrow,hid,-,hopen⟩ := hevolves.2 row' hrow'
  refine ⟨row,hrow,hid,?_⟩
  rcases hopen hopen' with hbefore | ⟨taskId,stage,note,hcall,hadvanced⟩
  · exact hbefore
  · by_contra hclosed
    exact hkept ⟨taskId,stage,note,hcall,row,hrow,hadvanced,by simpa using hclosed⟩

theorem existingJob_none {tasks : TaskTable} {name : String}
    (h : RemoveTool.existingJob tasks name = none) (row : ℕ × Task) (hrow : row ∈ tasks.rows)
    (hopen : isOpen row.2 = true) : startsWith row.2.request (removalRequest name) ≠ true := by
  have hnone := Option.map_eq_none_iff.mp h
  exact List.find?_eq_none.mp hnone row (List.mem_filter.mpr ⟨hrow,hopen⟩)

theorem distinct_evolved {call : StoreCall} {past : List StoreStep} {s s' : Stores}
    (h : Distinct past s) (hevolves : Evolves (Advances call) s.tasks s'.tasks)
    (hkept : ¬Readvances ⟨call,s,s'⟩) : Distinct (past ++ [⟨call,s,s'⟩]) s' := by
  have hnone : ∀ x now id, ¬Files x now id ⟨call,s,s'⟩ := by
    rintro x now id ⟨-,-,-,-,task,htasks,-⟩
    have hseq := hevolves.1
    dsimp only at htasks
    rw [htasks, RowTable.insert_seq] at hseq
    omega
  have hpast : ∀ f ∈ past ++ [⟨call,s,s'⟩], ∀ x now id, Files x now id f → f ∈ past := by
    intro f hf x now id hfiles
    rcases List.mem_append.mp hf with hf | hf
    · exact hf
    · obtain rfl := List.mem_singleton.mp hf
      exact absurd hfiles (hnone x now id)
  constructor
  · intro f hf x now id hfiles
    obtain ⟨hid,hrequest⟩ := h.known f (hpast f hf x now id hfiles) x now id hfiles
    refine ⟨hevolves.1 ▸ hid,fun row' hrow' hrowid => ?_⟩
    obtain ⟨row,hrow,hsame,htext,-⟩ := hevolves.2 row' hrow'
    rw [← htext]
    exact hrequest row hrow (hsame.trans hrowid)
  · intro x f hf g hg now id now' id' hfiles hfiles' ho ho'
    exact h.single x f (hpast f hf x now id hfiles) g (hpast g hg x now' id' hfiles') now id
      now' id' hfiles hfiles' (openJob_before hevolves hkept ho)
      (openJob_before hevolves hkept ho')

/-- A task that is created is no removal, or the only open one of its tool. -/
theorem distinct_created {call : StoreCall} {past : List StoreStep} {s s' : Stores}
    (h : Distinct past s) (task : Task) (htasks : s'.tasks = s.tasks.insert task)
    (hfiled : ∀ arguments, call = .removeTool arguments →
      RemoveTool.existingJob s.tasks (requestedName arguments) = none ∧
      startsWith task.request (removalRequest (requestedName arguments)) = true) :
    Distinct (past ++ [⟨call,s,s'⟩]) s' := by
  have hnew : ∀ x now id, Files x now id ⟨call,s,s'⟩ → id = s.tasks.seq+1 ∧
      RemoveTool.existingJob s.tasks x = none ∧
      startsWith task.request (removalRequest x) = true := by
    rintro x now id ⟨arguments,hcall,rfl,hid,-⟩
    exact ⟨hid,(hfiled arguments hcall).1,(hfiled arguments hcall).2⟩
  have hclosed : ∀ x now id, Files x now id ⟨call,s,s'⟩ → ∀ f ∈ past, ∀ now' id',
      Files x now' id' f → ¬OpenJob id' s' := by
    rintro x now id hfiles f hf now' id' hfiles' ⟨row,hrow,rfl,hopen⟩
    obtain ⟨hold,hrequest⟩ := h.known f hf x now' row.1 hfiles'
    rw [htasks] at hrow
    rcases mem_insert_rows hrow with hbefore | rfl
    · exact existingJob_none (hnew x now id hfiles).2.1 row hbefore hopen
        (hrequest row hbefore rfl)
    · omega
  have hopened : ∀ id, id ≤ s.tasks.seq → OpenJob id s' → OpenJob id s := by
    rintro id hid ⟨row,hrow,rfl,hopen⟩
    rw [htasks] at hrow
    rcases mem_insert_rows hrow with hbefore | rfl
    · exact ⟨row,hbefore,rfl,hopen⟩
    · omega
  constructor
  · intro f hf x now id hfiles
    rw [htasks, RowTable.insert_seq]
    rcases List.mem_append.mp hf with hf | hf
    · obtain ⟨hid,hrequest⟩ := h.known f hf x now id hfiles
      refine ⟨by omega,fun row hrow hrowid => ?_⟩
      rcases mem_insert_rows hrow with hbefore | rfl
      · exact hrequest row hbefore hrowid
      · simp only at hrowid
        omega
    · obtain rfl := List.mem_singleton.mp hf
      obtain ⟨hid,-,hopening⟩ := hnew x now id hfiles
      refine ⟨by omega,fun row hrow hrowid => ?_⟩
      rcases mem_insert_rows hrow with hbefore | rfl
      · have := s.tasks.bounded row hbefore
        omega
      · exact hopening
  · intro x f hf g hg now id now' id' hfiles hfiles' ho ho'
    rcases List.mem_append.mp hf with hf | hf <;> rcases List.mem_append.mp hg with hg | hg
    · exact h.single x f hf g hg now id now' id' hfiles hfiles'
        (hopened id (h.known f hf x now id hfiles).1 ho)
        (hopened id' (h.known g hg x now' id' hfiles').1 ho')
    · obtain rfl := List.mem_singleton.mp hg
      exact absurd ho (hclosed x now' id' hfiles' f hf now id hfiles)
    · obtain rfl := List.mem_singleton.mp hf
      exact absurd ho' (hclosed x now id hfiles g hg now' id' hfiles')
    · obtain rfl := List.mem_singleton.mp hf
      obtain rfl := List.mem_singleton.mp hg
      exact (hnew x now id hfiles).1.trans (hnew x now' id' hfiles').1.symm

theorem distinct_step (clock : Clock) (hclock : Monotone clock) (names : List String)
    (call : StoreCall) (past : List StoreStep) (s : Stores) (h : Distinct past s)
    (hkept : ¬Readvances ⟨call,s,act clock names s call⟩) :
    Distinct (past ++ [⟨call,s,act clock names s call⟩]) (act clock names s call) := by
  cases act_queue clock hclock names call s with
  | evolved hevolves => exact distinct_evolved h hevolves hkept
  | created task htasks hfiled =>
    apply distinct_created h task htasks
    intro arguments hcall
    obtain ⟨hnone,hopening,-⟩ := hfiled arguments hcall
    exact ⟨hnone,hopening⟩

theorem distinct_run (clock : Clock) (hclock : Monotone clock) (names : List String)
    (calls : List StoreCall) (past : List StoreStep) (s : Stores) (h : Distinct past s)
    (hkept : ∀ step ∈ steps clock names calls s, ¬Readvances step) :
    Distinct (past ++ steps clock names calls s) (reached clock names calls s) := by
  induction calls generalizing past s with
  | nil => simpa [steps, reached] using h
  | cons call rest ih =>
    rw [steps] at hkept
    have hnext := ih _ _ (distinct_step clock hclock names call past s h (hkept _ (by simp)))
      fun step hstep => hkept step (List.mem_cons_of_mem _ hstep)
    rw [List.append_assoc] at hnext
    exact hnext

/-- Filing a removal takes a row that is an hour old, inserted by a request of
this run, with the tool off ever since; and the jobs filed for one tool are
never open two at a time, as long as no closed job is advanced. -/
theorem removal_needs_evidence (clock : Clock) (hclock : Monotone clock) (names : List String)
    (calls : List StoreCall) :
    (∀ x now id front step back, steps clock names calls .empty = front ++ step::back →
      Files x now id step → ∃ earlier off between since, front = earlier ++ off::between ∧
        SwitchesOff x since off ∧ since+minTimeOffSeconds ≤ now ∧
        ∀ other ∈ between, ¬SwitchesOn x other ∧ x ∈ other.after.toolState.disabled) ∧
    ((∀ step ∈ steps clock names calls .empty, ¬Readvances step) →
      ∀ x, ∀ f ∈ steps clock names calls .empty, ∀ g ∈ steps clock names calls .empty,
        ∀ now id now' id', Files x now id f → Files x now' id' g →
          OpenJob id (reached clock names calls .empty) →
          OpenJob id' (reached clock names calls .empty) → id = id') := by
  constructor
  · rintro x now id front step back hsteps ⟨arguments,hcall,rfl,-,task,htasks,rfl⟩
    obtain ⟨hevidenced,call,hstep⟩ := evidenced_run clock hclock names calls [] .empty
      (fun row hrow => absurd hrow (List.not_mem_nil)) front step back hsteps
    have heffect := act_queue clock hclock names call step.before
    have hafter : step.after = act clock names step.before call := by rw [hstep]
    have hsame : step.call = call := by rw [hstep]
    rw [← hafter] at heffect
    cases heffect with
    | evolved hevolves =>
      have hseq := hevolves.1
      simp [htasks] at hseq
    | created task' htasks' hfiled =>
      have hinserted : step.before.tasks.rows ++ [(step.before.tasks.seq+1,task)] =
          step.before.tasks.rows ++ [(step.before.tasks.seq+1,task')] :=
        congrArg RowTable.rows (htasks.symm.trans htasks')
      obtain rfl : task = task' := by simpa using hinserted
      obtain ⟨-,-,since,hsince,hold⟩ := hfiled arguments (hsame ▸ hcall)
      obtain ⟨row,hrow,hname,rfl⟩ := ToolStateTable.disabledSince_eq_some hsince
      obtain ⟨earlier,off,between,hfront,hoff,hbetween⟩ := hevidenced row hrow
      rw [hname] at hoff hbetween
      exact ⟨earlier,off,between,row.since,by simpa using hfront,hoff,hold,hbetween⟩
  · intro hkept x f hf g hg now id now' id' hfiles hfiles' ho ho'
    have hdistinct := distinct_run clock hclock names calls [] .empty
      ⟨fun _ hf => by simp at hf,fun _ _ hf => by simp at hf⟩ hkept
    exact hdistinct.single x f hf g hg now id now' id' hfiles hfiles' ho ho'

def hourClock : Clock := fun n => 3600*n

theorem hourClock_monotone : Monotone hourClock := fun _ _ h =>
  mul_le_mul_of_nonneg_left (Nat.cast_le.mpr h) (by norm_num)

def clockArguments : Arguments :=
  [("name",⟨.string "current_time","current_time",.error (.valueError "")⟩)]

def patientCalls : List StoreCall := [.removeTool clockArguments,.removeTool clockArguments]

theorem patientCalls_file : ∃ off step now id,
    steps hourClock ["current_time","remove_tool"] patientCalls .empty = [off] ++ step::[] ∧
      Files "current_time" now id step := by
  refine ⟨_,_,hourClock 3,1,rfl,clockArguments,rfl,by decide,rfl,?_⟩
  generalize hfirst : act hourClock ["current_time","remove_tool"] .empty
    (.removeTool clockArguments) = first
  have hagain : act hourClock ["current_time","remove_tool"] first (.removeTool clockArguments) =
      (RemoveTool.again hourClock "current_time" "" first.ticked).2 := by
    rw [← hfirst]
    rfl
  have hsince : first.ticked.toolState.disabledSince "current_time" = some (hourClock 0) := by
    rw [← hfirst]
    rfl
  have hreadings : first.readings = 1 := by
    rw [← hfirst]
    rfl
  have hfree : RemoveTool.existingJob first.ticked.ticked.tasks "current_time" = none := by
    rw [← hfirst]
    rfl
  have hwaited : ¬hourClock first.ticked.readings-hourClock 0 < minTimeOffSeconds := by
    simp only [Stores.ticked, hreadings, hourClock, minTimeOffSeconds]
    norm_num
  dsimp only
  rw [hagain, RemoveTool.again, hsince]
  dsimp only
  rw [if_neg hwaited, RemoveTool.file, hfree]
  dsimp only
  simp only [onTasks, create_removal]
  refine ⟨removalTask "current_time" "" (hourClock 3),?_,rfl⟩
  simp only [Stores.ticked, hreadings]

theorem patientCalls_have_evidence : ∃ front step now id,
    steps hourClock ["current_time","remove_tool"] patientCalls .empty = front ++ step::[] ∧
    Files "current_time" now id step ∧
    (∃ earlier off between since, front = earlier ++ off::between ∧
      SwitchesOff "current_time" since off ∧ since+minTimeOffSeconds ≤ now ∧
      ∀ other ∈ between, ¬SwitchesOn "current_time" other ∧
        "current_time" ∈ other.after.toolState.disabled) ∧
    ∀ x, ∀ f ∈ front ++ step::[], ∀ g ∈ front ++ step::[], ∀ now id now' id',
      Files x now id f → Files x now' id' g →
        OpenJob id (reached hourClock ["current_time","remove_tool"] patientCalls .empty) →
        OpenJob id' (reached hourClock ["current_time","remove_tool"] patientCalls .empty) →
        id = id' := by
  obtain ⟨off,step,now,id,hsteps,hfiles⟩ := patientCalls_file
  obtain ⟨hevidence,hsingle⟩ := removal_needs_evidence hourClock hourClock_monotone
    ["current_time","remove_tool"] patientCalls
  refine ⟨[off],step,now,id,hsteps,hfiles,?_,hsteps ▸ hsingle ?_⟩
  · exact hevidence "current_time" now id [off] step [] hsteps hfiles
  · rintro step hstep ⟨taskId,stage,note,hcall,-⟩
    have hcalls : step.call ∈ patientCalls := by
      rw [← steps_calls hourClock ["current_time","remove_tool"] patientCalls .empty]
      exact List.mem_map_of_mem hstep
    simp [patientCalls, hcall] at hcalls

end Emma.RemovalEvidence

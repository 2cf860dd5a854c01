import Emma.QueueMoves

/-!
# One stage at a time, and an answer in between

An advance is accepted with any stage, on a task in any state. Stage and answer
of the task tell whether it comes one stage further, and whether the question
before was answered.
-/

set_option autoImplicit false

namespace Emma.Checkpoints
open Emma.Python Emma.Tasks Emma.DevelopmentTools Emma.QueueMoves Runs

/-- The place of a stage in `STAGE_ORDER`. -/
def rank (stage : Stage) : ℕ := (stageOrder.map Prod.snd).idxOf stage

def Advances (clock : Clock) (id : ℕ) (s : Stores) (op : Operation) : Prop :=
  (∃ stage note, op = .advance id stage note) ∧ (op.perform clock s).1 = .ok true

/-- A successful `record_answer` for the task. -/
def Answers (clock : Clock) (id : ℕ) (s : Stores) (op : Operation) : Prop :=
  (∃ answer, op = .recordAnswer id answer) ∧ (op.perform clock s).1 = .ok true

/-- Every successful advance takes its task one step along the order, and
between two of one task its question is answered. -/
structure Disciplined (clock : Clock) (ops : List Operation) (s : Stores) : Prop where
  oneStep : Throughout (Operation.step clock) (fun s op => ∀ id, Advances clock id s op →
    ∃ task task', s.tasks.find id = some task ∧
      (op.step clock s).tasks.find id = some task' ∧ rank task'.stage = rank task.stage+1) ops s
  answered : ∀ id front first between second back,
    ops = front ++ first::(between ++ second::back) →
    Advances clock id (after (Operation.step clock) front s) first →
    Advances clock id (after (Operation.step clock) (front ++ first::between) s) second →
    ∃ early answer late, between = early ++ answer::late ∧
      Answers clock id (after (Operation.step clock) (front ++ first::early) s) answer

/-- The number and the stage an advance names, where both are acceptable. -/
def named (op : Operation) : Option (ℤ × Stage) :=
  match op.effect with
  | .asked taskId stage _ => some (taskId,stage)
  | _ => none

/-- A task that exists is only advanced to the stage behind its own, and only
while nobody asked anything yet or the answer is there. -/
def Timely (s : Stores) (op : Operation) : Prop :=
  ∀ (id : ℕ) stage task, named op = some ((id : ℤ),stage) → s.tasks.find id = some task →
    rank stage = rank task.stage+1 ∧ (task.stage = .new ∨ task.answer ≠ "")

theorem advances_iff (clock : Clock) (id : ℕ) (s : Stores) (op : Operation) :
    Advances clock id s op ↔
      ∃ stage task, named op = some ((id : ℤ),stage) ∧ s.tasks.find id = some task := by
  constructor
  · rintro ⟨⟨stage,note,rfl⟩,hok⟩
    rw [Operation.advance_ok] at hok
    rcases Operation.advance_effect id stage note with hnone | ⟨next,hasked⟩
    · simp [hnone, Effect.edit, Edit.lands] at hok
    · rw [hasked] at hok
      obtain ⟨found,task,hfind,hid,-⟩ := (Edit.lands_rewrite _ _ _ _).mp hok
      obtain rfl : found = id := by omega
      exact ⟨next,task,by rw [named, hasked],hfind⟩
  · rintro ⟨next,task,hnamed,hfind⟩
    rw [named] at hnamed
    split at hnamed
    · rename_i taskId stage note hasked
      obtain ⟨rfl,rfl⟩ := Prod.mk.inj (Option.some.inj hnamed)
      obtain ⟨name,text,rfl⟩ := op.effect_asked _ _ _ hasked
      refine ⟨⟨name,text,rfl⟩,?_⟩
      rw [Operation.advance_ok, hasked]
      exact (Edit.lands_rewrite _ _ _ _).mpr ⟨id,task,hfind,rfl,rfl⟩
    · cases hnamed

theorem answers_iff (clock : Clock) (id : ℕ) (s : Stores) (op : Operation) :
    Answers clock id s op ↔ ∃ answer task, op.effect = .answered id answer ∧
      s.tasks.find id = some task ∧ task.status = .waitingUser := by
  constructor
  · rintro ⟨⟨answer,rfl⟩,hok⟩
    rw [Operation.recordAnswer_ok] at hok
    rcases Operation.recordAnswer_effect id answer with hnone | hanswered
    · simp [hnone, Effect.edit, Edit.lands] at hok
    · rw [hanswered] at hok
      obtain ⟨found,task,hfind,hid,hwaiting⟩ := (Edit.lands_rewrite _ _ _ _).mp hok
      obtain rfl : found = id := by omega
      exact ⟨_,task,hanswered,hfind,by simpa using hwaiting⟩
  · rintro ⟨answer,task,hanswered,hfind,hwaiting⟩
    obtain ⟨⟨text,rfl⟩,-⟩ := op.effect_answered _ _ hanswered
    refine ⟨⟨text,rfl⟩,?_⟩
    rw [Operation.recordAnswer_ok, hanswered]
    exact (Edit.lands_rewrite _ _ _ _).mpr ⟨id,task,hfind,rfl,by simpa using hwaiting⟩

inductive Moved (task task' : Task) (advances answers : Prop) (stage? : Option (ℤ × Stage)) : Prop
  | advanced (h : advances) (answer : task'.answer = "")
      (stage : ∀ taskId stage, stage? = some (taskId,stage) → task'.stage = stage)
  | answered (h : answers) (answer : task'.answer ≠ "") (stage : task'.stage = task.stage)
  | neither (h : ¬advances) (h' : ¬answers) (answer : task'.answer = task.answer)
      (stage : task'.stage = task.stage ∨ task'.stage = .deployed)

theorem onTask_moved (clock : Clock) (s : Stores) (op : Operation) (id : ℕ) (task : Task)
    (hfind : s.tasks.find id = some task) :
    Moved task ((op.effect.edit (clock s.readings)).onTask id task) (Advances clock id s op)
      (Answers clock id s op) (named op) := by
  have hmet := op.effect.met (clock s.readings) id task
  have hgiven := op.effect_answered id
  rw [advances_iff, answers_iff, named]
  generalize (op.effect.edit (clock s.readings)).onTask id task = task' at hmet ⊢
  generalize op.effect = e at hmet hgiven ⊢
  cases hmet with
  | answered answer hwaiting =>
    exact .answered ⟨answer,task,rfl,hfind,hwaiting⟩ (hgiven answer rfl).2 rfl
  | asked stage note =>
    apply Moved.advanced ⟨stage,task,rfl,hfind⟩ rfl
    intro taskId next hnamed
    exact (Prod.mk.inj (Option.some.inj hnamed)).2
  | finished note => exact .neither (by simp) (by simp) rfl (.inr rfl)
  | abandoned note => exact .neither (by simp) (by simp) rfl (.inl rfl)
  | missed _ hasked hanswered =>
    apply Moved.neither _ _ rfl (.inl rfl)
    · rintro ⟨stage,found,hnamed,-⟩
      split at hnamed
      · obtain ⟨rfl,-⟩ := Prod.mk.inj (Option.some.inj hnamed)
        exact hasked _ _ rfl
      · cases hnamed
    · rintro ⟨answer,found,hsame,hfound,hwaiting⟩
      rw [hfind] at hfound
      obtain rfl := Option.some.inj hfound
      exact hanswered answer hsame hwaiting

/-- Where a task comes from: it was there, or it is new and untouched. -/
theorem find_step_cases (clock : Clock) (s : Stores) (op : Operation) (id : ℕ) (task' : Task)
    (h : (op.step clock s).tasks.find id = some task') :
    (∃ task, s.tasks.find id = some task ∧
      Moved task task' (Advances clock id s op) (Answers clock id s op) (named op)) ∨
    task'.stage = .new ∧ task'.answer = "" := by
  rw [Operation.step_tasks] at h
  rcases Edit.find_apply_cases _ _ id task' h with ⟨task,hfind,rfl⟩ | ⟨-,hnew⟩
  · exact .inl ⟨task,hfind,onTask_moved clock s op id task hfind⟩
  · obtain ⟨request,-,rfl⟩ := Effect.edit_insert _ _ _ hnew
    exact .inr ⟨rfl,rfl⟩

theorem step_moved (clock : Clock) (s : Stores) (op : Operation) (id : ℕ) (task : Task)
    (hfind : s.tasks.find id = some task) :
    ∃ task', (op.step clock s).tasks.find id = some task' ∧
      Moved task task' (Advances clock id s op) (Answers clock id s op) (named op) := by
  refine ⟨_,?_,onTask_moved clock s op id task hfind⟩
  rw [Operation.step_tasks]
  exact Edit.find_apply _ _ id task hfind

theorem advances_stage (clock : Clock) (s : Stores) (op : Operation) (id : ℕ)
    (h : Advances clock id s op) : ∃ stage task task', named op = some ((id : ℤ),stage) ∧
      s.tasks.find id = some task ∧ (op.step clock s).tasks.find id = some task' ∧
      task'.stage = stage ∧ task'.answer = "" := by
  obtain ⟨stage,task,hnamed,hfind⟩ := (advances_iff clock id s op).mp h
  obtain ⟨task',hfind',hmoved⟩ := step_moved clock s op id task hfind
  have hno : ¬Answers clock id s op := by
    rw [answers_iff]
    rintro ⟨answer,-,hanswered,-⟩
    rw [named, hanswered] at hnamed
    cases hnamed
  cases hmoved with
  | advanced _ hanswer hstage =>
    exact ⟨stage,task,task',hnamed,hfind,hfind',hstage _ _ hnamed,hanswer⟩
  | answered hyes => exact absurd hyes hno
  | neither hnot => exact absurd h hnot

/-- Advances take their tasks one step along the order exactly when they name the
stage behind the one the task has. -/
theorem one_step_iff (clock : Clock) (s : Stores) (op : Operation) :
    (∀ id, Advances clock id s op → ∃ task task', s.tasks.find id = some task ∧
      (op.step clock s).tasks.find id = some task' ∧ rank task'.stage = rank task.stage+1) ↔
    ∀ (id : ℕ) stage task, named op = some ((id : ℤ),stage) → s.tasks.find id = some task →
      rank stage = rank task.stage+1 := by
  constructor
  · intro hstep id stage task hnamed hfind
    have hadvances := (advances_iff clock id s op).mpr ⟨stage,task,hnamed,hfind⟩
    obtain ⟨found,task',hfound,hfind',hone⟩ := hstep id hadvances
    obtain ⟨stage',-,after',hnamed',-,hafter',rfl,-⟩ := advances_stage clock s op id hadvances
    rw [hfind] at hfound
    rw [hfind'] at hafter'
    rw [hnamed] at hnamed'
    obtain rfl := Option.some.inj hfound
    obtain rfl := Option.some.inj hafter'
    obtain ⟨-,rfl⟩ := Prod.mk.inj (Option.some.inj hnamed')
    exact hone
  · intro hnext id hadvances
    obtain ⟨stage,task,task',hnamed,hfind,hfind',rfl,-⟩ := advances_stage clock s op id hadvances
    exact ⟨task,task',hfind,hfind',hnext id _ task hnamed hfind⟩

theorem answers_given (clock : Clock) (s : Stores) (op : Operation) (id : ℕ)
    (h : Answers clock id s op) :
    ∃ task', (op.step clock s).tasks.find id = some task' ∧ task'.answer ≠ "" := by
  obtain ⟨answer,task,hanswered,hfind,-⟩ := (answers_iff clock id s op).mp h
  obtain ⟨task',hfind',hmoved⟩ := step_moved clock s op id task hfind
  cases hmoved with
  | advanced hyes =>
    obtain ⟨stage,-,hnamed,-⟩ := (advances_iff clock id s op).mp hyes
    rw [named, hanswered] at hnamed
    cases hnamed
  | answered _ hsome => exact ⟨task',hfind',hsome⟩
  | neither _ hnot => exact absurd h hnot

/-- A task nobody advanced is new, unless it was finished outright. -/
theorem never_advanced (clock : Clock) (ops : List Operation) (s : Stores) (id : ℕ)
    (hempty : s.tasks = ∅)
    (hnone : Throughout (Operation.step clock) (fun s op => ¬Advances clock id s op) ops s) :
    ∀ task, (after (Operation.step clock) ops s).tasks.find id = some task →
      task.stage = .new ∨ task.stage = .deployed := by
  apply hnone.keeps fun s => ∀ task, s.tasks.find id = some task →
    task.stage = .new ∨ task.stage = .deployed
  · intro s op hs hnot task' hfind'
    rcases find_step_cases clock s op id task' hfind' with ⟨task,hfind,hmoved⟩ | ⟨hnew,-⟩
    · cases hmoved with
      | advanced hyes => exact absurd hyes hnot
      | answered _ _ hstage => exact hstage ▸ hs task hfind
      | neither _ _ _ hstage =>
        rcases hstage with hstage | hstage
        · exact hstage ▸ hs task hfind
        · exact .inr hstage
    · exact .inl hnew
  · intro task hfind
    rw [hempty] at hfind
    cases hfind

theorem answer_stays (clock : Clock) (ops : List Operation) (s : Stores) (id : ℕ) (task : Task)
    (hfind : s.tasks.find id = some task) (hanswer : task.answer ≠ "")
    (hnone : Throughout (Operation.step clock) (fun s op => ¬Advances clock id s op) ops s) :
    ∃ task', (after (Operation.step clock) ops s).tasks.find id = some task' ∧
      task'.answer ≠ "" := by
  apply hnone.keeps (fun s => ∃ task', s.tasks.find id = some task' ∧ task'.answer ≠ "") _
    ⟨task,hfind,hanswer⟩
  rintro s op ⟨found,hfound,hgiven⟩ hnot
  obtain ⟨task',hfind',hmoved⟩ := step_moved clock s op id found hfound
  refine ⟨task',hfind',?_⟩
  cases hmoved with
  | advanced hyes => exact absurd hyes hnot
  | answered _ hsome => exact hsome
  | neither _ _ hsame => rwa [hsame]

theorem question_stays (clock : Clock) (ops : List Operation) (s : Stores) (id : ℕ) (task : Task)
    (hfind : s.tasks.find id = some task) (hstage : task.stage ≠ .new) (hanswer : task.answer = "")
    (htimely : Throughout (Operation.step clock) Timely ops s)
    (hnone : Throughout (Operation.step clock) (fun s op => ¬Answers clock id s op) ops s) :
    ∃ task', (after (Operation.step clock) ops s).tasks.find id = some task' ∧
      task'.stage ≠ .new ∧ task'.answer = "" := by
  apply (htimely.and hnone).keeps (fun s => ∃ task', s.tasks.find id = some task' ∧
    task'.stage ≠ .new ∧ task'.answer = "") _ ⟨task,hfind,hstage,hanswer⟩
  rintro s op ⟨found,hfound,hasked,hopen⟩ ⟨htime,hnot⟩
  obtain ⟨task',hfind',hmoved⟩ := step_moved clock s op id found hfound
  refine ⟨task',hfind',?_⟩
  cases hmoved with
  | advanced hyes =>
    obtain ⟨stage,found',hnamed,hfound'⟩ := (advances_iff clock id s op).mp hyes
    rw [hfound] at hfound'
    obtain rfl := Option.some.inj hfound'
    rcases (htime id stage found hnamed hfound).2 with hnew | hgiven
    · exact absurd hnew hasked
    · exact absurd hopen hgiven
  | answered hyes => exact absurd hyes hnot
  | neither _ _ hsame hkept =>
    constructor
    · rcases hkept with hkept | hkept <;> rw [hkept]
      · exact hasked
      · decide
    · rw [hsame, hopen]

def cleared (s : Stores) : Stores := { s with tasks := ∅ }

/-- The advance behind a disciplined run finds a new task or an answered one. -/
theorem settled_before (clock : Clock) (front : List Operation) (op : Operation)
    (back : List Operation) (s : Stores) (id : ℕ) (task : Task) (hempty : s.tasks = ∅)
    (h : Disciplined clock (front ++ op::back) s)
    (hadvances : Advances clock id (after (Operation.step clock) front s) op)
    (hfind : (after (Operation.step clock) front s).tasks.find id = some task)
    (hstage : task.stage ≠ .deployed) : task.stage = .new ∨ task.answer ≠ "" := by
  -- the last advance of the task before this one, if there is one
  rcases last_or_none (Advances clock id) front s with
    hnone | ⟨early,first,between,rfl,hfirst,hnone⟩
  · rcases never_advanced clock front s id hempty hnone task hfind with hnew | hdeployed
    · exact .inl hnew
    · exact absurd hdeployed hstage
  · right
    obtain ⟨before,answer,late,rfl,hanswer⟩ :=
      h.answered id early first between op back (by simp) hfirst hadvances
    obtain ⟨given,hgiven,hsome⟩ := answers_given clock _ answer id hanswer
    rw [throughout_append, throughout_cons] at hnone
    rw [after_append, after_cons] at hgiven
    obtain ⟨task',hfind',hkept⟩ := answer_stays clock late _ id given hgiven hsome hnone.2.2
    rw [after_append, after_cons, after_append, after_cons, hfind'] at hfind
    rwa [← Option.some.inj hfind]

theorem timely_of_disciplined (clock : Clock) (ops : List Operation) (s : Stores)
    (hempty : s.tasks = ∅) (h : Disciplined clock ops s) :
    Throughout (Operation.step clock) Timely ops s := by
  rintro front op back rfl id stage task hnamed hfind
  have hadvances : Advances clock id (after (Operation.step clock) front s) op :=
    (advances_iff clock id _ op).mpr ⟨stage,task,hnamed,hfind⟩
  have hrank := (one_step_iff clock _ op).mp (h.oneStep front op back rfl) id stage task hnamed
    hfind
  refine ⟨hrank,settled_before clock front op back s id task hempty h hadvances hfind ?_⟩
  intro hdeployed
  have hlast : rank stage ≤ 5 := by cases stage <;> decide
  have hdeployedRank : rank .deployed = 5 := by decide
  rw [hdeployed] at hrank
  omega

/-- Between two timely advances of a task its question is answered. -/
theorem answered_between (clock : Clock) (s : Stores) (id : ℕ) (first second : Operation)
    (between : List Operation)
    (htimely : Throughout (Operation.step clock) Timely (first::(between ++ [second])) s)
    (hfirst : Advances clock id s first)
    (hsecond : Advances clock id (after (Operation.step clock) between
      (first.step clock s)) second) :
    ∃ early answer late, between = early ++ answer::late ∧
      Answers clock id (after (Operation.step clock) early (first.step clock s)) answer := by
  apply meets_one
  intro hnone
  rw [throughout_cons, throughout_append, throughout_cons] at htimely
  obtain ⟨hfirstTimely,hbetween,hsecondTimely,-⟩ := htimely
  obtain ⟨stage,task,task',hnamed,hfind,hfind',rfl,hasked⟩ :=
    advances_stage clock _ first id hfirst
  have hrank := (hfirstTimely id _ task hnamed hfind).1
  have hnew : task'.stage ≠ .new := by
    intro hnew
    have hnewRank : rank .new = 0 := by decide
    rw [hnew] at hrank
    omega
  obtain ⟨open',hopen,hstill,hblank⟩ :=
    question_stays clock between _ id task' hfind' hnew hasked hbetween hnone
  obtain ⟨stage',found,hnamed',hfound⟩ := (advances_iff clock id _ second).mp hsecond
  rw [hopen] at hfound
  obtain rfl := Option.some.inj hfound
  rcases (hsecondTimely id stage' open' hnamed' hopen).2 with h | h
  · exact hstill h
  · exact h hblank

theorem disciplined_of_timely (clock : Clock) (ops : List Operation) (s : Stores)
    (h : Throughout (Operation.step clock) Timely ops s) : Disciplined clock ops s := by
  constructor
  · intro front op back hops
    apply (one_step_iff clock _ op).mpr
    exact fun id stage task hnamed hfind => (h front op back hops id stage task hnamed hfind).1
  · rintro id front first between second back rfl hfirst hsecond
    have hpart : front ++ first::(between ++ second::back) =
        front ++ (first::(between ++ [second]) ++ back) := by simp
    rw [hpart, throughout_append, throughout_append] at h
    rw [after_append, after_cons] at hsecond
    obtain ⟨early,answer,late,hbetween,hanswer⟩ :=
      answered_between clock _ id first second between h.2.1 hfirst hsecond
    refine ⟨early,answer,late,hbetween,?_⟩
    rwa [after_append, after_cons]

/-- On a queue that began empty, advances go stage by stage with an answer in
between exactly when each of them is timely. -/
theorem disciplined_iff (clock : Clock) (ops : List Operation) (s : Stores) :
    Disciplined clock ops (cleared s) ↔
      Throughout (Operation.step clock) Timely ops (cleared s) := by
  constructor
  · exact timely_of_disciplined clock ops (cleared s) rfl
  · exact disciplined_of_timely clock ops (cleared s)

def hasty : List Operation :=
  [.create "aggiungi i promemoria",.advance 1 "understood" "Procedo?",
    .advance 1 "committed" "Pusho?"]

theorem question_is_replaced_unanswered : ¬Disciplined (fun n => n) hasty (cleared .empty) := by
  intro hdisciplined
  obtain ⟨task,task',hfind,hfind',hone⟩ :=
    hdisciplined.oneStep (hasty.take 2) (.advance 1 "committed" "Pusho?") [] rfl 1
      ⟨⟨"committed","Pusho?",rfl⟩,by decide⟩
  have hstage : ((after (Operation.step fun n => n) (hasty.take 2) (cleared .empty)).tasks.find
      1).map Task.stage = some .understood := by decide
  have hstage' : (((Operation.advance 1 "committed" "Pusho?").step (fun n => n)
      (after (Operation.step fun n => n) (hasty.take 2) (cleared .empty))).tasks.find 1).map
        Task.stage = some .committed := by decide
  rw [hfind] at hstage
  rw [hfind'] at hstage'
  rw [Option.some.inj hstage, Option.some.inj hstage'] at hone
  revert hone
  decide

end Emma.Checkpoints

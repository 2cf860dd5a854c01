import Emma.ContextReading
import Emma.QueueMoves

/-!
# Whether the user answers the question that was read

A question reaches the user through `work_status` alone, and an answer names a
task and no question. Beside the queue goes what was shown last for each task,
and what the developer read as queued.
-/

set_option autoImplicit false

namespace Emma.ReadQuestions
open Emma.Python Emma.LanguageModel Emma.Tasks Emma.DevelopmentTools Emma.ContextReading
open Emma.QueueMoves Runs

/-- The question that `work_status` puts before the user for a task. -/
def question (t : TaskTable) (id : ℕ) : Option String :=
  (t.find id).bind fun task =>
    if task.status = .waitingUser ∧ task.note ≠ "" then some task.note else none

structure Dialogue where
  stores : Stores
  shown : ℕ → Option String
  unread : ℕ → Bool
  listed : List ℕ

namespace Dialogue

def unreadAfter (d : Dialogue) (e : Effect) (id : ℕ) : Bool :=
  match e with
  | .asked taskId _ note => if (id : ℤ) = taskId then d.shown id ≠ some note else d.unread id
  | _ => d.unread id

def listedAfter (d : Dialogue) (e : Effect) : List ℕ :=
  match e with
  | .asked taskId _ _ => d.listed.filter fun id => (id : ℤ) ≠ taskId
  | _ => d.listed

theorem unreadAfter_asked (d : Dialogue) (id : ℕ) (stage : Stage) (note : String) :
    d.unreadAfter (.asked id stage note) id = decide (d.shown id ≠ some note) := by
  simp [unreadAfter]

theorem unreadAfter_other (d : Dialogue) (e : Effect) (id : ℕ)
    (h : ∀ stage note, e ≠ .asked id stage note) : d.unreadAfter e id = d.unread id := by
  cases e with
  | asked taskId stage note =>
    have hid : (id : ℤ) ≠ taskId := by
      rintro rfl
      exact h stage note rfl
    rw [unreadAfter, if_neg hid]
  | _ => rfl

end Dialogue

def opened (s : Stores) : Dialogue := ⟨s,fun _ => none,fun _ => true,[]⟩

inductive Event where
  | workStatus (arguments : Arguments)
  | answerQuestion (arguments : Arguments)
  | list
  | move (move : Move)

def listing : QueueScript.Request := ⟨"list",[]⟩

def numbersOf : Except String QueueScript.Printed → List ℕ
  | .ok (.listing rows) => rows.map Prod.fst
  | _ => []

def step (clock : Clock) (d : Dialogue) : Event → Dialogue
  | .workStatus arguments =>
    { d with
      stores := (WorkStatus.run clock arguments d.stores).2
      shown := fun id => (question d.stores.tasks id).or (d.shown id)
      unread := fun id => d.unread id && (question d.stores.tasks id).isNone }
  | .answerQuestion arguments =>
    { d with stores := (AnswerQuestion.run clock arguments d.stores).2 }
  | .list =>
    { d with
      stores := (QueueScript.run clock listing d.stores).2
      listed := numbersOf (QueueScript.run clock listing d.stores).1 }
  | .move m =>
    { d with
      stores := m.perform clock d.stores
      unread := d.unreadAfter m.effect
      listed := d.listedAfter m.effect }

def orderly (d : Dialogue) : Event → Bool
  | .move m => match m.effect with
    | .asked taskId _ _ => d.listed.any fun id => (id : ℤ) = taskId
    | _ => true
  | _ => true

/-- `answer_question` says that it recorded the answer on the task. -/
def Recorded (clock : Clock) (arguments : Arguments) (s : Stores) (id : ℕ) : Prop :=
  arguments.integer "number" = .ok (id : ℤ) ∧ (AnswerQuestion.run clock arguments s).1 =
    .ok ("Risposta registrata sul lavoro #" ++ toString (id : ℤ) ++ ".")

/-- Every recorded answer meets the question that was shown last. -/
def AnswersWhatWasRead (clock : Clock) (events : List Event) (d : Dialogue) : Prop :=
  Throughout (step clock) (fun d event => ∀ arguments id task,
    event = .answerQuestion arguments → Recorded clock arguments d.stores id →
      d.stores.tasks.find id = some task → d.shown id = some task.note) events d

/-- An answer that says something comes for a waiting task only once its
question was read. -/
def ReadFirst (d : Dialogue) (event : Event) : Prop :=
  ∀ arguments (id : ℕ) task, event = .answerQuestion arguments →
    arguments.integer "number" = .ok (id : ℤ) → (bound id).isOk = true →
    strip (arguments.text "answer") ≠ "" → d.stores.tasks.find id = some task →
    task.status = .waitingUser → d.unread id = false

/-- The tool tells number and question of every task that has one. -/
theorem workStatus_tells (clock : Clock) (arguments : Arguments) (s : Stores) (id : ℕ)
    (note : String) (h : question s.tasks id = some note) :
    ∃ text, (WorkStatus.run clock arguments s).1 = .ok text ∧
      ("#" ++ toString id ++ " ATTENDE UNA RISPOSTA DELL'UTENTE.\n" ++
        "   Domanda da riferire per intero: " ++ note).toList <:+: text.toList := by
  obtain ⟨task,hfind,hsome⟩ := Option.bind_eq_some_iff.mp h
  split at hsome
  · rename_i hasks
    obtain rfl := Option.some.inj hsome
    have hopen : (id,task) ∈ openTasks s.tasks :=
      List.mem_filter.mpr ⟨(s.tasks.find_iff id task).mp hfind,by simp [isOpen, hasks.1]⟩
    unfold WorkStatus.run
    split
    · rename_i hnone
      rw [hnone] at hopen
      cases hopen
    · refine ⟨_,rfl,?_⟩
      refine List.IsInfix.trans ?told (infix_join _ _ (WorkStatus.describe (id,task)) ?line)
      case line =>
        exact List.mem_append_left _ (List.mem_append_right _ (List.mem_map_of_mem hopen))
      rw [WorkStatus.describe, if_pos hasks]
      refine ⟨[],("\n" ++ "   (la richiesta originale era: " ++ shorten task.request 90 ++
        ")").toList,?_⟩
      rw [List.nil_append, ← String.toList_append]
      simp only [String.append_assoc]
  · cases hsome

theorem answerQuestion_error (clock : Clock) (arguments : Arguments) (s : Stores) (e : PyError)
    (h : arguments.integer "number" = .error e) : (AnswerQuestion.run clock arguments s).2 = s := by
  unfold AnswerQuestion.run
  rw [h]
  split <;> simp_all

theorem answerQuestion_ok (clock : Clock) (arguments : Arguments) (s : Stores) (taskId : ℤ)
    (h : arguments.integer "number" = .ok taskId) :
    (AnswerQuestion.run clock arguments s).2 =
        (Operation.recordAnswer taskId (arguments.text "answer")).step clock s ∧
      ((AnswerQuestion.run clock arguments s).1 =
          .ok ("Risposta registrata sul lavoro #" ++ toString taskId ++ ".") ↔
        ((Operation.recordAnswer taskId (arguments.text "answer")).perform clock s).1 =
          .ok true) := by
  unfold AnswerQuestion.run Operation.step Operation.perform
  rw [h]
  dsimp only
  split <;> rename_i hdone <;> rw [hdone]
  · simp
  · simp
  · refine ⟨rfl,?_⟩
    constructor
    · intro hsame
      have hfirst : ("Risposta registrata sul lavoro #" ++ toString taskId ++ ".").toList.head? =
          some 'R' := by
        apply first_append
        apply first_append
        rfl
      have hother : ("Il lavoro #" ++ toString taskId ++
          " non esiste o non ha una domanda in attesa. Non ho registrato nulla.").toList.head? =
          some 'I' := by
        apply first_append
        apply first_append
        rfl
      rw [← Except.ok.inj hsame, hother] at hfirst
      cases hfirst
    · simp

/-- An answer is recorded exactly when it says something and the task waits. -/
theorem recorded_iff (clock : Clock) (arguments : Arguments) (s : Stores) (id : ℕ) (task : Task)
    (hfind : s.tasks.find id = some task) : Recorded clock arguments s id ↔
      arguments.integer "number" = .ok (id : ℤ) ∧ (bound id).isOk = true ∧
        strip (arguments.text "answer") ≠ "" ∧ task.status = .waitingUser := by
  have hlands : ((Operation.recordAnswer id (arguments.text "answer")).effect.edit
      (clock s.readings)).lands s.tasks = true ↔ (bound id).isOk = true ∧
        strip (arguments.text "answer") ≠ "" ∧ task.status = .waitingUser := by
    dsimp only [Operation.effect, Effect.bounded]
    split
    · rename_i hempty
      simp [Effect.edit, Edit.lands, hempty]
    · rename_i hsome
      split
      · rename_i hbound
        rw [Effect.edit, Edit.lands_rewrite]
        constructor
        · rintro ⟨found,task',hfound,hid,hwaiting⟩
          obtain rfl : found = id := by omega
          rw [hfind] at hfound
          obtain rfl := Option.some.inj hfound
          exact ⟨hbound,hsome,by simpa using hwaiting⟩
        · rintro ⟨-,-,hwaiting⟩
          exact ⟨id,task,hfind,rfl,by simpa using hwaiting⟩
      · rename_i hbound
        simp [Effect.edit, Edit.lands, hbound]
  rw [Recorded, ← hlands, ← Operation.recordAnswer_ok]
  constructor
  · rintro ⟨hnumber,hsaid⟩
    exact ⟨hnumber,(answerQuestion_ok clock arguments s id hnumber).2.mp hsaid⟩
  · rintro ⟨hnumber,hdone⟩
    exact ⟨hnumber,(answerQuestion_ok clock arguments s id hnumber).2.mpr hdone⟩

/-- A task that waits after an answer waited before, with the same question. -/
theorem waiting_answerQuestion (clock : Clock) (arguments : Arguments) (s : Stores) (id : ℕ)
    (task' : Task)
    (hfind : (AnswerQuestion.run clock arguments s).2.tasks.find id = some task')
    (hwaiting : task'.status = .waitingUser) : s.tasks.find id = some task' := by
  cases hnumber : arguments.integer "number" with
  | error e =>
    rw [answerQuestion_error clock arguments s e hnumber] at hfind
    exact hfind
  | ok taskId =>
    rw [(answerQuestion_ok clock arguments s taskId hnumber).1, Operation.step_tasks] at hfind
    rcases Effect.waiting_cases _ _ _ id task' hfind hwaiting with ⟨stage,hasked⟩ | ⟨-,hbefore⟩
    · rcases Operation.recordAnswer_effect taskId (arguments.text "answer") with h | h
      · rw [h] at hasked
        cases hasked
      · rw [h] at hasked
        cases hasked
    · exact hbefore

/-- Whether the question of a waiting task is unread can be told from what was
shown. -/
def Faithful (d : Dialogue) : Prop :=
  ∀ id task, d.stores.tasks.find id = some task → task.status = .waitingUser →
    (d.unread id = false ↔ d.shown id = some task.note)

theorem faithful_opened (s : Stores) : Faithful (opened s) := by
  intro id task hfind hwaiting
  simp [opened]

theorem faithful_step (clock : Clock) (d : Dialogue) (event : Event) (h : Faithful d) :
    Faithful (step clock d event) := by
  intro id task' hfind hwaiting
  cases event with
  | workStatus arguments =>
    dsimp only [step] at hfind ⊢
    rw [(workStatus_unmoved clock arguments d.stores).2] at hfind
    have hbefore := h id task' hfind hwaiting
    by_cases hnote : task'.note = ""
    · have hnone : question d.stores.tasks id = none := by
        rw [question, hfind, Option.bind_some, if_neg fun hasks => hasks.2 hnote]
      simpa [hnone] using hbefore
    · have hsome : question d.stores.tasks id = some task'.note := by
        rw [question, hfind, Option.bind_some, if_pos ⟨hwaiting,hnote⟩]
      simp [hsome]
  | answerQuestion arguments =>
    exact h id task' (waiting_answerQuestion clock arguments d.stores id task' hfind hwaiting)
      hwaiting
  | list =>
    dsimp only [step] at hfind ⊢
    rw [QueueScript.run_eq] at hfind
    exact h id task' hfind hwaiting
  | move m =>
    dsimp only [step] at hfind ⊢
    rw [Move.perform_edit] at hfind
    rcases Effect.waiting_cases _ _ _ id task' hfind hwaiting with ⟨stage,hasked⟩ | ⟨hother,hbefore⟩
    · rw [hasked, Dialogue.unreadAfter_asked]
      simp
    · rw [Dialogue.unreadAfter_other d _ id hother]
      exact h id task' hbefore hwaiting

/-- Every recorded answer meets the question that was shown last exactly when
no answer comes for a question that is still unread. -/
theorem answers_what_was_read_iff (clock : Clock) (events : List Event) (s : Stores) :
    AnswersWhatWasRead clock events (opened s) ↔
      Throughout (step clock) ReadFirst events (opened s) := by
  apply throughout_congr Faithful (faithful_step clock) _ events _ (faithful_opened s)
  intro d event hfaithful
  constructor
  · intro hread arguments id task hevent hnumber hbound hsome hfind hwaiting
    apply (hfaithful id task hfind hwaiting).mpr
    apply hread arguments id task hevent _ hfind
    exact (recorded_iff clock arguments d.stores id task hfind).mpr ⟨hnumber,hbound,hsome,hwaiting⟩
  · intro hfirst arguments id task hevent hrecorded hfind
    obtain ⟨hnumber,hbound,hsome,hwaiting⟩ :=
      (recorded_iff clock arguments d.stores id task hfind).mp hrecorded
    apply (hfaithful id task hfind hwaiting).mp
    exact hfirst arguments id task hevent hnumber hbound hsome hfind hwaiting

def consent : Arguments :=
  [("number",⟨.integer 1,"1",.ok 1⟩),("answer",⟨.string "si'","si'",.error (.valueError "")⟩)]

def twice : List Event :=
  [.move (.store (.create "aggiungi i promemoria")),.list,
    .move (.script ⟨"advance 1 understood Procedo?",[]⟩),.workStatus [],.answerQuestion consent,
    .list,.move (.script ⟨"advance 1 implemented Committo?",[]⟩),.answerQuestion consent]

theorem second_yes_meets_another_question :
    Throughout (step fun n => n) (fun d event => orderly d event = true) twice (opened .empty) ∧
      ¬AnswersWhatWasRead (fun n => n) twice (opened .empty) := by
  constructor
  · unfold twice
    simp only [throughout_cons]
    refine ⟨by decide,by decide,by decide,by decide,by decide,by decide,by decide,by decide,?_⟩
    exact throughout_nil _
  · intro hread
    have hshown := hread (twice.take 7) (.answerQuestion consent) [] rfl consent 1
      ⟨"aggiungi i promemoria",.implemented,.waitingUser,"Committo?","",0,8⟩ rfl
      ⟨rfl,by decide⟩ (by decide)
    revert hshown
    decide

end Emma.ReadQuestions

import Emma.Checkpoints
import Emma.QueueListing

/-!
# What holds of the queue, whoever writes

The store has six updates and the script four. Over any run of both, every task
keeps what it is about, and its columns agree with one another.
-/

set_option autoImplicit false

namespace Emma.QueueInvariants
open Emma.Python Emma.Tasks Emma.DevelopmentTools Emma.QueueScript Emma.QueueListing
open Emma.QueueMoves Runs

def statuses : List String := ["queued","waiting_user","done","abandoned"]

/-- A successful `record_answer` for the task; the script has no such verb. -/
def Answered (clock : Clock) (id : ℕ) (s : Stores) (move : Move) : Prop :=
  ∃ op, move = .store op ∧ Checkpoints.Answers clock id s op

def Advanced (clock : Clock) (id : ℕ) (s : Stores) : Move → Prop
  | .store op => Checkpoints.Advances clock id s op
  | .script r => (∃ stage note, understood r = .ok (.advance id stage note)) ∧
      (s.tasks.find id).isSome = true

structure Sound (task : Task) : Prop where
  stage : stageText task.stage ∈ stageOrder.map Prod.fst
  status : statusText task.status ∈ statuses
  waiting : task.status = .waitingUser → task.answer = ""
  done : task.status = .done → task.stage = .deployed
  answer : task.answer = "" ∨ task.answer ≠ "" ∧ strip task.answer = task.answer

structure SoundTable (t : TaskTable) : Prop where
  tasks : ∀ id task, t.find id = some task → Sound task
  disjoint : ((queued t).map Prod.fst).Disjoint ((awaitingUser t).map Prod.fst)
  inOrder : ((openTasks t).map Prod.fst).Pairwise (· < ·)
  merged : openTasks t =
    List.merge (queued t) (awaitingUser t) fun a b => decide (a.1 ≤ b.1)

/-- What holds at each point of a run, and between its points. -/
structure Orderly (clock : Clock) (moves : List Move) (s : Stores) : Prop where
  sound : ∀ front back, moves = front ++ back →
    SoundTable (after (Move.perform clock) front s).tasks
  kept : ∀ front later back, moves = front ++ later ++ back →
    ∀ id task, (after (Move.perform clock) front s).tasks.find id = some task →
      ∃ task', (after (Move.perform clock) (front ++ later) s).tasks.find id = some task' ∧
        task'.request = task.request ∧ task'.createdAt = task.createdAt
  fresh : ∀ front later move back, moves = front ++ later ++ move::back →
    ∀ old new, ((after (Move.perform clock) front s).tasks.find old).isSome = true →
      (after (Move.perform clock) (front ++ later) s).tasks.find new = none →
      ((after (Move.perform clock) (front ++ later ++ [move]) s).tasks.find new).isSome = true →
      old < new
  answered : ∀ id front first between second back,
    moves = front ++ first::(between ++ second::back) →
    Answered clock id (after (Move.perform clock) front s) first →
    Answered clock id (after (Move.perform clock) (front ++ first::between) s) second →
    ∃ early move late, between = early ++ move::late ∧
      Advanced clock id (after (Move.perform clock) (front ++ first::early) s) move

theorem stageText_listed (stage : Stage) : stageText stage ∈ stageOrder.map Prod.fst := by
  cases stage <;> decide

theorem statusText_listed (status : Status) : statusText status ∈ statuses := by
  cases status <;> decide

theorem sound_new (request : String) (now : ℚ) : Sound ⟨request,.new,.queued,"","",now,now⟩ where
  stage := stageText_listed _
  status := statusText_listed _
  waiting := fun _ => rfl
  done := by simp
  answer := .inl rfl

/-- Only `record_answer` answers, and what it stores is trimmed and not blank. -/
theorem effect_answered (move : Move) (taskId : ℤ) (answer : String)
    (h : move.effect = .answered taskId answer) : answer ≠ "" ∧ strip answer = answer := by
  cases move with
  | store op =>
    obtain ⟨⟨text,rfl⟩,hsome⟩ := op.effect_answered taskId answer h
    constructor
    · exact hsome
    · rcases Operation.recordAnswer_effect taskId text with hnone | hgiven
      · rw [Move.effect, hnone] at h
        cases h
      · rw [Move.effect, hgiven] at h
        obtain ⟨-,rfl⟩ := Effect.answered.inj h
        exact strip_strip text
  | script r =>
    dsimp only [Move.effect] at h
    split at h
    · rename_i action _
      cases action <;> cases h
    · cases h

theorem met_sound (now : ℚ) (move : Move) (id : ℕ) (task task' : Task)
    (hmet : Effect.Met now id task move.effect task') (h : Sound task) : Sound task' := by
  have hgiven := effect_answered move id
  generalize move.effect = e at hmet hgiven
  cases hmet with
  | answered answer hwaiting => exact
    { stage := h.stage
      status := statusText_listed _
      waiting := by simp
      done := by simp
      answer := .inr (hgiven answer rfl) }
  | asked stage note => exact
    { stage := stageText_listed _
      status := statusText_listed _
      waiting := fun _ => rfl
      done := by simp
      answer := .inl rfl }
  | finished note => exact
    { stage := stageText_listed _
      status := statusText_listed _
      waiting := by simp
      done := fun _ => rfl
      answer := h.answer }
  | abandoned note => exact
    { stage := h.stage
      status := statusText_listed _
      waiting := by simp
      done := by simp
      answer := h.answer }
  | missed => exact h

theorem met_kept (now : ℚ) (e : Effect) (id : ℕ) (task task' : Task)
    (hmet : Effect.Met now id task e task') :
    task'.request = task.request ∧ task'.createdAt = task.createdAt := by
  cases hmet <;> exact ⟨rfl,rfl⟩

theorem perform_sound (clock : Clock) (s : Stores) (move : Move)
    (h : ∀ id task, s.tasks.find id = some task → Sound task) :
    ∀ id task, (move.perform clock s).tasks.find id = some task → Sound task := by
  intro id task' hfind
  rw [Move.perform_edit] at hfind
  rcases Effect.find_edit_cases _ _ s.tasks id task' hfind with
    ⟨task,hbefore,hmet⟩ | ⟨-,request,-,rfl⟩
  · exact met_sound _ move id task task' hmet (h id task hbefore)
  · exact sound_new request _

theorem after_sound (clock : Clock) (moves : List Move) (s : Stores)
    (h : ∀ id task, s.tasks.find id = some task → Sound task) :
    ∀ id task, (after (Move.perform clock) moves s).tasks.find id = some task → Sound task :=
  after_keeps (fun s => ∀ id task, s.tasks.find id = some task → Sound task)
    (perform_sound clock) moves s h

/-- The lists hold of every table; only the columns need the history. -/
theorem soundTable (t : TaskTable) (h : ∀ id task, t.find id = some task → Sound task) :
    SoundTable t where
  tasks := h
  disjoint := by
    intro id hqueued hwaiting
    obtain ⟨row,hrow,rfl⟩ := List.mem_map.mp hqueued
    obtain ⟨other,hother,hid⟩ := List.mem_map.mp hwaiting
    obtain ⟨hin,hstatus⟩ := List.mem_filter.mp hrow
    obtain ⟨hin',hstatus'⟩ := List.mem_filter.mp hother
    rw [t.row_unique other row hin' hin hid] at hstatus'
    simp only [decide_eq_true_eq] at hstatus hstatus'
    rw [hstatus] at hstatus'
    cases hstatus'
  inOrder := t.ordered.sublist (List.filter_sublist.map _)
  merged := by
    rw [queued, awaitingUser, RowTable.select_merge]
    · rfl
    · intro row hqueued
      simp only [decide_eq_true_eq] at hqueued
      simp [hqueued]

theorem perform_kept (clock : Clock) (s : Stores) (move : Move) (id : ℕ) (task : Task)
    (hfind : s.tasks.find id = some task) :
    ∃ task', (move.perform clock s).tasks.find id = some task' ∧
      task'.request = task.request ∧ task'.createdAt = task.createdAt := by
  refine ⟨_,Move.find_perform clock s move id task hfind,?_⟩
  exact met_kept _ move.effect id task _ (Effect.met _ _ id task)

theorem after_kept (clock : Clock) (moves : List Move) (s : Stores) (id : ℕ) (task : Task)
    (hfind : s.tasks.find id = some task) :
    ∃ task', (after (Move.perform clock) moves s).tasks.find id = some task' ∧
      task'.request = task.request ∧ task'.createdAt = task.createdAt := by
  apply after_keeps (fun s => ∃ task', s.tasks.find id = some task' ∧
    task'.request = task.request ∧ task'.createdAt = task.createdAt) _ moves s ⟨task,hfind,rfl,rfl⟩
  rintro s move ⟨found,hfound,hrequest,hcreated⟩
  obtain ⟨next,hnext,hrequest',hcreated'⟩ := perform_kept clock s move id found hfound
  exact ⟨next,hnext,hrequest'.trans hrequest,hcreated'.trans hcreated⟩

/-- A number that was not there before a move is behind all that were. -/
theorem perform_fresh (clock : Clock) (s : Stores) (move : Move) (old new : ℕ)
    (hold : (s.tasks.find old).isSome = true) (hnone : s.tasks.find new = none)
    (hnew : ((move.perform clock s).tasks.find new).isSome = true) : old < new := by
  obtain ⟨task,htask⟩ := Option.isSome_iff_exists.mp hold
  obtain ⟨task',htask'⟩ := Option.isSome_iff_exists.mp hnew
  have hbound := s.tasks.find_bounded old task htask
  rw [Move.perform_edit] at htask'
  rcases Edit.find_apply_cases _ s.tasks new task' htask' with ⟨_,hbefore,-⟩ | ⟨-,hinsert⟩
  · rw [hnone] at hbefore
    cases hbefore
  · rw [hinsert, Edit.apply, RowTable.find_insert, hnone] at htask'
    split at htask'
    · omega
    · cases htask'

/-- An effect that asks about a task that is there is an advance of it. -/
theorem advanced_of_asked (clock : Clock) (s : Stores) (move : Move) (id : ℕ) (stage : Stage)
    (note : String) (task : Task) (hasked : move.effect = .asked id stage note)
    (hfind : s.tasks.find id = some task) : Advanced clock id s move := by
  cases move with
  | store op =>
    apply (Checkpoints.advances_iff clock id s op).mpr
    refine ⟨stage,task,?_,hfind⟩
    dsimp only [Move.effect] at hasked
    rw [Checkpoints.named, hasked]
  | script r =>
    dsimp only [Move.effect] at hasked
    split at hasked
    · rename_i action hunderstood
      cases action with
      | advance taskId next text =>
        obtain ⟨hid,rfl,rfl⟩ := Effect.asked.inj hasked
        obtain rfl : taskId = id := by omega
        exact ⟨⟨_,_,hunderstood⟩,by simp [hfind]⟩
      | _ => cases hasked
    · cases hasked

/-- Whoever does not wait on the user waits again only by an advance. -/
theorem not_waiting_stays (clock : Clock) (moves : List Move) (s : Stores) (id : ℕ) (task : Task)
    (hfind : s.tasks.find id = some task) (hstatus : task.status ≠ .waitingUser)
    (hnone : Throughout (Move.perform clock) (fun s move => ¬Advanced clock id s move) moves s) :
    ∃ task', (after (Move.perform clock) moves s).tasks.find id = some task' ∧
      task'.status ≠ .waitingUser := by
  apply hnone.keeps (fun s => ∃ task', s.tasks.find id = some task' ∧
    task'.status ≠ .waitingUser) _ ⟨task,hfind,hstatus⟩
  rintro s move ⟨found,hfound,hnot⟩ hadvanced
  obtain ⟨task',hfind',-⟩ := perform_kept clock s move id found hfound
  refine ⟨task',hfind',?_⟩
  intro hwaiting
  rw [Move.perform_edit] at hfind'
  rcases Effect.waiting_cases _ _ s.tasks id task' hfind' hwaiting with
    ⟨stage,hasked⟩ | ⟨-,hsame⟩
  · exact hadvanced (advanced_of_asked clock s move id stage _ found hasked hfound)
  · rw [hfound] at hsame
    exact hnot (Option.some.inj hsame ▸ hwaiting)

theorem answered_queued (clock : Clock) (s : Stores) (move : Move) (id : ℕ)
    (h : Answered clock id s move) :
    (∃ task, s.tasks.find id = some task ∧ task.status = .waitingUser) ∧
      ∃ task', (move.perform clock s).tasks.find id = some task' ∧
        task'.status ≠ .waitingUser := by
  obtain ⟨op,rfl,hanswers⟩ := h
  obtain ⟨answer,task,hanswered,hfind,hwaiting⟩ :=
    (Checkpoints.answers_iff clock id s op).mp hanswers
  refine ⟨⟨task,hfind,hwaiting⟩,_,Move.find_perform clock s (.store op) id task hfind,?_⟩
  simp [Move.edit, Move.effect, hanswered, Effect.edit, Edit.onTask, hwaiting]

theorem asked_between (clock : Clock) (between : List Move) (s : Stores) (id : ℕ)
    (first second : Move) (hfirst : Answered clock id s first)
    (hsecond : Answered clock id
      (after (Move.perform clock) between (first.perform clock s)) second) :
    ∃ early move late, between = early ++ move::late ∧
      Advanced clock id (after (Move.perform clock) early (first.perform clock s)) move := by
  obtain ⟨-,task,hfind,hstatus⟩ := answered_queued clock s first id hfirst
  apply meets_one
  intro hnone
  obtain ⟨found,hfound,hnot⟩ := not_waiting_stays clock between _ id task hfind hstatus hnone
  obtain ⟨⟨waiting,hwaiting,hstill⟩,-⟩ := answered_queued clock _ second id hsecond
  rw [hfound] at hwaiting
  exact hnot (Option.some.inj hwaiting ▸ hstill)

/-- Every run of both writers on a queue that began empty is orderly. -/
theorem queue_stays_orderly (clock : Clock) (moves : List Move) (s : Stores) :
    Orderly clock moves (Checkpoints.cleared s) where
  sound := by
    intro front back _
    apply soundTable
    apply after_sound
    intro id task hfind
    cases hfind
  kept := by
    intro front later back _ id task hfind
    rw [after_append]
    exact after_kept clock later _ id task hfind
  fresh := by
    intro front later move back _ old new hold hnone hnew
    obtain ⟨task,htask⟩ := Option.isSome_iff_exists.mp hold
    obtain ⟨task',htask',-⟩ := after_kept clock later _ old task htask
    rw [after_append, after_cons, after_nil, after_append] at hnew
    rw [after_append] at hnone
    exact perform_fresh clock _ move old new (by simp [htask']) hnone hnew
  answered := by
    intro id front first between second back _ hfirst hsecond
    rw [after_append, after_cons] at hsecond
    obtain ⟨early,move,late,hbetween,hadvanced⟩ :=
      asked_between clock between _ id first second hfirst hsecond
    refine ⟨early,move,late,hbetween,?_⟩
    rw [after_append, after_cons]
    exact hadvanced

end Emma.QueueInvariants

import Emma.QueueMoves
import Emma.WatchTasks

/-!
# Whether every hand-over wakes the session

A task is handed over when it is created and again with every answer, and the
watcher remembers its id for good. Beside the queue goes what was handed over
since the last wake-up that listed it, and what any wake-up listed.
-/

set_option autoImplicit false

namespace Emma.HandOvers
open Emma.Tasks Emma.DevelopmentTools Emma.QueueMoves Emma.QueueListing Emma.WatchTasks Runs

/-- A task becomes queued when it is created, or when the user answers it. -/
theorem becomes_queued (clock : Clock) (m : Move) (s : Stores) (id : ℕ)
    (hafter : isQueued (m.perform clock s).tasks id = true)
    (hbefore : isQueued s.tasks id = false) :
    (s.tasks.find id = none ∧ ∃ request, m.effect = .created request) ∨
      ∃ task answer, s.tasks.find id = some task ∧ task.status = .waitingUser ∧
        m.effect = .answered id answer := by
  rw [isQueued, Move.perform_edit, Option.any_eq_true] at hafter
  obtain ⟨task',hfind,hqueued⟩ := hafter
  rw [decide_eq_true_eq] at hqueued
  rcases Effect.find_edit_cases _ m.effect s.tasks id task' hfind with
    ⟨task,hold,hmet⟩ | ⟨hnone,request,heffect,-⟩
  · right
    rw [isQueued, hold, Option.any_some, decide_eq_false_iff_not] at hbefore
    generalize m.effect = e at hmet ⊢
    cases hmet with
    | answered answer hwaiting => exact ⟨task,answer,hold,hwaiting,rfl⟩
    | asked => cases hqueued
    | finished => cases hqueued
    | abandoned => cases hqueued
    | missed => exact absurd hqueued hbefore
  · exact .inl ⟨hnone,request,heffect⟩

structure Watch where
  stores : Stores
  watcher : Watcher
  announced : ℕ → Bool
  handed : ℕ → Bool

/-- Nothing was announced, and whatever is queued was handed over. -/
def opened (s : Stores) : Watch := ⟨s,⟨[],none⟩,fun _ => false,isQueued s.tasks⟩

inductive Event where
  | move (move : Move)
  | poll (link : Connection)

section
variable (settings : Settings) (p : Printer) (clock : Clock)

def wakesFor (link : Connection) (w : Watch) (id : ℕ) : Bool :=
  (poll settings p clock link w.watcher w.stores).1 = some 2 &&
    lists link w.watcher w.stores.tasks id

def step (w : Watch) : Event → Watch
  | .move m =>
    { w with
      stores := m.perform clock w.stores
      handed := fun id => w.handed id ||
        (isQueued (m.perform clock w.stores).tasks id && !isQueued w.stores.tasks id) }
  | .poll link =>
    { stores := (poll settings p clock link w.watcher w.stores).2.2
      watcher := (poll settings p clock link w.watcher w.stores).2.1
      announced := fun id => w.announced id || wakesFor settings p clock link w id
      handed := fun id => w.handed id && !wakesFor settings p clock link w id }

/-- A poll that lists a task handed over since the last wake-up that listed it
wakes the session. -/
def EveryHandOverWakes (events : List Event) (w : Watch) : Prop :=
  Throughout (step settings p clock) (fun w event => ∀ link id, event = .poll link →
    lists link w.watcher w.stores.tasks id = true → w.handed id = true →
      (poll settings p clock link w.watcher w.stores).1 = some 2) events w

/-- A poll that lists a task handed back after it was announced lists another
that never was. -/
def BesideNewWork (w : Watch) (event : Event) : Prop :=
  ∀ link id, event = .poll link → lists link w.watcher w.stores.tasks id = true →
    w.announced id = true → w.handed id = true →
      ∃ other, lists link w.watcher w.stores.tasks other = true ∧ w.announced other = false

def Remembered (w : Watch) : Prop :=
  ∀ id, Nat.toDigits 10 id ∈ w.watcher.seenFile ↔ w.announced id = true

theorem remembered_opened (s : Stores) : Remembered (opened s) := by
  intro id
  simp [opened]

theorem wakes_iff (link : Connection) (w : Watch) (h : Remembered w) :
    (poll settings p clock link w.watcher w.stores).1 = some 2 ↔
      ∃ id, lists link w.watcher w.stores.tasks id = true ∧ w.announced id = false := by
  rw [poll_wakes_iff]
  constructor
  · rintro ⟨id,hlists,hnew⟩
    rw [h id, Bool.not_eq_true] at hnew
    exact ⟨id,hlists,hnew⟩
  · rintro ⟨id,hlists,hnew⟩
    rw [← Bool.not_eq_true, ← h id] at hnew
    exact ⟨id,hlists,hnew⟩

theorem remembered_step (w : Watch) (event : Event) (h : Remembered w) :
    Remembered (step settings p clock w event) := by
  intro id
  cases event with
  | move m => exact h id
  | poll link =>
    dsimp only [step]
    rw [mem_poll_seenFile, h id, Bool.or_eq_true, wakesFor, Bool.and_eq_true, decide_eq_true_eq]
    constructor
    · rintro (hold | ⟨other,hlists,hsame⟩)
      · exact .inl hold
      · obtain rfl := Delimited.digits_injective hsame
        cases hannounced : w.announced other with
        | true => exact .inl rfl
        | false =>
          exact .inr ⟨(wakes_iff settings p clock link w h).mpr ⟨other,hlists,hannounced⟩,hlists⟩
    · rintro (hold | ⟨-,hlists⟩)
      · exact .inl hold
      · exact .inr ⟨id,hlists,rfl⟩

/-- Every hand-over wakes the session exactly when no task is handed back, after
it was announced, to a poll that finds nothing new. -/
theorem every_hand_over_wakes_iff (events : List Event) (s : Stores) :
    EveryHandOverWakes settings p clock events (opened s) ↔
      Throughout (step settings p clock) BesideNewWork events (opened s) := by
  apply throughout_congr Remembered (remembered_step settings p clock) _ events _
    (remembered_opened s)
  intro w event hremembered
  constructor
  · intro hwakes link id hevent hlists _ hhanded
    exact (wakes_iff settings p clock link w hremembered).mp (hwakes link id hevent hlists hhanded)
  · intro hbeside link id hevent hlists hhanded
    apply (wakes_iff settings p clock link w hremembered).mpr
    cases hannounced : w.announced id with
    | true => exact hbeside link id hevent hlists hannounced hhanded
    | false => exact ⟨id,hlists,hannounced⟩

def Quiet (w : Watch) : Prop :=
  ∀ id, w.announced id = true → (w.stores.tasks.find id).isSome = true ∧ w.handed id = false

theorem quiet_opened (s : Stores) : Quiet (opened s) := by
  intro id hannounced
  cases hannounced

theorem quiet_step (w : Watch) (event : Event) (h : Quiet w)
    (hunanswered : ∀ m id answer, event = .move m → m.effect ≠ .answered id answer) :
    Quiet (step settings p clock w event) := by
  intro id hannounced
  cases event with
  | move m =>
    obtain ⟨hthere,hnone⟩ := h id hannounced
    obtain ⟨task,hfind⟩ := Option.isSome_iff_exists.mp hthere
    dsimp only [step]
    constructor
    · rw [Move.find_perform clock w.stores m id task hfind]
      rfl
    · rw [hnone, Bool.false_or, ← Bool.not_eq_true, Bool.and_eq_true, Bool.not_eq_true']
      rintro ⟨hafter,hbefore⟩
      rcases becomes_queued clock m w.stores id hafter hbefore with
        ⟨hfresh,-⟩ | ⟨-,answer,-,-,hanswered⟩
      · rw [hfind] at hfresh
        cases hfresh
      · exact hunanswered m id answer rfl hanswered
  | poll link =>
    dsimp only [step] at hannounced ⊢
    rw [(poll_eq settings p clock link w.watcher w.stores).1]
    rw [Bool.or_eq_true] at hannounced
    rcases hannounced with hold | hnew
    · obtain ⟨hthere,hnone⟩ := h id hold
      exact ⟨hthere,by rw [hnone, Bool.false_and]⟩
    · constructor
      · rw [wakesFor, Bool.and_eq_true, lists, Bool.and_eq_true, isQueued,
          Option.any_eq_true] at hnew
        obtain ⟨-,-,task,hfind,-⟩ := hnew
        rw [hfind]
        rfl
      · rw [hnew, Bool.not_true, Bool.and_false]

/-- As long as the user answers nothing, every hand-over wakes the session. -/
theorem unanswered_hand_overs_wake (events : List Event) (s : Stores)
    (h : ∀ m id answer, .move m ∈ events → m.effect ≠ .answered id answer) :
    EveryHandOverWakes settings p clock events (opened s) := by
  have hremembered := remembered_opened s
  have hquiet := quiet_opened s
  generalize opened s = w at hremembered hquiet
  unfold EveryHandOverWakes
  induction events generalizing w with
  | nil => exact throughout_nil w
  | cons event events ih =>
    rw [throughout_cons]
    constructor
    · intro link id _ hlists hhanded
      apply (wakes_iff settings p clock link w hremembered).mpr
      cases hannounced : w.announced id with
      | true =>
        rw [(hquiet id hannounced).2] at hhanded
        cases hhanded
      | false => exact ⟨id,hlists,hannounced⟩
    · apply ih
      · intro m id answer hmem
        exact h m id answer (List.mem_cons_of_mem _ hmem)
      · exact remembered_step settings p clock w event hremembered
      · apply quiet_step settings p clock w event hquiet
        intro m id answer hevent
        exact h m id answer (hevent ▸ List.mem_cons_self)

end

def defaults : Settings := ⟨300,21600,by decide⟩

def plainPrinter : Printer where
  time := fun _ => ['0','.','0']
  other := fun c => [c]
  time_plain := fun _ => by decide
  other_plain := by
    intro c hc
    simpa using hc.symm

def reached : Connection := ⟨true,true,true⟩

def handedBack : List Event :=
  [.move (.store (.create "aggiungi i promemoria")),.poll reached,
    .move (.script ⟨"advance 1 understood Procedo?",[]⟩),
    .move (.store (.recordAnswer 1 "si'")),.poll reached]

theorem answered_task_wakes_nobody :
    ¬EveryHandOverWakes defaults plainPrinter (fun n => n) handedBack (opened .empty) := by
  intro hwakes
  have hlast := hwakes (handedBack.take 4) (.poll reached) [] rfl reached 1 rfl
  revert hlast
  decide

end Emma.HandOvers

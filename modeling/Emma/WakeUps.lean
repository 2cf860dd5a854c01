import Emma.HandOvers

/-!
# How often the session is woken

The file holds every announced id once, and only ids of tasks. Each wake-up adds one,
so that however often the watcher is armed again, and however long a task waits, there
are no more wake-ups than tasks.
-/

set_option autoImplicit false

namespace Emma.WakeUps
open Emma.Tasks Emma.DevelopmentTools Emma.QueueScript Emma.QueueMoves Emma.QueueListing
open Emma.WatchTasks Emma.HandOvers Runs

section
variable (settings : Settings) (p : Printer) (clock : Clock)

def wakes (w : Watch) : Event → Bool
  | .move _ => false
  | .poll link => (poll settings p clock link w.watcher w.stores).1 = some 2

def wakeUps : List Event → Watch → ℕ
  | [], _ => 0
  | event::events, w => (wakes settings p clock w event).toNat +
      wakeUps events (step settings p clock w event)

structure Announced (w : Watch) : Prop where
  once : w.watcher.seenFile.Nodup
  tasks : ∀ name ∈ w.watcher.seenFile, ∃ id, (w.stores.tasks.find id).isSome = true ∧
    Nat.toDigits 10 id = name

theorem announced_opened (s : Stores) : Announced (opened s) := by
  constructor
  · exact List.nodup_nil
  · intro name hname
    cases hname

theorem find_perform (m : Move) (s : Stores) (id : ℕ) (h : (s.tasks.find id).isSome = true) :
    ((m.perform clock s).tasks.find id).isSome = true := by
  obtain ⟨task,hfind⟩ := Option.isSome_iff_exists.mp h
  rw [m.perform_edit, Edit.find_apply _ _ _ _ hfind]
  rfl

theorem fresh_once (seenFile : List (List Char)) (t : TaskTable) :
    (fresh seenFile (chomp (p.rows (queued t)))).Nodup := by
  rw [fresh_rows]
  apply List.Nodup.filter
  have hids := t.select_ids_nodup fun row => row.2.status = .queued
  rw [← queued] at hids
  have hmap : (queued t).map (fun row => Nat.toDigits 10 row.1) =
      ((queued t).map Prod.fst).map (Nat.toDigits 10) := by
    rw [List.map_map]
    rfl
  rw [hmap]
  exact hids.map fun _ _ hsame => Delimited.digits_injective hsame

theorem announced_step (w : Watch) (event : Event) (h : Announced w) :
    Announced (step settings p clock w event) ∧
      w.watcher.seenFile.length+(wakes settings p clock w event).toNat ≤
        (step settings p clock w event).watcher.seenFile.length := by
  cases event with
  | move m =>
    refine ⟨⟨h.once,?_⟩,le_rfl⟩
    intro name hname
    obtain ⟨id,hthere,hid⟩ := h.tasks name hname
    exact ⟨id,find_perform clock m w.stores id hthere,hid⟩
  | poll link =>
    obtain ⟨htasks,hseen,hwakes⟩ := poll_eq settings p clock link w.watcher w.stores
    dsimp only [step, wakes]
    cases hlistens : listens link w.watcher with
    | false =>
      rw [hlistens, if_neg Bool.false_ne_true] at hseen hwakes
      rw [List.append_nil] at hseen
      have hsleeps : (poll settings p clock link w.watcher w.stores).1 ≠ some 2 :=
        fun hwoken => hwakes.mp hwoken rfl
      rw [decide_eq_false hsleeps]
      refine ⟨⟨?_,?_⟩,?_⟩
      · exact hseen ▸ h.once
      · dsimp only
        rw [hseen, htasks]
        exact h.tasks
      · rw [hseen]
        exact le_rfl
    | true =>
      rw [hlistens, if_pos rfl] at hseen hwakes
      have hfresh := mem_fresh_rows p w.watcher.seenFile w.stores.tasks
      refine ⟨⟨?_,?_⟩,?_⟩
      · dsimp only
        rw [hseen, List.nodup_append]
        refine ⟨h.once,fresh_once p _ _,?_⟩
        rintro name hold _ hnew rfl
        exact ((hfresh name).mp hnew).2 hold
      · dsimp only
        intro name hname
        rw [hseen, List.mem_append] at hname
        rw [htasks]
        rcases hname with hold | hnew
        · exact h.tasks name hold
        · obtain ⟨⟨id,hqueued,hid⟩,-⟩ := (hfresh name).mp hnew
          obtain ⟨task,hfind,-⟩ := (Option.any_eq_true _ _).mp hqueued
          exact ⟨id,Option.isSome_iff_exists.mpr ⟨task,hfind⟩,hid⟩
      · rw [hseen, List.length_append]
        by_cases hwoken : (poll settings p clock link w.watcher w.stores).1 = some 2
        · have hsome := List.length_pos_of_ne_nil (hwakes.mp hwoken)
          have hone := Bool.toNat_le (decide
            ((poll settings p clock link w.watcher w.stores).1 = some 2))
          omega
        · rw [decide_eq_false hwoken]
          exact Nat.add_le_add_left (Nat.zero_le _) _

theorem announced_run (events : List Event) (w : Watch) (h : Announced w) :
    Announced (after (step settings p clock) events w) ∧
      w.watcher.seenFile.length+wakeUps settings p clock events w ≤
        (after (step settings p clock) events w).watcher.seenFile.length := by
  induction events generalizing w with
  | nil => exact ⟨h,le_rfl⟩
  | cons event events ih =>
    obtain ⟨hstep,hlonger⟩ := announced_step settings p clock w event h
    obtain ⟨hrun,hrest⟩ := ih _ hstep
    refine ⟨hrun,?_⟩
    rw [wakeUps, after_cons]
    omega

end

theorem Announced.length_le {w : Watch} (h : Announced w) :
    w.watcher.seenFile.length ≤ w.stores.tasks.rows.length := by
  have hnames : w.watcher.seenFile ⊆
      w.stores.tasks.rows.map fun row => Nat.toDigits 10 row.1 := by
    intro name hname
    obtain ⟨id,hthere,rfl⟩ := h.tasks name hname
    obtain ⟨task,hfind⟩ := Option.isSome_iff_exists.mp hthere
    exact List.mem_map.mpr ⟨(id,task),(w.stores.tasks.find_iff id task).mp hfind,rfl⟩
  simpa using (List.subperm_of_subset h.once hnames).length_le

/-- However the queue moves and however often the watcher is armed again: no more
wake-ups than tasks, every id announced once, and every one that of a task. -/
theorem wake_ups_are_bounded (settings : Settings) (p : Printer) (clock : Clock)
    (events : List Event) (s : Stores) :
    let w := after (step settings p clock) events (opened s)
    wakeUps settings p clock events (opened s) ≤ w.watcher.seenFile.length ∧
      w.watcher.seenFile.length ≤ w.stores.tasks.rows.length ∧ Announced w := by
  obtain ⟨hannounced,hlonger⟩ := announced_run settings p clock events (opened s)
    (announced_opened s)
  exact ⟨by simpa [opened] using hlonger,hannounced.length_le,hannounced⟩

end Emma.WakeUps

import Emma.QueueListing

/-!
# The watcher in hook mode

Between one exit and the next arming the watcher is not there; what it announced
stays in its file. A turn of its loop asks for the listing and wakes the session
when some id in it was not announced before.
-/

set_option autoImplicit false

namespace Emma.WatchTasks
open Emma.Tasks Emma.DevelopmentTools Emma.QueueScript Emma.QueueListing

structure Settings where
  pollSeconds : ℕ
  maxWaitSeconds : ℕ
  pollSeconds_pos : 1 ≤ pollSeconds

/-- The lines of `SEEN_FILE`, and `WAITED` while a watcher is running. -/
structure Watcher where
  seenFile : List (List Char)
  waited : Option ℕ

/-- Which commands reach the queue: the one at the start, and the two of a turn. -/
structure Connection where
  start : Bool
  touch : Bool
  list : Bool

def overSsh (verb : String) : Request := ⟨verb,[]⟩

def beat (clock : Clock) (reached : Bool) (s : Stores) : Stores :=
  if reached then (QueueScript.run clock (overSsh "touch") s).2 else s

def readQueue (p : Printer) (clock : Clock) (reached : Bool) (s : Stores) :
    Option (List Char) × Stores :=
  if reached then
    let (printed,s) := QueueScript.run clock (overSsh "list") s
    (p.output printed,s)
  else (none,s)

def fresh (seenFile : List (List Char)) (queued : List Char) : List (List Char) :=
  let squeezed := queued.filter fun c => !isBlank c
  if squeezed = [] ∨ squeezed = ['[',']'] then []
  else (idsIn queued).filter fun id => id ∉ seenFile

/-- A turn of the loop, of a watcher that is armed first where none is running.
The code is there when it exits. The append to the seen file is taken to work. -/
def poll (settings : Settings) (p : Printer) (clock : Clock) (link : Connection) (w : Watcher)
    (s : Stores) : Option ℕ × Watcher × Stores :=
  if w.waited = none ∧ link.start = false then (some 0,w,s)
  else
    let waited := w.waited.getD 0
    let s := if w.waited = none then beat clock link.start s else s
    let s := beat clock link.touch s
    let (queued,s) := readQueue p clock link.list s
    let new := fresh w.seenFile (queued.getD [])
    if new ≠ [] then (some 2,⟨w.seenFile ++ new,none⟩,s)
    else if settings.maxWaitSeconds ≤ waited then (some 0,⟨w.seenFile,none⟩,s)
    else (none,⟨w.seenFile,some (waited+settings.pollSeconds)⟩,s)

def listens (link : Connection) (w : Watcher) : Bool :=
  (w.waited.isSome || link.start) && link.list

def isQueued (t : TaskTable) (id : ℕ) : Bool :=
  (t.find id).any fun task => task.status = .queued

def lists (link : Connection) (w : Watcher) (t : TaskTable) (id : ℕ) : Bool :=
  listens link w && isQueued t id

theorem beat_tasks (clock : Clock) (reached : Bool) (s : Stores) :
    (beat clock reached s).tasks = s.tasks := by
  unfold beat
  split
  · rw [QueueScript.run_eq]
    rfl
  · rfl

theorem readQueue_eq (p : Printer) (clock : Clock) (s : Stores) :
    (readQueue p clock true s).1 = some (chomp (p.rows (queued s.tasks))) ∧
      (readQueue p clock true s).2.tasks = s.tasks := by
  constructor
  · rfl
  · exact QueueScript.run_eq clock (overSsh "list") s

theorem fresh_rows (p : Printer) (seenFile : List (List Char)) (found : List (ℕ × Task)) :
    fresh seenFile (chomp (p.rows found)) =
      (found.map fun row => Nat.toDigits 10 row.1).filter fun id => id ∉ seenFile := by
  cases found with
  | nil => rfl
  | cons row found =>
    have hsome : ∃ rest, (chomp (p.rows (row::found))).filter (fun c => !isBlank c) =
        '[' :: '{' :: rest := by
      rw [p.chomp_rows]
      exact ⟨_,rfl⟩
    obtain ⟨rest,hrest⟩ := hsome
    rw [fresh, hrest, if_neg (by simp), p.idsIn_rows]

theorem mem_fresh_rows (p : Printer) (seenFile : List (List Char)) (t : TaskTable)
    (name : List Char) : name ∈ fresh seenFile (chomp (p.rows (queued t))) ↔
      (∃ id, isQueued t id = true ∧ Nat.toDigits 10 id = name) ∧ name ∉ seenFile := by
  have hlisted : (∃ row ∈ queued t, Nat.toDigits 10 row.1 = name) ↔
      ∃ id, isQueued t id = true ∧ Nat.toDigits 10 id = name := by
    constructor
    · rintro ⟨⟨id,task⟩,hrow,hname⟩
      obtain ⟨hmem,hstatus⟩ := List.mem_filter.mp hrow
      refine ⟨id,?_,hname⟩
      rw [isQueued, (t.find_iff id task).mpr hmem]
      exact hstatus
    · rintro ⟨id,hqueued,hname⟩
      rw [isQueued, Option.any_eq_true] at hqueued
      obtain ⟨task,hfind,hstatus⟩ := hqueued
      exact ⟨(id,task),List.mem_filter.mpr ⟨(t.find_iff id task).mp hfind,hstatus⟩,hname⟩
  rw [fresh_rows, List.mem_filter, List.mem_map, hlisted]
  simp

/-- What is new in the listing, which leaves the tasks alone; nothing is where it
does not arrive. -/
theorem fresh_readQueue (p : Printer) (clock : Clock) (reached : Bool) (seenFile : List (List Char))
    (s : Stores) :
    fresh seenFile ((readQueue p clock reached s).1.getD []) =
        (if reached then fresh seenFile (chomp (p.rows (queued s.tasks))) else []) ∧
      (readQueue p clock reached s).2.tasks = s.tasks := by
  cases reached with
  | true =>
    obtain ⟨hprinted,hunmoved⟩ := readQueue_eq p clock s
    rw [hprinted]
    exact ⟨rfl,hunmoved⟩
  | false => exact ⟨rfl,rfl⟩

theorem listens_armed (link : Connection) (w : Watcher)
    (h : ¬(w.waited = none ∧ link.start = false)) : listens link w = link.list := by
  rw [not_and_or] at h
  rcases h with h | h
  · simp [listens, Option.isSome_iff_ne_none.mpr h]
  · simp [listens, Bool.eq_true_of_not_eq_false h]

section
variable (settings : Settings) (p : Printer) (clock : Clock) (link : Connection) (w : Watcher)
  (s : Stores)

/-- A poll leaves the tasks alone, wakes the session for what is new and records
just that. -/
theorem poll_eq :
    let new := if listens link w then fresh w.seenFile (chomp (p.rows (queued s.tasks))) else []
    (poll settings p clock link w s).2.2.tasks = s.tasks ∧
      (poll settings p clock link w s).2.1.seenFile = w.seenFile ++ new ∧
      ((poll settings p clock link w s).1 = some 2 ↔ new ≠ []) := by
  intro new
  by_cases hdown : w.waited = none ∧ link.start = false
  · have hdeaf : listens link w = false := by simp [listens, hdown]
    have hnew : new = [] := by simp [new, hdeaf]
    rw [poll, if_pos hdown, hnew]
    simp
  generalize hbefore : beat clock link.touch
    (if w.waited = none then beat clock link.start s else s) = before
  have htasks : before.tasks = s.tasks := by
    rw [← hbefore, beat_tasks]
    split
    · exact beat_tasks clock link.start s
    · rfl
  obtain ⟨hread,hunmoved⟩ := fresh_readQueue p clock link.list w.seenFile before
  have hnew : fresh w.seenFile ((readQueue p clock link.list before).1.getD []) = new := by
    rw [hread, htasks]
    simp only [new, listens_armed link w hdown]
  rw [htasks] at hunmoved
  rw [poll, if_neg hdown]
  dsimp only
  rw [hbefore, hnew]
  split
  · rename_i hsome
    exact ⟨hunmoved,rfl,by simpa using hsome⟩
  · rename_i hnone
    have hempty : new = [] := not_not.mp hnone
    rw [hempty, List.append_nil]
    split
    · exact ⟨hunmoved,rfl,by simp⟩
    · exact ⟨hunmoved,rfl,by simp⟩

/-- The session is woken exactly for a listed task whose id is not in the file. -/
theorem poll_wakes_iff : (poll settings p clock link w s).1 = some 2 ↔
    ∃ id, lists link w s.tasks id = true ∧ Nat.toDigits 10 id ∉ w.seenFile := by
  rw [(poll_eq settings p clock link w s).2.2]
  cases hlistens : listens link w with
  | true =>
    rw [if_pos rfl]
    constructor
    · intro hsome
      obtain ⟨name,hname⟩ := List.exists_mem_of_ne_nil _ hsome
      obtain ⟨⟨id,hqueued,rfl⟩,hnew⟩ := (mem_fresh_rows p w.seenFile s.tasks name).mp hname
      exact ⟨id,by rw [lists, hlistens, hqueued, Bool.true_and],hnew⟩
    · rintro ⟨id,hlists,hnew⟩
      rw [lists, hlistens, Bool.true_and] at hlists
      exact List.ne_nil_of_mem ((mem_fresh_rows p w.seenFile s.tasks _).mpr ⟨⟨id,hlists,rfl⟩,hnew⟩)
  | false => simp [lists, hlistens]

theorem mem_poll_seenFile (name : List Char) :
    name ∈ (poll settings p clock link w s).2.1.seenFile ↔ name ∈ w.seenFile ∨
      ∃ id, lists link w s.tasks id = true ∧ Nat.toDigits 10 id = name := by
  rw [(poll_eq settings p clock link w s).2.1, List.mem_append]
  cases hlistens : listens link w with
  | true =>
    rw [if_pos rfl, mem_fresh_rows]
    simp only [lists, hlistens, Bool.true_and]
    tauto
  | false => simp [lists, hlistens]

end

end Emma.WatchTasks

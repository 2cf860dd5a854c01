import Emma.Library.Attempts
import Emma.Library.Runs
import Emma.QueueMoves
import Emma.WatchTasks

/-!
# The watcher from its start to its exit

In either mode the watcher turns until the listing calls for the session or it has
waited long enough, while others move on the queue between its turns. What its exit
code says is settled by the listings that arrived.
-/

set_option autoImplicit false

namespace Emma.WatchLoop
open Emma.Tasks Emma.DevelopmentTools Emma.QueueScript Emma.QueueListing Emma.WatchTasks
open Runs

structure Turn where
  moves : List QueueMoves.Move
  touch : Bool
  list : Bool

structure Exit where
  code : ℕ
  printed : List Char
  deriving DecidableEq, Repr

structure Watch where
  seenFile : List (List Char)
  waited : ℕ
  stores : Stores

def finish (wakeOnWork : Bool) (defaultCode : ℕ) : Exit :=
  ⟨if wakeOnWork then 0 else defaultCode,[]⟩

def call (wakeOnWork : Bool) (seenFile : List (List Char)) (queued : List Char) :
    Option (Exit × List (List Char)) :=
  let squeezed := queued.filter fun c => !isBlank c
  if squeezed = [] ∨ squeezed = ['[',']'] then none
  else if wakeOnWork = false then some (⟨0,queued ++ ['\n']⟩,[])
  else if fresh seenFile queued ≠ [] then some (⟨2,queued ++ ['\n']⟩,fresh seenFile queued)
  else none

section
variable (settings : Settings) (wakeOnWork : Bool) (p : Printer) (clock : Clock)

def moved (turn : Turn) (s : Stores) : Stores :=
  after (fun s move => QueueMoves.Move.perform clock s move) turn.moves s

def turn (turns : ℕ → Turn) (n : ℕ) (w : Watch) : Option Exit × Watch :=
  let s := beat clock (turns n).touch (moved clock (turns n) w.stores)
  let (queued,s) := readQueue p clock (turns n).list s
  match queued.bind (call wakeOnWork w.seenFile) with
  | some (exit,new) => (some exit,⟨w.seenFile ++ new,w.waited,s⟩)
  | none =>
    if settings.maxWaitSeconds ≤ w.waited then (some (finish wakeOnWork 2),{ w with stores := s })
    else (none,⟨w.seenFile,w.waited+settings.pollSeconds,s⟩)

def watch (turns : ℕ → Turn) (fuel : ℕ) (start : Bool) (seenFile : List (List Char))
    (s : Stores) : Option Exit × Watch :=
  if start = false then (some (finish wakeOnWork 1),⟨seenFile,0,s⟩)
  else
    let (ended,w) := Attempts.run (turn settings wakeOnWork p clock turns) fuel 0
      ⟨seenFile,0,beat clock start s⟩
    (ended.map Prod.snd,w)

end

theorem call_hook (seenFile : List (List Char)) (queued : List Char) :
    call true seenFile queued = if fresh seenFile queued ≠ []
      then some (⟨2,queued ++ ['\n']⟩,fresh seenFile queued) else none := by
  rw [call]
  split
  · rename_i hblank
    rw [fresh, if_pos hblank]
    rfl
  · rw [if_neg (by simp)]

section
variable (settings : Settings) (p : Printer) (clock : Clock)

theorem turn_polls (turns : ℕ → Turn) (n : ℕ) (w : Watch) (link : Connection)
    (htouch : link.touch = (turns n).touch) (hlist : link.list = (turns n).list) :
    let one := poll settings p clock link ⟨w.seenFile,some w.waited⟩
      (moved clock (turns n) w.stores)
    let other := turn settings true p clock turns n w
    other.1.map Exit.code = one.1 ∧ other.2.seenFile = one.2.1.seenFile ∧
      other.2.stores = one.2.2 ∧ (one.1 = none → one.2.1.waited = some other.2.waited) := by
  have harmed : ¬(some w.waited = none ∧ link.start = false) := by simp
  rw [poll, if_neg harmed, turn]
  dsimp only [Option.getD_some]
  rw [if_neg (Option.some_ne_none w.waited), htouch, hlist]
  rcases readQueue p clock (turns n).list
    (beat clock (turns n).touch (moved clock (turns n) w.stores)) with ⟨queued,s⟩
  have hcall : queued.bind (call true w.seenFile) =
      if fresh w.seenFile (queued.getD []) ≠ []
        then some (⟨2,queued.getD [] ++ ['\n']⟩,fresh w.seenFile (queued.getD [])) else none := by
    cases queued with
    | none => rfl
    | some queued => exact call_hook w.seenFile queued
  dsimp only
  rw [hcall]
  by_cases hnew : fresh w.seenFile (queued.getD []) ≠ []
  · rw [if_pos hnew, if_pos hnew]
    exact ⟨rfl,rfl,rfl,by simp⟩
  · rw [if_neg hnew, if_neg hnew]
    dsimp only
    split
    · exact ⟨rfl,rfl,rfl,by simp⟩
    · exact ⟨rfl,rfl,rfl,fun _ => rfl⟩

def Called (wakeOnWork : Bool) (seenFile : List (List Char)) (t : TaskTable) : Prop :=
  ∃ id, isQueued t id = true ∧ (wakeOnWork = true → Nat.toDigits 10 id ∉ seenFile)

theorem isQueued_some (t : TaskTable) : (∃ id, isQueued t id = true) ↔ queued t ≠ [] := by
  constructor
  · rintro ⟨id,hqueued⟩
    rw [isQueued, Option.any_eq_true] at hqueued
    obtain ⟨task,hfind,hstatus⟩ := hqueued
    exact List.ne_nil_of_mem (List.mem_filter.mpr ⟨(t.find_iff id task).mp hfind,hstatus⟩)
  · intro hsome
    obtain ⟨⟨id,task⟩,hrow⟩ := List.exists_mem_of_ne_nil _ hsome
    obtain ⟨hmem,hstatus⟩ := List.mem_filter.mp hrow
    refine ⟨id,?_⟩
    rw [isQueued, (t.find_iff id task).mpr hmem]
    exact hstatus

/-- The listing calls in the default mode where there is any row. -/
theorem call_default (seenFile : List (List Char)) (found : List (ℕ × Task)) :
    call false seenFile (chomp (p.rows found)) =
      if found = [] then none else some (⟨0,chomp (p.rows found) ++ ['\n']⟩,[]) := by
  cases found with
  | nil => rfl
  | cons row found =>
    have hrows : ∃ rest, (chomp (p.rows (row::found))).filter (fun c => !isBlank c) =
        '[' :: '{' :: rest := by
      rw [p.chomp_rows]
      exact ⟨_,rfl⟩
    obtain ⟨rest,hrest⟩ := hrows
    rw [call, hrest]
    simp

/-- What a listing that arrives makes the watcher print and remember. -/
theorem call_rows (wakeOnWork : Bool) (seenFile : List (List Char)) (t : TaskTable) :
    let listing := chomp (p.rows (queued t))
    (Called wakeOnWork seenFile t → call wakeOnWork seenFile listing =
      some (⟨if wakeOnWork then 2 else 0,listing ++ ['\n']⟩,
        if wakeOnWork then fresh seenFile listing else [])) ∧
    (¬Called wakeOnWork seenFile t → call wakeOnWork seenFile listing = none) := by
  intro listing
  cases wakeOnWork with
  | false =>
    have hcalled : Called false seenFile t ↔ queued t ≠ [] := by simp [Called, ← isQueued_some]
    rw [hcalled, call_default]
    constructor
    · intro hsome
      rw [if_neg hsome]
      rfl
    · intro hnone
      rw [if_pos (not_not.mp hnone)]
  | true =>
    have hcalled : Called true seenFile t ↔ fresh seenFile listing ≠ [] := by
      constructor
      · rintro ⟨id,hqueued,hunseen⟩
        exact List.ne_nil_of_mem
          ((mem_fresh_rows p seenFile t _).mpr ⟨⟨id,hqueued,rfl⟩,hunseen rfl⟩)
      · intro hsome
        obtain ⟨name,hname⟩ := List.exists_mem_of_ne_nil _ hsome
        obtain ⟨⟨id,hqueued,rfl⟩,hunseen⟩ := (mem_fresh_rows p seenFile t name).mp hname
        exact ⟨id,hqueued,fun _ => hunseen⟩
    rw [hcalled, call_hook]
    constructor
    · intro hsome
      rw [if_pos hsome]
      rfl
    · intro hnone
      rw [if_neg hnone]

end

section
variable (settings : Settings) (wakeOnWork : Bool) (p : Printer) (clock : Clock)
  (turns : ℕ → Turn)

def tasksAt (n : ℕ) (w : Watch) : TaskTable := (moved clock (turns n) w.stores).tasks

def Calls (n : ℕ) (w : Watch) : Prop :=
  (turns n).list = true ∧ Called wakeOnWork w.seenFile (tasksAt clock turns n w)

theorem turn_reads (n : ℕ) (w : Watch) :
    (readQueue p clock (turns n).list
        (beat clock (turns n).touch (moved clock (turns n) w.stores))).1 =
      if (turns n).list then some (chomp (p.rows (queued (tasksAt clock turns n w))))
      else none := by
  cases (turns n).list with
  | false => rfl
  | true =>
    rw [(readQueue_eq p clock _).1, beat_tasks]
    rfl

theorem turn_calls (n : ℕ) (w : Watch) (h : Calls wakeOnWork clock turns n w) :
    let listing := chomp (p.rows (queued (tasksAt clock turns n w)))
    (turn settings wakeOnWork p clock turns n w).1 =
        some ⟨if wakeOnWork then 2 else 0,listing ++ ['\n']⟩ ∧
      (turn settings wakeOnWork p clock turns n w).2.seenFile =
        w.seenFile ++ if wakeOnWork then fresh w.seenFile listing else [] := by
  intro listing
  obtain ⟨hlist,hcalled⟩ := h
  have hread := turn_reads p clock turns n w
  have hcall := (call_rows p wakeOnWork w.seenFile (tasksAt clock turns n w)).1 hcalled
  rw [turn]
  dsimp only
  rw [hread, hlist, if_pos rfl, Option.bind_some, hcall]
  exact ⟨rfl,rfl⟩

/-- A turn that nothing calls in leaves the file alone, and goes on until it was long
enough. -/
theorem turn_quiet (n : ℕ) (w : Watch) (h : ¬Calls wakeOnWork clock turns n w) :
    (turn settings wakeOnWork p clock turns n w).1 =
        (if settings.maxWaitSeconds ≤ w.waited then some (finish wakeOnWork 2) else none) ∧
      (turn settings wakeOnWork p clock turns n w).2.seenFile = w.seenFile ∧
      (w.waited < settings.maxWaitSeconds → (turn settings wakeOnWork p clock turns n w).2.waited =
        w.waited+settings.pollSeconds) := by
  have hcall : (readQueue p clock (turns n).list
      (beat clock (turns n).touch (moved clock (turns n) w.stores))).1.bind
        (call wakeOnWork w.seenFile) = none := by
    rw [turn_reads]
    cases hlist : (turns n).list with
    | false => rfl
    | true =>
      rw [if_pos rfl, Option.bind_some]
      exact (call_rows p wakeOnWork w.seenFile (tasksAt clock turns n w)).2
        fun hcalled => h ⟨hlist,hcalled⟩
  rw [turn]
  dsimp only
  rw [hcall]
  dsimp only
  split
  · rename_i hlong
    exact ⟨rfl,rfl,fun hshort => absurd hlong (Nat.not_le.mpr hshort)⟩
  · exact ⟨rfl,rfl,fun _ => rfl⟩

def pauses : ℕ := (settings.maxWaitSeconds+settings.pollSeconds-1)/settings.pollSeconds

theorem lt_pauses_iff (n : ℕ) :
    n < pauses settings ↔ n*settings.pollSeconds < settings.maxWaitSeconds := by
  have hpoll := settings.pollSeconds_pos
  rw [pauses, ← Nat.succ_le_iff, Nat.le_div_iff_mul_le hpoll, Nat.succ_mul]
  omega

/-- What the first turns leave, where nothing calls in any of them. -/
theorem quiet_left (seenFile : List (List Char)) (s : Stores) (n : ℕ) (hn : n ≤ pauses settings)
    (h : let left := Attempts.left (turn settings wakeOnWork p clock turns) 0 ⟨seenFile,0,s⟩
      ∀ m < n, ¬Calls wakeOnWork clock turns m (left m)) :
    let left := Attempts.left (turn settings wakeOnWork p clock turns) 0 ⟨seenFile,0,s⟩
    (left n).seenFile = seenFile ∧ (left n).waited = n*settings.pollSeconds ∧
      ∀ m < n, (turn settings wakeOnWork p clock turns m (left m)).1 = none := by
  intro left
  induction n with
  | zero => exact ⟨rfl,(Nat.zero_mul _).symm,fun m hm => absurd hm (Nat.not_lt_zero m)⟩
  | succ n ih =>
    obtain ⟨hseen,hwaited,hnone⟩ := ih (Nat.le_of_succ_le hn)
      fun m hm => h m (Nat.lt_succ_of_lt hm)
    obtain ⟨hresult,hfile,hlonger⟩ := turn_quiet settings wakeOnWork p clock turns n (left n)
      (h n (Nat.lt_succ_self n))
    have hshort : (left n).waited < settings.maxWaitSeconds := by
      rw [hwaited]
      exact (lt_pauses_iff settings n).mp hn
    have hnext : left (n+1) = (turn settings wakeOnWork p clock turns n (left n)).2 := by
      show (turn settings wakeOnWork p clock turns (0+n) (left n)).2 = _
      rw [Nat.zero_add]
    refine ⟨?_,?_,?_⟩
    · rw [hnext, hfile, hseen]
    · rw [hnext, hlonger hshort, hwaited, Nat.succ_mul]
    · intro m hm
      rcases Nat.lt_succ_iff_lt_or_eq.mp hm with hless | rfl
      · exact hnone m hless
      · rw [hresult, if_neg (Nat.not_le.mpr hshort)]

/-- The watcher ends within a turn more than it can sleep. Where the queue cannot be
reached at its start it says so, and otherwise its code tells whether a listing
arrived that calls: of the first one that does it prints the rows, and in hook mode it
remembers what was new in them. -/
theorem watch_ends (start : Bool) (seenFile : List (List Char)) (s : Stores) :
    let left := Attempts.left (turn settings wakeOnWork p clock turns) 0
      ⟨seenFile,0,beat clock start s⟩
    let calls := fun n => Calls wakeOnWork clock turns n (left n)
    ∃ exit w, watch settings wakeOnWork p clock turns (pauses settings+1) start seenFile s =
        (some exit,w) ∧
      (start = false ∧ exit = finish wakeOnWork 1 ∧ w.seenFile = seenFile ∨
        start = true ∧ (∀ n ≤ pauses settings, ¬calls n) ∧ exit = finish wakeOnWork 2 ∧
          w.seenFile = seenFile ∨
        start = true ∧ ∃ n ≤ pauses settings, calls n ∧ (∀ m < n, ¬calls m) ∧
          let listing := chomp (p.rows (queued (tasksAt clock turns n (left n))))
          exit = ⟨if wakeOnWork then 2 else 0,listing ++ ['\n']⟩ ∧
            w.seenFile = seenFile ++ if wakeOnWork then fresh seenFile listing else []) := by
  intro left calls
  cases start with
  | false => exact ⟨_,_,rfl,.inl ⟨rfl,rfl,rfl⟩⟩
  | true =>
    have hrun : ∀ n ≤ pauses settings, ∀ exit w, turn settings wakeOnWork p clock turns n (left n) =
        (some exit,w) → (∀ m < n, (turn settings wakeOnWork p clock turns m (left m)).1 = none) →
        watch settings wakeOnWork p clock turns (pauses settings+1) true seenFile s =
          (some exit,w) := by
      intro n hn exit w hturn hbefore
      have hattempts := (Attempts.run_eq_iff (turn settings wakeOnWork p clock turns)
        (pauses settings+1) 0 ⟨seenFile,0,beat clock true s⟩ w n exit).mpr
        ⟨n,Nat.lt_succ_of_le hn,(Nat.zero_add n).symm,by rw [Nat.zero_add]; exact hturn,
          fun m hm => by rw [Nat.zero_add]; exact hbefore m hm⟩
      rw [watch, if_neg (by simp), hattempts]
      rfl
    by_cases hcalls : ∃ n, n ≤ pauses settings ∧ calls n
    · classical
      obtain ⟨hn,hfirst⟩ := Nat.find_spec hcalls
      have hbefore : ∀ m < Nat.find hcalls, ¬calls m := by
        intro m hm hearlier
        exact Nat.find_min hcalls hm ⟨hm.le.trans hn,hearlier⟩
      generalize Nat.find hcalls = n at hn hfirst hbefore
      obtain ⟨hseen,-,hnone⟩ := quiet_left settings wakeOnWork p clock turns seenFile
        (beat clock true s) n hn hbefore
      obtain ⟨hexit,hfile⟩ := turn_calls settings wakeOnWork p clock turns n (left n) hfirst
      refine ⟨_,_,hrun n hn _ _ (Prod.ext hexit rfl) hnone,
        .inr (.inr ⟨rfl,n,hn,hfirst,hbefore,rfl,?_⟩)⟩
      rw [hfile, hseen]
    · have hquiet : ∀ n ≤ pauses settings, ¬calls n := fun n hn hcall => hcalls ⟨n,hn,hcall⟩
      obtain ⟨hseen,hwaited,hnone⟩ := quiet_left settings wakeOnWork p clock turns seenFile
        (beat clock true s) (pauses settings) (le_refl _) fun m hm => hquiet m hm.le
      obtain ⟨hexit,hfile,-⟩ := turn_quiet settings wakeOnWork p clock turns (pauses settings)
        (left (pauses settings)) (hquiet _ (le_refl _))
      have hlong : settings.maxWaitSeconds ≤ (left (pauses settings)).waited := by
        rw [hwaited]
        exact Nat.not_lt.mp fun h => lt_irrefl _ ((lt_pauses_iff settings _).mpr h)
      rw [if_pos hlong] at hexit
      refine ⟨_,_,hrun _ (le_refl _) _ _ (Prod.ext hexit rfl) hnone,
        .inr (.inl ⟨rfl,hquiet,rfl,?_⟩)⟩
      rw [hfile, hseen]

end
end Emma.WatchLoop

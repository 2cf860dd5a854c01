import Emma.SqliteMemory

/-!
# One window, two stores

Any run of calls leaves either store showing the same thing: the window of
everything ever appended to the conversation. The log is only a figure of
speech of the statement; neither store keeps it.
-/

set_option autoImplicit false

namespace Emma.MemoryWindow
open FaultyProgram Emma.Python Emma.ConversationMemory Emma.DatabaseFiles Emma.SelfRepair
open Emma.SqliteMemory SlidingWindow

inductive Operation where
  | append (c : ConversationId) (message : StoredMessage)
  | prune (c : ConversationId)
  | getHistory (c : ConversationId)
  deriving DecidableEq, Repr

/-- Everything ever appended to a conversation, oldest first. -/
def log (c : ConversationId) : List Operation → List StoredMessage
  | [] => []
  | .append d message::rest => if d = c then message::log c rest else log c rest
  | _::rest => log c rest

def inMemoryStep (memory : InMemoryConversationMemory) : Operation → InMemoryConversationMemory
  | .append c message => memory.append c message
  | .prune c => memory.prune c
  | .getHistory _ => memory

def inMemoryRun (ops : List Operation) (memory : InMemoryConversationMemory) :
    InMemoryConversationMemory :=
  ops.foldl inMemoryStep memory

theorem inMemoryStep_maxMessages (memory : InMemoryConversationMemory) (op : Operation) :
    (inMemoryStep memory op).maxMessages = memory.maxMessages := by
  cases op with
  | append c message => exact memory.append_maxMessages c message
  | prune c =>
    rw [inMemoryStep, InMemoryConversationMemory.prune, InMemoryConversationMemory.pruneLocked_eq]
  | getHistory c => rfl

/-- A store that shows the window of a log shows the window of the longer log
after any further calls. -/
theorem inMemoryRun_shows (ops : List Operation) (memory : InMemoryConversationMemory)
    (before : ConversationId → List StoredMessage)
    (h : ∀ c, memory.getHistory c = shown memory.maxMessages (before c)) (c : ConversationId) :
    (inMemoryRun ops memory).getHistory c = shown memory.maxMessages (before c ++ log c ops) := by
  induction ops generalizing memory before with
  | nil => simpa [inMemoryRun, log] using h c
  | cons op rest ih =>
    have hmax := inMemoryStep_maxMessages memory op
    have hstep := ih (inMemoryStep memory op) fun d => before d ++ log d [op]
    rw [hmax] at hstep
    have hshows : ∀ d, (inMemoryStep memory op).getHistory d =
        shown memory.maxMessages (before d ++ log d [op]) := by
      intro d
      cases op with
      | append e message =>
        rw [inMemoryStep, InMemoryConversationMemory.getHistory_append]
        by_cases hd : d = e
        · subst hd
          simp only [if_true, log, h]
          exact window_window_append isUser _ _ _
        · simp [hd, log, h, Ne.symm hd]
      | prune e =>
        rw [inMemoryStep, InMemoryConversationMemory.getHistory_prune]
        by_cases hd : d = e
        · subst hd
          simp [h, log, shown]
        · simp [hd, log, h]
      | getHistory e => simpa [inMemoryStep, log] using h d
    have hrest := hstep hshows
    have hlog : log c [op] ++ log c rest = log c (op::rest) := by
      cases op with
      | append e message => by_cases he : e = c <;> simp [log, he]
      | prune e => rfl
      | getHistory e => rfl
    rw [List.append_assoc, hlog] at hrest
    exact hrest

/-- The persistent store can also be closed and opened again. -/
inductive SqliteOperation where
  | call (op : Operation) (now : ℚ)
  | reopen (stamp : String)

def calls : List SqliteOperation → List Operation
  | [] => []
  | .call op _::rest => op::calls rest
  | .reopen _::rest => calls rest

def sqliteStep (parent : String) (maxMessages : ℕ+) :
    SqliteOperation → Action MessageTable Unit
  | .call (.append c message) now => append maxMessages c message now
  | .call (.prune c) _ => prune maxMessages c
  | .call (.getHistory c) _ => do let _ ← getHistory c
  | .reopen stamp => do
    closeMemory
    openMemory parent stamp

def sqliteRun (parent : String) (maxMessages : ℕ+) :
    List SqliteOperation → Action MessageTable Unit
  | [] => pure ()
  | op::rest => do
    sqliteStep parent maxMessages op
    sqliteRun parent maxMessages rest

/-- The persistent store shows the window of a log in every conversation. -/
def Shows (maxMessages : ℕ+) (before : ConversationId → List StoredMessage)
    (m : Machine MessageTable) : Prop :=
  ∃ t, Serving m t ∧ ∀ c, history c t = shown maxMessages (before c)

theorem sqliteStep_shows (parent : String) (maxMessages : ℕ+) (op : SqliteOperation)
    (m : Machine MessageTable) (before : ConversationId → List StoredMessage)
    (h : Shows maxMessages before m) :
    ∃ m', sqliteStep parent maxMessages op smooth m = (.returned (),m') ∧
      Shows maxMessages (fun c => before c ++ log c (calls [op])) m' := by
  obtain ⟨t,hserving,hshown⟩ := h
  have hview := serving_view hserving
  cases op with
  | reopen stamp =>
    obtain ⟨m',hopen,hserving'⟩ := opened_serving parent stamp (rotated m t).restarted
    have hsame : served (rotated m t).restarted.files = t := by
      have hd : (rotated m t).files .database = some (.healthy t) := hserving.2
      simp [served, hd, isHealthy]
    rw [hsame] at hserving'
    refine ⟨m',?_,t,hserving',fun c => by simpa [calls, log] using hshown c⟩
    rw [sqliteStep, bind_returned (closeMemory_smooth m t hserving), hopen]
  | call op now =>
    cases op with
    | append e message =>
      refine ⟨_,append_smooth maxMessages e message now m t hview,_,committed_serving _ _,?_⟩
      intro c
      rw [appended, history_pruned]
      by_cases hc : c = e
      · subst hc
        rw [if_pos rfl, history_insert, if_pos rfl, hshown]
        simpa [calls, log] using window_window_append isUser maxMessages (before c) [message]
      · rw [if_neg hc, history_insert, if_neg hc, hshown]
        simp [calls, log, Ne.symm hc]
    | prune e =>
      refine ⟨_,prune_smooth maxMessages e m t hview,_,committed_serving _ _,?_⟩
      intro c
      rw [history_pruned]
      by_cases hc : c = e
      · subst hc
        simp [hshown, calls, log, shown]
      · simp [hc, hshown, calls, log]
    | getHistory e =>
      refine ⟨m,?_,t,hserving,fun c => by simpa [calls, log] using hshown c⟩
      rw [sqliteStep, bind_returned (getHistory_smooth e m t hview)]
      rfl

theorem log_append (c : ConversationId) (ops rest : List Operation) :
    log c (ops++rest) = log c ops ++ log c rest := by
  induction ops with
  | nil => rfl
  | cons op ops ih =>
    cases op with
    | append e message => by_cases he : e = c <;> simp [log, he, ih]
    | prune e => exact ih
    | getHistory e => exact ih

theorem calls_cons (op : SqliteOperation) (rest : List SqliteOperation) :
    calls (op::rest) = calls [op] ++ calls rest := by
  cases op <;> rfl

theorem sqliteRun_shows (parent : String) (maxMessages : ℕ+) (ops : List SqliteOperation)
    (m : Machine MessageTable) (before : ConversationId → List StoredMessage)
    (h : Shows maxMessages before m) :
    ∃ m', sqliteRun parent maxMessages ops smooth m = (.returned (),m') ∧
      Shows maxMessages (fun c => before c ++ log c (calls ops)) m' := by
  induction ops generalizing m before with
  | nil => exact ⟨m,rfl,by simpa [calls, log] using h⟩
  | cons op rest ih =>
    obtain ⟨m1,hrun1,hshows1⟩ := sqliteStep_shows parent maxMessages op m before h
    obtain ⟨m2,hrun2,hshows2⟩ := ih m1 _ hshows1
    refine ⟨m2,?_,?_⟩
    · rw [sqliteRun, bind_returned hrun1, hrun2]
    · simpa only [calls_cons op rest, log_append, List.append_assoc] using hshows2

def pristine {σ : Type} : Machine σ := ⟨fun _ => none,none⟩

/-- What the persistent store answers after a run that starts with no files. -/
def sqliteAnswer (parent stamp : String) (maxMessages : ℕ+) (ops : List SqliteOperation)
    (c : ConversationId) : Action MessageTable (List StoredMessage) := do
  openMemory parent stamp
  sqliteRun parent maxMessages ops
  getHistory c

theorem both_stores_show_the_window (parent stamp : String) (maxMessages : ℕ+)
    (ops : List SqliteOperation) (c : ConversationId) :
    (inMemoryRun (calls ops) (.create maxMessages)).getHistory c =
      shown maxMessages (log c (calls ops)) ∧
    (sqliteAnswer parent stamp maxMessages ops c smooth pristine).1 =
      .returned (shown maxMessages (log c (calls ops))) := by
  constructor
  · have h := inMemoryRun_shows (calls ops) (.create maxMessages) (fun _ => [])
      (fun _ => (window_nil isUser _).symm) c
    exact h
  · obtain ⟨m1,hopen,hserving⟩ := opened_serving parent stamp (pristine : Machine MessageTable)
    have hempty : Shows maxMessages (fun _ => []) m1 :=
      ⟨_,hserving,fun _ => (window_nil isUser _).symm⟩
    obtain ⟨m2,hrun,t,hserving2,hshown⟩ := sqliteRun_shows parent maxMessages ops m1 _ hempty
    rw [sqliteAnswer, bind_returned hopen, bind_returned hrun,
      getHistory_smooth c m2 t (serving_view hserving2), hshown]
    rfl

end Emma.MemoryWindow

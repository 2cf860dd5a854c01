import Emma.MemoryWindow
import Emma.Orchestrator

/-!
# Stores that do not fail

Seen from the router a working store answers with the window of what was
appended to a conversation, and an append is felt in that conversation alone.
Both implementations are such stores, from any state their calls can reach.
-/

set_option autoImplicit false

namespace Emma.WorkingStores
open FaultyProgram Emma.Python Emma.ConversationMemory Emma.DatabaseFiles Emma.SqliteMemory
open Emma.MemoryWindow Emma.Orchestrator

abbrev Log := ConversationId → List StoredMessage

def extended (before : Log) (c : ConversationId) (message : StoredMessage) : Log :=
  fun d => if d = c then before d ++ [message] else before d

structure WorkingStore (maxMessages : ℕ+) (μ : Type) extends Store μ where
  Holds : μ → Log → Prop
  shows : ∀ memory before c, Holds memory before →
    getHistory c memory = .ok (shown maxMessages (before c))
  appends : ∀ memory before c message now, Holds memory before →
    ∃ memory', append c message now memory = (.ok (),memory') ∧
      Holds memory' (extended before c message)

def inMemoryStore : Store InMemoryConversationMemory where
  getHistory c memory := .ok (memory.getHistory c)
  append c message _ memory := (.ok (),memory.append c message)

def outcome {α : Type} : Exit PyError α → Outcome α
  | .returned a => .ok a
  | .raised e => .error e.text
  | .killed => .error ""

def sqliteStore (maxMessages : ℕ+) (plan : Plan Call) : Store (Machine MessageTable) where
  getHistory c m := outcome (getHistory c plan m).1
  append c message now m :=
    (outcome (append maxMessages c message now plan m).1,
      (append maxMessages c message now plan m).2)

def workingInMemory (maxMessages : ℕ+) : WorkingStore maxMessages InMemoryConversationMemory where
  toStore := inMemoryStore
  Holds memory before := memory.maxMessages = maxMessages ∧
    ∀ c, memory.getHistory c = shown maxMessages (before c)
  shows memory before c h := congrArg Except.ok (h.2 c)
  appends memory before c message now h := by
    obtain ⟨hmax,hshows⟩ := h
    refine ⟨memory.append c message,rfl,(memory.append_maxMessages c message).trans hmax,?_⟩
    intro d
    rw [memory.getHistory_append, hmax]
    by_cases hd : d = c
    · subst hd
      simp only [if_true, extended, hshows]
      exact SlidingWindow.window_window_append isUser _ _ _
    · simp [extended, hd, hshows]

def workingSqlite (maxMessages : ℕ+) : WorkingStore maxMessages (Machine MessageTable) where
  toStore := sqliteStore maxMessages smooth
  Holds m before := Shows maxMessages before m
  shows m before c h := by
    obtain ⟨t,hserving,hshown⟩ := h
    simp [sqliteStore, getHistory_smooth c m t (serving_view hserving), outcome, hshown]
  appends m before c message now h := by
    obtain ⟨m',hrun,hshows⟩ := sqliteStep_shows "" maxMessages (.call (.append c message) now) m
      before h
    have hlog : (fun d => before d ++ log d (calls [.call (.append c message) now])) =
        extended before c message := by
      funext d
      by_cases hd : d = c
      · simp [calls, log, extended, hd]
      · simp [calls, log, extended, hd, Ne.symm hd]
    rw [hlog] at hshows
    refine ⟨m',?_,hshows⟩
    rw [sqliteStep] at hrun
    simp [sqliteStore, hrun, outcome]

theorem workingInMemory_reaches (maxMessages : ℕ+) (ops : List Operation) :
    (workingInMemory maxMessages).Holds (inMemoryRun ops (.create maxMessages))
      fun c => log c ops := by
  constructor
  · have hkept : ∀ memory : InMemoryConversationMemory,
        (inMemoryRun ops memory).maxMessages = memory.maxMessages := by
      induction ops with
      | nil => exact fun _ => rfl
      | cons op rest ih =>
        exact fun memory => (ih _).trans (inMemoryStep_maxMessages memory op)
    exact hkept _
  · have hempty : ∀ c, (InMemoryConversationMemory.create maxMessages).getHistory c =
        shown maxMessages [] := fun _ => (SlidingWindow.window_nil isUser _).symm
    exact inMemoryRun_shows ops (.create maxMessages) (fun _ => []) hempty

theorem workingSqlite_reaches (parent stamp : String) (maxMessages : ℕ+)
    (ops : List SqliteOperation) : ∃ opened m,
      SelfRepair.openMemory parent stamp smooth pristine = (.returned (),opened) ∧
      sqliteRun parent maxMessages ops smooth opened = (.returned (),m) ∧
      (workingSqlite maxMessages).Holds m fun c => log c (calls ops) := by
  obtain ⟨opened,hopen,hserving⟩ :=
    SelfRepair.opened_serving parent stamp (pristine : Machine MessageTable)
  have hempty : Shows maxMessages (fun _ => []) opened :=
    ⟨_,hserving,fun _ => (SlidingWindow.window_nil isUser _).symm⟩
  obtain ⟨m,hrun,hshows⟩ := sqliteRun_shows parent maxMessages ops opened _ hempty
  have hlog : (fun c => [] ++ log c (calls ops)) = fun c => log c (calls ops) := rfl
  exact ⟨opened,m,hopen,hrun,hlog ▸ hshows⟩

end Emma.WorkingStores

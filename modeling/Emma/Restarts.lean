import Emma.Conversations
import Emma.Library.Runs

/-!
# Restarts, and one store for another

A process serves its conversations until it ends, by closing its store or by a
kill, and the next one opens the store again. The turns that were under way are
lost with the process, and so is its tally. What the store kept is all that is
left, so a process on the persistent store is compared with one on a store that
needs no opening.
-/

set_option autoImplicit false

namespace Emma.Restarts
open FaultyProgram Runs Emma.ConversationMemory Emma.LanguageModel Emma.Orchestrator
open Emma.DatabaseFiles Emma.SelfRepair Emma.SqliteMemory Emma.MemoryWindow Emma.WorkingStores
open Emma.TurnMemory Emma.TurnScript Emma.Conversations

section
variable {ω μ ν : Type}

def on (r : Router ω μ) (memory : Store ν) : Router ω ν where
  llm := r.llm
  memory := memory
  systemPrompt := r.systemPrompt
  tools := r.tools
  contextProviders := r.contextProviders
  toolGate := r.toolGate
  maxToolIterations := r.maxToolIterations
  clock := r.clock
  distinct := r.distinct

inductive Ending where
  | closed (stamp : String)
  | killed (stamp : String)

inductive Moment where
  | acts (c : ConversationId)
  | restarts (ending : Ending)

def restarted (reopened : Ending → ν → ν) (ending : Ending) (s : Together ω ν) : Together ω ν :=
  (fun c => { s.1 c with current := none },⟨⟨0,0,none,none⟩,reopened ending s.2.memory⟩)

/-- An ending falls between two calls of the store. Within an append it may leave the new
row there before the old ones are deleted, and is not considered. -/
def step (r : Router ω ν) (reopened : Ending → ν → ν) (s : Together ω ν) : Moment → Together ω ν
  | .acts c => Interleaving.step (act r.memory r) s c
  | .restarts ending => restarted reopened ending s

/-- `close()`, or no more than the files being there, and then `open()`. -/
def reopenedSqlite (parent : String) (ending : Ending) (m : Machine MessageTable) :
    Machine MessageTable :=
  match ending with
  | .closed stamp => ((do closeMemory; openMemory parent stamp) smooth m).2
  | .killed stamp => (openMemory parent stamp smooth m.restarted).2

/-- A store that an ending cannot touch. -/
def untouched (_ : Ending) (memory : ν) : ν := memory

structure Alike {maxMessages : ℕ+} (store : WorkingStore maxMessages μ)
    (store' : WorkingStore maxMessages ν) (s : Together ω μ) (t : Together ω ν) : Prop where
  conversations : s.1 = t.1
  stats : s.2.stats = t.2.stats
  holds : ∃ log, store.Holds s.2.memory log ∧ store'.Holds t.2.memory log

/-! The calls a turn makes do not depend on the store that answers them. -/

theorem executeTools_on (r : Router ω μ) (memory : Store ν) (uses : List ToolUseBlock) :
    Script.executeTools (on r memory) uses = Script.executeTools r uses := by
  induction uses with
  | nil => rfl
  | cons use rest ih =>
    rw [Script.executeTools, Script.executeTools, ih]
    rfl

theorem agenticLoop_on (r : Router ω μ) (memory : Store ν) (system : String) (left : ℕ)
    (messages : List Message) :
    Script.agenticLoop (on r memory) system left messages =
      Script.agenticLoop r system left messages := by
  induction left generalizing messages with
  | zero => rfl
  | succ left ih =>
    rw [Script.agenticLoop, Script.agenticLoop]
    simp only [ih, executeTools_on]
    rfl

theorem handle_on (r : Router ω μ) (memory : Store ν) (request : AssistantRequest) :
    Script.handle (on r memory) request = Script.handle r request := by
  rw [Script.handle, Script.handle]
  simp only [show (on r memory).maxToolIterations = r.maxToolIterations from rfl, agenticLoop_on]
  rfl

theorem act_alike {maxMessages : ℕ+} {store : WorkingStore maxMessages μ}
    {store' : WorkingStore maxMessages ν} (r : Router ω μ) (hr : r.memory = store.toStore)
    (s : Together ω μ) (t : Together ω ν) (c : ConversationId) (h : Alike store store' s t) :
    Alike store store' (Interleaving.step (act r.memory r) s c)
      (Interleaving.step (act store'.toStore (on r store'.toStore)) t c) := by
  obtain ⟨locals,stats,memory⟩ := s
  obtain ⟨locals',stats',memory'⟩ := t
  obtain ⟨hlocals,hstats,log,hholds,hholds'⟩ := h
  obtain rfl : locals = locals' := hlocals
  obtain rfl : stats = stats' := hstats
  rw [hr]
  unfold Interleaving.step
  dsimp only
  have hshown := store.shows memory log c hholds
  have hshown' := store'.shows memory' log c hholds'
  rcases hlocal : locals c with ⟨waiting,_ | script,world,asked,answered⟩
  · rcases waiting with _ | ⟨⟨text,userId⟩,rest⟩
    · exact ⟨rfl,rfl,log,hholds,hholds'⟩
    · refine ⟨?_,rfl,log,hholds,hholds'⟩
      simp only [act, handle_on]
  cases script with
  | getHistory next =>
    refine ⟨?_,rfl,log,hholds,hholds'⟩
    simp only [act, hshown, hshown']
  | append message now next =>
    obtain ⟨after,happend,hafter⟩ := store.appends memory log c message now hholds
    obtain ⟨after',happend',hafter'⟩ := store'.appends memory' log c message now hholds'
    simp only [act, happend, happend']
    exact ⟨rfl,rfl,_,hafter,hafter'⟩
  | done result => exact ⟨rfl,rfl,log,hholds,hholds'⟩
  | complete request next => exact ⟨rfl,rfl,log,hholds,hholds'⟩
  | world change next => exact ⟨rfl,rfl,log,hholds,hholds'⟩
  | record reason now next => exact ⟨rfl,rfl,log,hholds,hholds'⟩

theorem step_alike {maxMessages : ℕ+} {store : WorkingStore maxMessages μ}
    {store' : WorkingStore maxMessages ν} (r : Router ω μ) (hr : r.memory = store.toStore)
    {reopened : Ending → μ → μ}
    (hreopened : ∀ ending memory log, store.Holds memory log →
      store.Holds (reopened ending memory) log)
    (s : Together ω μ) (t : Together ω ν) (moment : Moment) (h : Alike store store' s t) :
    Alike store store' (step r reopened s moment)
      (step (on r store'.toStore) untouched t moment) := by
  cases moment with
  | acts c => exact act_alike r hr s t c h
  | restarts ending =>
    obtain ⟨hconversations,hstats,log,hholds,hholds'⟩ := h
    refine ⟨?_,rfl,log,hreopened ending _ log hholds,hholds'⟩
    funext c
    simp only [step, restarted, hconversations]

/-- However its process ends, the persistent store opens with what it held. -/
theorem reopened_holds (parent : String) (maxMessages : ℕ+) (ending : Ending)
    (m : Machine MessageTable) (log : Log) (h : Shows maxMessages log m) :
    Shows maxMessages log (reopenedSqlite parent ending m) := by
  cases ending with
  | closed stamp =>
    obtain ⟨m',hrun,hshows⟩ := sqliteStep_shows parent maxMessages (.reopen stamp) m log h
    have hsame : (fun c => log c ++ MemoryWindow.log c (calls [.reopen stamp])) = log := by
      funext c
      simp [calls, MemoryWindow.log]
    rw [hsame] at hshows
    rw [reopenedSqlite]
    rw [sqliteStep] at hrun
    rwa [hrun]
  | killed stamp =>
    obtain ⟨t,hserving,hshown⟩ := h
    obtain ⟨m',hopen,hserving'⟩ := opened_serving parent stamp m.restarted
    have hsame : served m.restarted.files = t := by
      simp [served, hserving.2, isHealthy]
    rw [hsame] at hserving'
    rw [reopenedSqlite, hopen]
    exact ⟨t,hserving',hshown⟩

/-- A process on the persistent store, ended and started again at any moments, is
to every conversation the process whose store remembers by itself. -/
theorem restarts_are_invisible (parent : String) (maxMessages : ℕ+)
    (r : Router ω (Machine MessageTable)) (hr : r.memory = sqliteStore maxMessages smooth)
    (m : Machine MessageTable) (memory : InMemoryConversationMemory) (log : Log)
    (hm : Shows maxMessages log m) (hmemory : (workingInMemory maxMessages).Holds memory log)
    (locals : ConversationId → Conversation ω) (stats : TurnStats) (moments : List Moment) :
    let persistent := after (step r (reopenedSqlite parent)) moments (locals,⟨stats,m⟩)
    let volatile := after (step (on r inMemoryStore) untouched) moments (locals,⟨stats,memory⟩)
    persistent.1 = volatile.1 ∧ persistent.2.stats = volatile.2.stats ∧
      ∀ c, r.memory.getHistory c persistent.2.memory =
        inMemoryStore.getHistory c volatile.2.memory := by
  have hstart : Alike (workingSqlite maxMessages) (workingInMemory maxMessages)
      (locals,⟨stats,m⟩) (locals,⟨stats,memory⟩) := ⟨rfl,rfl,log,hm,hmemory⟩
  have hend : Alike (workingSqlite maxMessages) (workingInMemory maxMessages)
      (after (step r (reopenedSqlite parent)) moments (locals,⟨stats,m⟩))
      (after (step (on r inMemoryStore) untouched) (moments.map id) (locals,⟨stats,memory⟩)) :=
    after_related id _
      (fun s t moment h => step_alike r hr (reopened_holds parent maxMessages) s t moment h)
      moments _ _ hstart
  rw [List.map_id] at hend
  obtain ⟨hconversations,hstats,last,hholds,hholds'⟩ := hend
  refine ⟨hconversations,hstats,fun c => ?_⟩
  rw [hr]
  exact ((workingSqlite maxMessages).shows _ last c hholds).trans
    ((workingInMemory maxMessages).shows _ last c hholds').symm

end

/-- Killed while one turn is under way, and closed while another is. -/
def interrupted : List Moment :=
  [.acts "1",.acts "2",.acts "1",.restarts (.killed "20261025-023000"),.acts "1",.acts "2",
    .restarts (.closed "20261025-023000"),.acts "2"]

theorem lobby_restarts_unseen : ∃ m : Machine MessageTable,
    (after (step (on moody (sqliteStore 20 smooth)) (reopenedSqlite "data")) interrupted
        ((lobby 20).1,⟨(lobby 20).2.stats,m⟩)).1 =
      (after (step (on moody inMemoryStore) untouched) interrupted (lobby 20)).1 := by
  obtain ⟨-,m,-,-,hm⟩ := workingSqlite_reaches "data" "20261025-023000" 20 []
  exact ⟨m,(restarts_are_invisible "data" 20 (on moody (sqliteStore 20 smooth)) rfl m (.create 20)
    (fun _ => []) hm (workingInMemory_reaches 20 []) (lobby 20).1 (lobby 20).2.stats
    interrupted).1⟩

end Emma.Restarts

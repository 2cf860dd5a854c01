import Emma.Library.Interleaving
import Emma.TurnMemory
import Emma.TurnScript

/-!
# Conversations side by side

One router and one store serve every conversation, and between two calls of one
turn any call of another may come. A conversation runs one turn at a time; its
model and its tools answer it out of a world of its own. The store is shared,
and so is the tally.
-/

set_option autoImplicit false

namespace Emma.Conversations
open Emma.Python Emma.ConversationMemory Emma.LanguageModel Emma.Orchestrator
open Emma.WorkingStores Emma.TurnMemory Emma.TurnScript Interleaving

section
variable {ω μ ν : Type}

/-- The texts still to be taken up come with their senders. What was asked of the
model and what was answered is kept, oldest first. -/
structure Conversation (ω : Type) where
  waiting : List (String × String)
  current : Option (Script ω (Except PyError AssistantResponse))
  world : ω
  asked : List LLMRequest
  answered : List (Except PyError AssistantResponse)

structure Shared (ν : Type) where
  stats : TurnStats
  memory : ν

def act (memory : Store ν) (r : Router ω μ) (c : ConversationId) :
    Conversation ω × Shared ν → Conversation ω × Shared ν
  | (own,shared) => match own.current with
    | none => match own.waiting with
      | [] => (own,shared)
      | (text,userId)::rest =>
        ({ own with waiting := rest, current := some (.handle r ⟨text,userId,c⟩) },shared)
    | some (.done result) =>
      ({ own with current := none, answered := own.answered ++ [result] },shared)
    | some (.getHistory next) =>
      ({ own with current := some (next (memory.getHistory c shared.memory)) },shared)
    | some (.append message now next) =>
      let (outcome,after) := memory.append c message now shared.memory
      ({ own with current := some (next outcome) },{ shared with memory := after })
    | some (.complete request next) =>
      let (reply,w) := r.llm request own.world
      ({ own with current := some (next reply), world := w, asked := own.asked ++ [request] },
        shared)
    | some (.world change next) =>
      ({ own with current := some (next own.world), world := change own.world },shared)
    | some (.record reason now next) =>
      ({ own with current := some next },
        { shared with stats := shared.stats.record reason now })

abbrev Together (ω ν : Type) := (ConversationId → Conversation ω) × Shared ν

def run (r : Router ω μ) (schedule : List ConversationId) (s : Together ω μ) : Together ω μ :=
  Interleaving.run (act r.memory r) schedule s

def Finished (own : Conversation ω) : Prop := own.current = none ∧ own.waiting = []

def logStore (maxMessages : ℕ+) : Store (List StoredMessage) where
  getHistory _ log := .ok (shown maxMessages log)
  append _ message _ log := (.ok (),log ++ [message])

def own (maxMessages : ℕ+) (r : Router ω μ) (c : ConversationId) :
    Conversation ω × List StoredMessage → Conversation ω × List StoredMessage
  | (conversation,log) =>
    let (conversation,shared) :=
      act (logStore maxMessages) r c (conversation,⟨⟨0,0,none,none⟩,log⟩)
    (conversation,shared.memory)

theorem extended_eq_update (before : Log) (c : ConversationId) (message : StoredMessage) :
    extended before c message = Function.update before c (before c ++ [message]) := by
  funext d
  by_cases h : d = c
  · subst h
    simp [extended]
  · simp [extended, h]

/-- On a store that works no conversation touches what belongs to another. -/
theorem acts_separate {maxMessages : ℕ+} (store : WorkingStore maxMessages μ) (r : Router ω μ)
    (hstore : r.memory = store.toStore) :
    Separate (act r.memory r) (fun shared log => store.Holds shared.memory log)
      (own maxMessages r) := by
  intro c conversation shared log hholds
  have hkept : Function.update log c (log c) = log := Function.update_eq_self c log
  rcases conversation with ⟨waiting,_ | script,world,asked,answered⟩
  · rcases waiting with _ | ⟨⟨text,userId⟩,rest⟩ <;>
      exact ⟨rfl,by simpa [act, own, hkept] using hholds⟩
  cases script with
  | getHistory next =>
    have hread := store.shows shared.memory log c hholds
    refine ⟨?_,by simpa [act, own, hkept] using hholds⟩
    simp only [act, own, hstore, hread, logStore]
  | append message now next =>
    obtain ⟨after,happend,hafter⟩ := store.appends shared.memory log c message now hholds
    rw [extended_eq_update] at hafter
    constructor
    · simp only [act, own, hstore, happend, logStore]
    · simpa only [act, own, hstore, happend, logStore] using hafter
  | done result => exact ⟨rfl,by simpa [act, own, hkept] using hholds⟩
  | complete request next => exact ⟨rfl,by simpa [act, own, hkept] using hholds⟩
  | world change next => exact ⟨rfl,by simpa [act, own, hkept] using hholds⟩
  | record reason now next => exact ⟨rfl,by simpa [act, own, hkept] using hholds⟩

/-- Left alone, a turn that was begun comes to the end of its script. -/
theorem script_ends (r : Router ω μ) (c : ConversationId)
    (script : Script ω (Except PyError AssistantResponse)) (conversation : Conversation ω)
    (shared : Shared μ) (hcurrent : conversation.current = some script) :
    ∃ n, (act r.memory r c)^[n] (conversation,shared) =
      let (result,s,asked) := script.finish r c ⟨shared.stats,shared.memory,conversation.world⟩
      ({ conversation with
          current := some (.done result), world := s.world, asked := conversation.asked ++ asked },
        ⟨s.stats,s.memory⟩) := by
  rcases conversation with ⟨waiting,current,world,asked,answered⟩
  obtain rfl : current = some script := hcurrent
  induction script generalizing world asked shared with
  | done result => exact ⟨0,by simp [Script.finish]⟩
  | getHistory next ih =>
    obtain ⟨n,hn⟩ := ih _ shared world asked
    exact ⟨n+1,hn⟩
  | append message now next ih =>
    obtain ⟨n,hn⟩ := ih (r.memory.append c message now shared.memory).1
      ⟨shared.stats,(r.memory.append c message now shared.memory).2⟩ world asked
    exact ⟨n+1,hn⟩
  | complete request next ih =>
    obtain ⟨n,hn⟩ := ih (r.llm request world).1 shared (r.llm request world).2
      (asked ++ [request])
    refine ⟨n+1,hn.trans ?_⟩
    simp [Script.finish]
  | world change next ih =>
    obtain ⟨n,hn⟩ := ih world shared (change world) asked
    exact ⟨n+1,hn⟩
  | record reason now next ih =>
    obtain ⟨n,hn⟩ := ih ⟨shared.stats.record reason now,shared.memory⟩ world asked
    exact ⟨n+1,hn⟩

def requests (c : ConversationId) (waiting : List (String × String)) : List AssistantRequest :=
  waiting.map fun (text,userId) => ⟨text,userId,c⟩

/-- What a conversation has come to when all its turns were run one after the other. -/
def afterTurns (r : Router ω μ) (c : ConversationId) (conversation : Conversation ω)
    (shared : Shared μ) : Conversation ω × Shared μ :=
  let (turns,s) := runTurns r (requests c conversation.waiting)
    ⟨shared.stats,shared.memory,conversation.world⟩
  (⟨[],none,s.world,
    conversation.asked ++ turns.flatMap fun entry => entry.2.rounds.map Round.request,
    conversation.answered ++ turns.map fun entry => entry.2.outcome⟩,⟨s.stats,s.memory⟩)

/-- Left alone, a conversation runs its turns as the router does. -/
theorem turns_end (r : Router ω μ) (c : ConversationId) (conversation : Conversation ω)
    (shared : Shared μ) (hidle : conversation.current = none) :
    ∃ n, (act r.memory r c)^[n] (conversation,shared) = afterTurns r c conversation shared := by
  rcases conversation with ⟨waiting,current,world,asked,answered⟩
  obtain rfl : current = none := hidle
  induction waiting generalizing world asked answered shared with
  | nil => exact ⟨0,by simp [afterTurns, requests, runTurns]⟩
  | cons text rest ih =>
    rcases text with ⟨text,userId⟩
    obtain ⟨n,hn⟩ := script_ends r c (.handle r ⟨text,userId,c⟩)
      ⟨rest,some (.handle r ⟨text,userId,c⟩),world,asked,answered⟩ shared rfl
    have hfinish := Script.finish_handle r ⟨text,userId,c⟩ ⟨shared.stats,shared.memory,world⟩
    dsimp only at hn hfinish
    rw [hfinish] at hn
    let turn := r.handle ⟨text,userId,c⟩ ⟨shared.stats,shared.memory,world⟩
    obtain ⟨m,hm⟩ := ih ⟨turn.session.stats,turn.session.memory⟩ turn.session.world
      (asked ++ turn.rounds.map Round.request) (answered ++ [turn.outcome])
    -- one act takes the turn up, and one hands its answer over
    use m + 1 + n + 1
    have hbegin : act r.memory r c (⟨(text,userId)::rest,none,world,asked,answered⟩,shared) =
        (⟨rest,some (.handle r ⟨text,userId,c⟩),world,asked,answered⟩,shared) := rfl
    rw [Function.iterate_succ_apply, hbegin, Function.iterate_add_apply, hn,
      Function.iterate_succ_apply]
    refine hm.trans ?_
    simp [afterTurns, requests, runTurns, turn]

theorem finished_stuck {maxMessages : ℕ+} (r : Router ω μ) (c : ConversationId)
    (conversation : Conversation ω) (log : List StoredMessage) (h : Finished conversation) :
    own maxMessages r c (conversation,log) = (conversation,log) := by
  simp [own, act, h.1, h.2]

/-- On its own part of the store a conversation comes to the end of its turns. -/
theorem own_turns {maxMessages : ℕ+} (store : WorkingStore maxMessages μ) (r : Router ω μ)
    (hstore : r.memory = store.toStore) (c : ConversationId) (conversation : Conversation ω)
    (shared : Shared μ) (log : Log) (hholds : store.Holds shared.memory log)
    (hidle : conversation.current = none) :
    ∃ share last, store.Holds (afterTurns r c conversation shared).2.memory last ∧
      (own maxMessages r c)^[share] (conversation,log c) =
        ((afterTurns r c conversation shared).1,last c) := by
  obtain ⟨share,hshare⟩ := turns_end r c conversation shared hidle
  have hturns := run_replicate (act r.memory r) c share (fun _ => conversation) shared
  rw [hshare] at hturns
  obtain ⟨last,hlast,hown⟩ := run_own (acts_separate store r hstore) (List.replicate share c)
    (fun _ => conversation) shared log hholds
  have hend := hown c
  rw [hturns] at hlast hend
  dsimp only at hend
  rw [Function.update_self, List.count_replicate_self] at hend
  exact ⟨share,last,hlast,hend.symm⟩

/-- A conversation is through once it had the share that its turns take, and where it
is through it has come to their end. -/
theorem comes_through {maxMessages : ℕ+} (r : Router ω μ) (c : ConversationId) (share taken : ℕ)
    (start reached last : Conversation ω × List StoredMessage)
    (hend : (own maxMessages r c)^[share] start = last) (hthrough : Finished last.1)
    (hreached : (own maxMessages r c)^[taken] start = reached) :
    (share ≤ taken → reached = last) ∧ (Finished reached.1 → reached = last) := by
  have hstuck : own maxMessages r c ((own maxMessages r c)^[share] start) =
      (own maxMessages r c)^[share] start := by
    rw [hend]
    exact finished_stuck r c _ _ hthrough
  constructor
  · intro hle
    rw [← hreached, stuck_stays _ _ share taken hstuck hle, hend]
  · intro hfinished
    have hfixed : own maxMessages r c ((own maxMessages r c)^[taken] start) =
        (own maxMessages r c)^[taken] start := by
      rw [hreached]
      exact finished_stuck r c _ _ hfinished
    rw [← hreached, stuck_unique _ _ _ _ hfixed hstuck, hend]

/-- A conversation reads the same in two states of the store that hold the same of it. -/
theorem reads_agree {maxMessages : ℕ+} (store : WorkingStore maxMessages μ) (c : ConversationId)
    (memory memory' : μ) (log log' : Log) (h : store.Holds memory log)
    (h' : store.Holds memory' log') (hlog : log c = log' c) :
    store.toStore.getHistory c memory = store.toStore.getHistory c memory' := by
  rw [store.shows memory log c h, store.shows memory' log' c h', hlog]

/-- From the same beginning a conversation does the same under any schedule as
under the one that runs nobody else; what it does are the router's turns, one
after the other, and it is through with them once it had its share of the
schedule. -/
theorem conversations_are_independent {maxMessages : ℕ+} (store : WorkingStore maxMessages μ)
    (r : Router ω μ) (hstore : r.memory = store.toStore) (together alone : Together ω μ)
    (log log' : Log) (htogether : store.Holds together.2.memory log)
    (halone : store.Holds alone.2.memory log') (c : ConversationId)
    (hsame : together.1 c = alone.1 c) (hlog : log c = log' c) :
    (∀ schedule : List ConversationId,
      (run r schedule together).1 c = (run r (schedule.filter (· = c)) alone).1 c ∧
      r.memory.getHistory c (run r schedule together).2.memory =
        r.memory.getHistory c (run r (schedule.filter (· = c)) alone).2.memory) ∧
    ((together.1 c).current = none → ∃ share, ∀ schedule : List ConversationId,
      (share ≤ schedule.count c → Finished ((run r schedule together).1 c)) ∧
      (Finished ((run r schedule together).1 c) →
        (run r schedule together).1 c = (afterTurns r c (alone.1 c) alone.2).1 ∧
        r.memory.getHistory c (run r schedule together).2.memory =
          r.memory.getHistory c (afterTurns r c (alone.1 c) alone.2).2.memory)) := by
  have hseparate := acts_separate store r hstore
  rw [hstore]
  constructor
  · intro schedule
    have hcount : schedule.count c = (schedule.filter (· = c)).count c := by
      rw [List.count_filter (by simp)]
    obtain ⟨hlocal,last,last',hlast,hlast',hpart⟩ := run_agree hseparate c schedule _ hcount
      together.1 alone.1 hsame together.2 alone.2 log log' htogether halone hlog
    exact ⟨hlocal,reads_agree store c _ _ last last' hlast hlast' hpart⟩
  · intro hidle
    obtain ⟨share,last',hlast',hend⟩ :=
      own_turns store r hstore c (alone.1 c) alone.2 log' halone (hsame ▸ hidle)
    refine ⟨share,fun schedule => ?_⟩
    obtain ⟨last,hlast,hown⟩ := run_own hseparate schedule together.1 together.2 log htogether
    have hcome := hown c
    rw [hsame, hlog] at hcome
    obtain ⟨hshare,hthrough⟩ := comes_through r c share (schedule.count c) _ _ _ hend ⟨rfl,rfl⟩
      hcome.symm
    constructor
    · intro hle
      rw [show (run r schedule together).1 c = (afterTurns r c (alone.1 c) alone.2).1 from
        congrArg Prod.fst (hshare hle)]
      exact ⟨rfl,rfl⟩
    · intro hfinished
      have hboth := hthrough hfinished
      exact ⟨congrArg Prod.fst hboth,
        reads_agree store c _ _ last last' hlast hlast' (congrArg Prod.snd hboth)⟩

end

def lobby (maxMessages : ℕ+) : Together Bool InMemoryConversationMemory :=
  (fun c => ⟨[("ciao",c)],none,true,[],[]⟩,⟨⟨0,0,none,none⟩,.create maxMessages⟩)

theorem lobby_is_independent :
    (run moody ["1","2","2","1","1","2"] (lobby 20)).1 "1" =
      (run moody ["1","1","1"] (lobby 20)).1 "1" ∧
    moody.memory.getHistory "1" (run moody ["1","2","2","1","1","2"] (lobby 20)).2.memory =
      moody.memory.getHistory "1" (run moody ["1","1","1"] (lobby 20)).2.memory :=
  (conversations_are_independent (workingInMemory 20) moody rfl (lobby 20) (lobby 20) _ _
    (workingInMemory_reaches 20 []) (workingInMemory_reaches 20 []) "1" rfl rfl).1
    ["1","2","2","1","1","2"]

end Emma.Conversations

import Emma.TurnRequests
import Emma.TurnTotality

/-!
# What a conversation remembers

Turns of any conversations follow one another. A turn that was answered adds
its two messages to its own conversation; a degraded one adds nothing. So every
request opens on the window of the answered turns before it, and the tally
counts them all.
-/

set_option autoImplicit false

namespace Emma.TurnMemory
open Emma.Python Emma.Numbers Emma.ConversationMemory Emma.LanguageModel Emma.Orchestrator
open Emma.WorkingStores Emma.TurnRequests Emma.TurnTotality

section
variable {ω μ : Type}

/-- A refusal of the model comes with no wait, or with a finite one. -/
def FiniteWaits (r : Router ω μ) : Prop :=
  ∀ request w w' text wait, r.llm request w = (.error (.quotaExceeded text (some wait)),w') →
    wait.isFinite = true

def degradedTurn (turn : Turn ω μ) : Bool :=
  match turn.outcome with
  | .ok answer => answer.degraded
  | .error _ => false

def exchange (c : ConversationId) (entry : AssistantRequest × Turn ω μ) : List StoredMessage :=
  match entry.2.outcome with
  | .ok answer =>
    if answer.degraded = false ∧ entry.1.conversationId = c then
      [⟨.user,entry.1.text⟩,⟨.assistant,answer.text⟩]
    else []
  | .error _ => []

def transcript (c : ConversationId) (turns : List (AssistantRequest × Turn ω μ)) :
    List StoredMessage :=
  turns.flatMap (exchange c)

/-- The turns of a run, one after the other, with the state it ends in. -/
def runTurns (r : Router ω μ) : List AssistantRequest → Session ω μ →
    List (AssistantRequest × Turn ω μ) × Session ω μ
  | [], s => ([],s)
  | request::rest, s =>
    let turn := r.handle request s
    let (turns,last) := runTurns r rest turn.session
    ((request,turn)::turns,last)

theorem finalAnswer_reason (reply : LLMResponse) :
    (Router.finalAnswer reply).degraded = (Router.finalAnswer reply).reason.isSome := by
  unfold Router.finalAnswer
  split <;> rfl

/-- An answer of the loop is degraded exactly when it gives a reason; an error
of the loop is an error of the model. -/
theorem agenticLoop_outcome (r : Router ω μ) (system : String) (left : ℕ)
    (messages : List Message) (w : ω) :
    (∀ answer, (r.agenticLoop system left messages w).1 = .ok answer →
      answer.degraded = answer.reason.isSome) ∧
    (∀ e, (r.agenticLoop system left messages w).1 = .error e →
      ∃ request w1 w2, r.llm request w1 = (.error e,w2)) := by
  induction left generalizing messages w with
  | zero =>
    refine ⟨fun answer h => ?_,fun e h => by simp [Router.agenticLoop] at h⟩
    obtain rfl : degrade "tool_loop_ceiling" fallbackTooManySteps = answer := by
      simpa [Router.agenticLoop] using h
    rfl
  | succ left ih =>
    rw [Router.agenticLoop]
    rcases r.switchedOff w with ⟨off,w1⟩
    dsimp only
    rcases hllm : r.llm ⟨system,messages,r.toolSchemas off⟩ w1 with ⟨e | reply,w2⟩
    · refine ⟨fun answer h => (by cases h),fun e' h => ?_⟩
      cases h
      exact ⟨_,w1,w2,hllm⟩
    · dsimp only
      split
      · refine ⟨fun answer h => ?_,fun e h => (by cases h)⟩
        cases h
        exact finalAnswer_reason reply
      · exact ih _ _

theorem settled_ok {outcome : Except LLMError AssistantResponse}
    (hreason : ∀ answer, outcome = .ok answer → answer.degraded = answer.reason.isSome)
    (hwait : ∀ text wait, outcome = .error (.quotaExceeded text (some wait)) →
      wait.isFinite = true) :
    ∃ answer, Router.settled outcome = .ok answer ∧ answer.degraded = answer.reason.isSome := by
  rcases outcome with (text | ⟨text,retryAfter⟩) | answer
  · exact ⟨_,rfl,rfl⟩
  · obtain ⟨message,hmessage⟩ := (quotaMessage_isOk retryAfter).mpr fun wait hw =>
      hwait text wait (hw ▸ rfl)
    refine ⟨degrade "quota_exhausted" message,?_,rfl⟩
    simp [Router.settled, hmessage, bind, Except.bind, pure, Except.pure]
  · exact ⟨answer,rfl,hreason answer rfl⟩

theorem extended_twice (before : Log) (request : AssistantRequest) (answer : String) :
    extended (extended before request.conversationId ⟨.user,request.text⟩)
        request.conversationId ⟨.assistant,answer⟩ =
      fun c => before c ++ if request.conversationId = c then
        [⟨.user,request.text⟩,⟨.assistant,answer⟩] else [] := by
  funext c
  by_cases hc : c = request.conversationId
  · simp [extended, hc]
  · simp [extended, hc, Ne.symm hc]

theorem remember_holds {maxMessages : ℕ+} (store : WorkingStore maxMessages μ) (r : Router ω μ)
    (hstore : r.memory = store.toStore) (request : AssistantRequest) (answer : String) (now : ℚ)
    (memory : μ) (before : Log) (hholds : store.Holds memory before) :
    store.Holds (r.remember request answer now memory)
      (fun c => before c ++ if request.conversationId = c then
        [⟨.user,request.text⟩,⟨.assistant,answer⟩] else []) := by
  obtain ⟨m1,happend1,hholds1⟩ :=
    store.appends memory before request.conversationId ⟨.user,request.text⟩ now hholds
  obtain ⟨m2,happend2,hholds2⟩ :=
    store.appends m1 _ request.conversationId ⟨.assistant,answer⟩ now hholds1
  rw [extended_twice] at hholds2
  rw [Router.remember, hstore, happend1]
  dsimp only
  rw [happend2]
  exact hholds2

/-- One turn on a working store: what it returns, stores and counts. -/
theorem handle_remembers {maxMessages : ℕ+} (store : WorkingStore maxMessages μ) (r : Router ω μ)
    (hstore : r.memory = store.toStore) (hwaits : FiniteWaits r) (request : AssistantRequest)
    (s : Session ω μ) (before : Log) (hholds : store.Holds s.memory before) :
    (∃ answer, (r.handle request s).outcome = .ok answer) ∧
      (degradedTurn (r.handle request s) = true →
        (r.handle request s).session.memory = s.memory) ∧
      store.Holds (r.handle request s).session.memory
        (fun c => before c ++ exchange c (request,r.handle request s)) ∧
      (r.handle request s).session.stats.turns = s.stats.turns+1 ∧
      (r.handle request s).session.stats.degraded =
        s.stats.degraded + (if degradedTurn (r.handle request s) = true then 1 else 0) := by
  rcases hloop : r.runAgenticLoop ((r.readHistory request.conversationId s.memory).map toWire ++
    [userMessage request.text]) s.world with ⟨outcome,w,rounds⟩
  obtain ⟨hreason,herror⟩ := agenticLoop_outcome r (r.systemPromptNow s.world).1
    r.maxToolIterations ((r.readHistory request.conversationId s.memory).map toWire ++
      [userMessage request.text]) (r.systemPromptNow s.world).2
  have hsame : (r.agenticLoop (r.systemPromptNow s.world).1 r.maxToolIterations
      ((r.readHistory request.conversationId s.memory).map toWire ++
        [userMessage request.text]) (r.systemPromptNow s.world).2).1 = outcome :=
    congrArg Prod.fst hloop
  rw [hsame] at hreason herror
  obtain ⟨answer,hsettled,hdegraded⟩ := settled_ok hreason fun text wait h => by
    obtain ⟨request',w1,w2,hllm⟩ := herror _ h
    exact hwaits request' w1 w2 text wait hllm
  have hturn : r.handle request s = ⟨.ok answer,⟨s.stats.record answer.reason (r.clock w),
      if answer.degraded then s.memory
        else r.remember request answer.text (r.clock w) s.memory,w⟩,rounds⟩ := by
    simp only [Router.handle, hloop, hsettled]
    split
    · rfl
    · -- an answer that is not degraded gives no reason
      have hnone : answer.reason = none := by
        simpa [‹¬answer.degraded = true›] using hdegraded.symm
      rw [hnone]
  have hflag : degradedTurn (r.handle request s) = answer.reason.isSome := by
    rw [hturn]
    exact hdegraded
  rw [hflag, hturn]
  refine ⟨⟨answer,rfl⟩,fun h => if_pos (hdegraded.trans h),?_,?_,?_⟩
  · cases hd : answer.degraded with
    | true => simpa [exchange, hd] using hholds
    | false =>
      simpa [exchange, hd] using remember_holds store r hstore request answer.text (r.clock w)
        s.memory before hholds
  · cases answer.reason <;> rfl
  · cases answer.reason <;> simp [TurnStats.record]

theorem runTurns_length (r : Router ω μ) (requests : List AssistantRequest) (s : Session ω μ) :
    (runTurns r requests s).1.length = requests.length := by
  induction requests generalizing s with
  | nil => rfl
  | cons request rest ih => simp [runTurns, ih]

theorem runTurns_remembers {maxMessages : ℕ+} (store : WorkingStore maxMessages μ)
    (r : Router ω μ) (hstore : r.memory = store.toStore) (hwaits : FiniteWaits r)
    (requests : List AssistantRequest) (s : Session ω μ) (before : Log)
    (hholds : store.Holds s.memory before) :
    store.Holds (runTurns r requests s).2.memory
        (fun c => before c ++ transcript c (runTurns r requests s).1) ∧
      (runTurns r requests s).2.stats.turns = s.stats.turns + requests.length ∧
      (runTurns r requests s).2.stats.degraded = s.stats.degraded +
        (runTurns r requests s).1.countP (fun entry => degradedTurn entry.2) := by
  induction requests generalizing s before with
  | nil => simpa [runTurns, transcript] using hholds
  | cons request rest ih =>
    obtain ⟨-,-,hstored,hturns,hdegraded⟩ :=
      handle_remembers store r hstore hwaits request s before hholds
    obtain ⟨hstored',hturns',hdegraded'⟩ := ih (r.handle request s).session _ hstored
    refine ⟨?_,?_,?_⟩
    · simpa [runTurns, transcript, List.append_assoc] using hstored'
    · simp only [runTurns, hturns', hturns, List.length_cons]
      omega
    · simp only [runTurns, hdegraded', hdegraded, List.countP_cons]
      omega

/-- A loop that may run at all sends its first request with the messages it was given. -/
theorem agenticLoop_first (r : Router ω μ) (system : String) (left : ℕ)
    (messages : List Message) (w : ω) :
    (0 < left → (r.agenticLoop system left messages w).2.2 ≠ []) ∧
      ∀ round, (r.agenticLoop system left messages w).2.2.head? = some round →
        round.request.messages = messages := by
  cases left with
  | zero => simp [Router.agenticLoop]
  | succ left =>
    rw [Router.agenticLoop]
    rcases r.switchedOff w with ⟨off,w1⟩
    dsimp only
    rcases r.llm ⟨system,messages,r.toolSchemas off⟩ w1 with ⟨e | reply,w2⟩
    · exact ⟨by simp,fun round h => by cases h; rfl⟩
    · dsimp only
      split
      · exact ⟨by simp,fun round h => by cases h; rfl⟩
      · exact ⟨by simp,fun round h => by cases h; rfl⟩

/-- What holds of the turn that follows the given ones: it opens on the window of
the answered turns of its own conversation, it changes no history if it is
degraded, and the tally is exact after it. -/
structure Faithful (maxMessages : ℕ+) (r : Router ω μ)
    (earlier : List (AssistantRequest × Turn ω μ)) (s : Session ω μ)
    (request : AssistantRequest) : Prop where
  asks : 0 < r.maxToolIterations → (r.handle request s).rounds ≠ []
  opens : ∀ round, (r.handle request s).rounds.head? = some round → round.request.messages =
    (shown maxMessages (transcript request.conversationId earlier)).map toWire ++
      [userMessage request.text]
  kept : degradedTurn (r.handle request s) = true → ∀ c,
    r.memory.getHistory c (r.handle request s).session.memory = r.memory.getHistory c s.memory
  turns : (r.handle request s).session.stats.turns =
    (earlier ++ [(request,r.handle request s)]).length
  degraded : (r.handle request s).session.stats.degraded =
    (earlier ++ [(request,r.handle request s)]).countP fun entry => degradedTurn entry.2

theorem conversations_are_remembered {maxMessages : ℕ+} (store : WorkingStore maxMessages μ)
    (r : Router ω μ) (hstore : r.memory = store.toStore) (hwaits : FiniteWaits r)
    (start : Session ω μ) (hempty : store.Holds start.memory fun _ => [])
    (hstats : start.stats.turns = 0 ∧ start.stats.degraded = 0)
    (requests : List AssistantRequest) (request : AssistantRequest) :
    Faithful maxMessages r (runTurns r requests start).1 (runTurns r requests start).2 request := by
  obtain ⟨hholds,hturns,hdegraded⟩ :=
    runTurns_remembers store r hstore hwaits requests start (fun _ => []) hempty
  obtain ⟨-,hkept,-,hturns',hdegraded'⟩ :=
    handle_remembers store r hstore hwaits request _ _ hholds
  have hrounds := (r.handle_loop request (runTurns r requests start).2).1
  obtain ⟨hsome,hfirst⟩ := agenticLoop_first r
    (r.systemPromptNow (runTurns r requests start).2.world).1 r.maxToolIterations
    ((r.readHistory request.conversationId (runTurns r requests start).2.memory).map toWire ++
      [userMessage request.text]) (r.systemPromptNow (runTurns r requests start).2.world).2
  rw [Router.turnLoop] at hrounds
  have hhistory : r.readHistory request.conversationId (runTurns r requests start).2.memory =
      shown maxMessages (transcript request.conversationId (runTurns r requests start).1) := by
    rw [Router.readHistory, hstore, store.shows _ _ _ hholds]
    rfl
  rw [← hrounds, hhistory] at hfirst
  rw [← hrounds] at hsome
  refine ⟨hsome,hfirst,fun h c => by rw [hkept h],?_,?_⟩
  · rw [hturns', hturns, hstats.1, List.length_append, runTurns_length]
    simp
  · rw [hdegraded', hdegraded, hstats.2, List.countP_append, List.countP_singleton,
      Nat.zero_add]

end

def moody : Router Bool InMemoryConversationMemory where
  llm := fun _ up => (if up then .ok ⟨[.text "Eccomi."],some "end_turn"⟩
    else .error (.quotaExceeded "rate limited" (some (.finite 30))),!up)
  memory := inMemoryStore
  systemPrompt := "Sei EMMA."
  tools := []
  contextProviders := []
  toolGate := none
  maxToolIterations := defaultMaxToolIterations
  clock := fun _ => 0
  distinct := rfl

theorem moody_is_faithful :
    Faithful 20 moody
      (runTurns moody [⟨"ciao","1","1"⟩,⟨"ci sei?","2","2"⟩,⟨"allora?","1","1"⟩]
        ⟨⟨0,0,none,none⟩,.create 20,true⟩).1
      (runTurns moody [⟨"ciao","1","1"⟩,⟨"ci sei?","2","2"⟩,⟨"allora?","1","1"⟩]
        ⟨⟨0,0,none,none⟩,.create 20,true⟩).2 ⟨"e poi?","1","1"⟩ := by
  have hwaits : FiniteWaits moody := by
    intro request up w' text wait h
    cases up with
    | true => simp [moody] at h
    | false =>
      obtain ⟨-,rfl⟩ : "rate limited" = text ∧ PyFloat.finite 30 = wait := by
        simpa [moody] using congrArg Prod.fst h
      rfl
  exact conversations_are_remembered (workingInMemory 20) moody rfl hwaits
    ⟨⟨0,0,none,none⟩,.create 20,true⟩ (workingInMemory_reaches 20 []) ⟨rfl,rfl⟩ _ _

end Emma.TurnMemory

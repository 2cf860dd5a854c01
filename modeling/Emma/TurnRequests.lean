import Emma.WorkingStores

/-!
# The requests of a turn

Every round extends the messages of the round before it by the reply, replayed,
and by one message that answers each of its calls. The head of the list comes
from the store, whose window never leads with an assistant message.
-/

set_option autoImplicit false

namespace Emma.TurnRequests
open Emma.Python Emma.ConversationMemory Emma.LanguageModel Emma.Orchestrator Emma.WorkingStores

def Paired : List Message → Prop
  | [] => True
  | message::rest =>
    (message.role = .assistant → message.toolUses ≠ [] →
      ∃ answer later, rest = answer::later ∧ answer.Answers message.toolUses) ∧ Paired rest

def SpokenByUser (message : Option Message) : Prop := ∃ m, message = some m ∧ m.role = .user

/-- A request that the API accepts, made of the history, the new text and what
the turn appended. -/
structure WellFormed (history : List StoredMessage) (text : String)
    (messages : List Message) : Prop where
  opens : SpokenByUser messages.head?
  closes : SpokenByUser messages.getLast?
  paired : ∃ appended, messages = history.map toWire ++ [userMessage text] ++ appended ∧
    Paired appended

def obliged : Except LLMError LLMResponse → List ToolUseBlock
  | .ok reply => if reply.stopReason = some "tool_use" then reply.toolUses else []
  | .error _ => []

/-- Each obliged call is answered once, in order, and nothing else is run. -/
def AnsweredOnce {ω : Type} (round : Round ω) : Prop :=
  round.answers.map Answer.call = obliged round.reply ∧
    ∀ answer ∈ round.answers, answer.result.answers = some answer.call.id ∧
      ∀ i, answer.invoked = some i →
        i.name = answer.call.name ∧ i.arguments = answer.call.input

section
variable {ω μ : Type}

theorem executeTool_answers (r : Router ω μ) (call : ToolUseBlock) (w : ω) :
    (r.executeTool call w).1.call = call ∧
      (r.executeTool call w).1.result.answers = some call.id ∧
      ∀ i, (r.executeTool call w).1.invoked = some i →
        i.name = call.name ∧ i.arguments = call.input := by
  rcases r.executeTool_cases call w with ⟨text,hrefused⟩ | ⟨tool,-,hname,-,text,isError,hran⟩
  · rw [hrefused]
    exact ⟨rfl,rfl,by simp⟩
  · rw [hran]
    constructor
    · rfl
    constructor
    · rfl
    intro i hi
    cases hi
    exact ⟨hname,rfl⟩

theorem executeTools_answers (r : Router ω μ) (calls : List ToolUseBlock) (w : ω) :
    (r.executeTools calls w).1.map Answer.call = calls ∧
      ∀ answer ∈ (r.executeTools calls w).1, answer.result.answers = some answer.call.id ∧
        ∀ i, answer.invoked = some i →
          i.name = answer.call.name ∧ i.arguments = answer.call.input := by
  induction calls generalizing w with
  | nil => simp [Router.executeTools]
  | cons call rest ih =>
    obtain ⟨hcall,hresult,hinvoked⟩ := executeTool_answers r call w
    rw [Router.executeTools]
    rcases hone : r.executeTool call w with ⟨answer,w'⟩
    rw [hone] at hcall hresult hinvoked
    dsimp only at hcall hresult hinvoked
    obtain ⟨hcalls,hresults⟩ := ih w'
    refine ⟨by simp [hcall, hcalls],?_⟩
    intro other hother
    rcases List.mem_cons.mp hother with rfl | hother
    · rw [hcall]
      exact ⟨hresult,hinvoked⟩
    · exact hresults other hother

theorem executeTools_message (r : Router ω μ) (calls : List ToolUseBlock) (w : ω) :
    Message.Answers ⟨.user,.blocks ((r.executeTools calls w).1.map Answer.result)⟩ calls := by
  obtain ⟨hcalls,hresults⟩ := executeTools_answers r calls w
  refine ⟨rfl,_,rfl,?_⟩
  calc ((r.executeTools calls w).1.map Answer.result).map WireBlock.answers
      = (r.executeTools calls w).1.map fun answer => some answer.call.id := by
        rw [List.map_map]
        exact List.map_congr_left fun answer hanswer => (hresults answer hanswer).1
    _ = ((r.executeTools calls w).1.map Answer.call).map fun call => some call.id := by
        rw [List.map_map]
        rfl
    _ = calls.map fun call => some call.id := by rw [hcalls]

def Appended (messages extended : List Message) : Prop :=
  ∃ appended, extended = messages ++ appended ∧ Paired appended ∧
    (appended = [] ∨ SpokenByUser appended.getLast?)

theorem appended_round {messages extended : List Message} {reply results : Message}
    {calls : List ToolUseBlock} (hreply : reply.toolUses = calls) (hresults : results.Answers calls)
    (h : Appended (messages ++ [reply,results]) extended) : Appended messages extended := by
  obtain ⟨appended,rfl,hpaired,hlast⟩ := h
  refine ⟨reply::results::appended,by simp,⟨?_,?_,hpaired⟩,.inr ?_⟩
  · exact fun _ _ => ⟨results,appended,rfl,hreply ▸ hresults⟩
  · intro hassistant
    rw [hresults.1] at hassistant
    cases hassistant
  · rcases hlast with rfl | ⟨m,hm,hrole⟩
    · exact ⟨results,rfl,hresults.1⟩
    · refine ⟨m,?_,hrole⟩
      cases appended with
      | nil => simp at hm
      | cons first later => simpa [List.getLast?_cons_cons] using hm

theorem agenticLoop_rounds (r : Router ω μ) (system : String) (left : ℕ)
    (messages : List Message) (w : ω) :
    (r.agenticLoop system left messages w).2.2.length ≤ left ∧
      ∀ round ∈ (r.agenticLoop system left messages w).2.2,
        Appended messages round.request.messages ∧ AnsweredOnce round := by
  induction left generalizing messages w with
  | zero => simp [Router.agenticLoop]
  | succ left ih =>
    have hstart : Appended messages messages := ⟨[],by simp,trivial,.inl rfl⟩
    rw [Router.agenticLoop]
    rcases r.switchedOff w with ⟨off,w1⟩
    dsimp only
    rcases r.llm ⟨system,messages,r.toolSchemas off⟩ w1 with ⟨e | reply,w2⟩
    · simp [AnsweredOnce, obliged, hstart]
    · dsimp only
      by_cases hend : reply.stopReason ≠ some "tool_use" ∨ reply.toolUses.isEmpty = true
      · rw [if_pos hend]
        have hnone : obliged (.ok reply) = [] := by
          rcases hend with hstop | hempty
          · simp [obliged, hstop]
          · simp [obliged, List.isEmpty_iff.mp hempty]
        simp [AnsweredOnce, hnone, hstart]
      · rw [if_neg hend]
        simp only [not_or, not_not] at hend
        obtain ⟨hcalls,hresults⟩ := executeTools_answers r reply.toolUses w2
        have hmessage := executeTools_message r reply.toolUses w2
        rcases hrun : r.executeTools reply.toolUses w2 with ⟨answers,w3⟩
        rw [hrun] at hcalls hresults hmessage
        obtain ⟨hlength,hrounds⟩ := ih
          (messages ++ [reply.toAssistantMessage,⟨.user,.blocks (answers.map Answer.result)⟩]) w3
        dsimp only
        refine ⟨by simpa using hlength,?_⟩
        intro round hround
        rcases List.mem_cons.mp hround with rfl | hround
        · exact ⟨hstart,by simpa [obliged, hend.1] using hcalls,hresults⟩
        · obtain ⟨happended,honce⟩ := hrounds round hround
          exact ⟨appended_round (toAssistantMessage_toolUses reply) hmessage happended,honce⟩

theorem shown_opens (maxMessages : ℕ+) (log : List StoredMessage) (text : String) :
    SpokenByUser ((shown maxMessages log).map toWire ++ [userMessage text]).head? := by
  cases hshown : shown maxMessages log with
  | nil => exact ⟨userMessage text,rfl,rfl⟩
  | cons first rest =>
    have hfirst := SlidingWindow.window_head isUser maxMessages log first (by simp [hshown])
    exact ⟨toWire first,rfl,by simpa [isUser, toWire] using hfirst⟩

theorem wellFormed_of_appended {history : List StoredMessage} {text : String}
    {messages : List Message}
    (hopens : SpokenByUser (history.map toWire ++ [userMessage text]).head?)
    (h : Appended (history.map toWire ++ [userMessage text]) messages) :
    WellFormed history text messages := by
  obtain ⟨appended,rfl,hpaired,hlast⟩ := h
  refine ⟨?_,?_,appended,rfl,hpaired⟩
  · obtain ⟨m,hm,hrole⟩ := hopens
    exact ⟨m,by rw [List.head?_append, hm]; rfl,hrole⟩
  · rcases hlast with rfl | ⟨m,hm,hrole⟩
    · exact ⟨userMessage text,by simp,rfl⟩
    · exact ⟨m,by rw [List.getLast?_append, hm]; rfl,hrole⟩

/-- Whatever the model answers and the tools do, each request of a turn on a
working store is well formed, and each round answers what it has to. -/
theorem every_request_is_well_formed {maxMessages : ℕ+} (store : WorkingStore maxMessages μ)
    (r : Router ω μ) (hstore : r.memory = store.toStore) (request : AssistantRequest)
    (s : Session ω μ) (before : Log) (hholds : store.Holds s.memory before) :
    (r.handle request s).rounds.length ≤ r.maxToolIterations ∧
      ∀ round ∈ (r.handle request s).rounds,
        WellFormed (shown maxMessages (before request.conversationId)) request.text
          round.request.messages ∧ AnsweredOnce round := by
  have hhistory : r.readHistory request.conversationId s.memory =
      shown maxMessages (before request.conversationId) := by
    rw [Router.readHistory, hstore, store.shows s.memory before _ hholds]
  rw [(r.handle_loop request s).1, Router.turnLoop, hhistory]
  obtain ⟨hlength,hall⟩ := agenticLoop_rounds r (r.systemPromptNow s.world).1
    r.maxToolIterations ((shown maxMessages (before request.conversationId)).map toWire ++
      [userMessage request.text]) (r.systemPromptNow s.world).2
  apply And.intro hlength
  intro round hround
  obtain ⟨happended,honce⟩ := hall round hround
  exact ⟨wellFormed_of_appended (shown_opens _ _ _) happended,honce⟩

end

def insistent (ω μ : Type) (memory : Store μ) : Router ω μ where
  llm := fun _ w => (.ok ⟨[.text "Vediamo.",.toolUse ⟨"call_1","clock",[]⟩],some "tool_use"⟩,w)
  memory := memory
  systemPrompt := "Sei EMMA."
  tools := []
  contextProviders := []
  toolGate := none
  maxToolIterations := defaultMaxToolIterations
  clock := fun _ => 0
  distinct := rfl

def greeted : InMemoryConversationMemory :=
  MemoryWindow.inMemoryRun [.append "1" ⟨.user,"ciao"⟩,.append "1" ⟨.assistant,"ciao a te"⟩]
    (.create 20)

theorem insistent_requests_are_well_formed :
    ((insistent Unit _ inMemoryStore).handle ⟨"che ore sono?","1","1"⟩
        ⟨⟨0,0,none,none⟩,greeted,()⟩).rounds.length ≤ defaultMaxToolIterations ∧
      ∀ round ∈ ((insistent Unit _ inMemoryStore).handle ⟨"che ore sono?","1","1"⟩
        ⟨⟨0,0,none,none⟩,greeted,()⟩).rounds,
        WellFormed (shown 20 [⟨.user,"ciao"⟩,⟨.assistant,"ciao a te"⟩]) "che ore sono?"
          round.request.messages ∧ AnsweredOnce round :=
  every_request_is_well_formed (workingInMemory 20) (insistent Unit _ inMemoryStore) rfl
    ⟨"che ore sono?","1","1"⟩ ⟨⟨0,0,none,none⟩,greeted,()⟩ _ (workingInMemory_reaches 20 _)

end Emma.TurnRequests

import Emma.LanguageModel

/-!
# One turn of the assistant

The model, the tools, the gate and the context providers share a world that
each of them may read and change; the conversation store has a state of its
own. Every one of them may fail, with an exception that is its text here. A turn
also records its rounds, each with the request that was sent, the world it was
opened in, what came of it and how every call was answered. Logging is left out.
-/

set_option autoImplicit false

namespace Emma.Orchestrator
open Emma.Python Emma.Numbers Emma.ConversationMemory Emma.LanguageModel

def fallbackUnavailable : String :=
  "Non riesco a contattare il cervello in questo momento, riprova tra poco."

def fallbackQuota : String :=
  "Ho raggiunto il limite di richieste verso il modello. " ++
    "Non e' un guasto: riprovare adesso non aiuta."

def fallbackEmpty : String :=
  "Non ho una risposta da darti su questo, riprova a chiedermelo."

def fallbackTooManySteps : String :=
  "Mi sto perdendo in troppi passaggi per questa richiesta, riformulala pure."

def defaultMaxToolIterations : ℕ := 5

def quotaMessage : Option PyFloat → Except PyError String
  | none => .ok (fallbackQuota ++ " Riprova piu' tardi.")
  | some retryAfter =>
    if retryAfter.lt 90 then do
      return fallbackQuota ++ " Riprova fra circa " ++ toString (← retryAfter.round) ++ " secondi."
    else do
      return fallbackQuota ++ " Riprova fra circa " ++
        toString (← (retryAfter.div 60).round) ++ " minuti."

structure AssistantRequest where
  text : String
  userId : String
  conversationId : ConversationId

structure AssistantResponse where
  text : String
  degraded : Bool
  reason : Option String
  deriving DecidableEq

structure TurnStats where
  turns : ℕ
  degraded : ℕ
  lastReason : Option String
  lastAt : Option ℚ
  deriving DecidableEq

def TurnStats.record (stats : TurnStats) (reason : Option String) (now : ℚ) : TurnStats :=
  match reason with
  | none => { stats with turns := stats.turns+1 }
  | some reason => ⟨stats.turns+1,stats.degraded+1,some reason,some now⟩

abbrev Outcome (α : Type) := Except String α

structure Tool (ω : Type) where
  name : String
  description : String
  inputSchema : String
  run : Arguments → ω → Outcome String × ω

structure Store (μ : Type) where
  getHistory : ConversationId → μ → Outcome (List StoredMessage)
  append : ConversationId → StoredMessage → ℚ → μ → Outcome Unit × μ

def duplicate : List String → List String → Option String
  | _, [] => none
  | seen, name::rest => if name ∈ seen then some name else duplicate (name::seen) rest

def postInit {ω : Type} (tools : List (Tool ω)) : Except PyError Unit :=
  match duplicate [] (tools.map Tool.name) with
  | some name => .error (.valueError ("duplicate tool name: " ++ name))
  | none => .ok ()

theorem postInit_nil (ω : Type) : postInit ([] : List (Tool ω)) = .ok () := rfl

/-- A router that was built: no two of its tools share a name. -/
structure Router (ω μ : Type) where
  llm : LLMRequest → ω → Except LLMError LLMResponse × ω
  memory : Store μ
  systemPrompt : String
  tools : List (Tool ω)
  contextProviders : List (ω → Outcome String × ω)
  toolGate : Option (ω → Outcome (List String) × ω)
  maxToolIterations : ℕ
  clock : ω → ℚ
  distinct : postInit tools = .ok ()

structure Session (ω μ : Type) where
  stats : TurnStats
  memory : μ
  world : ω

/-- One call of a tool's `run`, between the worlds before and after it. -/
structure Invocation (ω : Type) where
  name : String
  arguments : Arguments
  before : ω
  after : ω

/-- How one `tool_use` block was answered. -/
structure Answer (ω : Type) where
  call : ToolUseBlock
  result : WireBlock
  invoked : Option (Invocation ω)

structure Round (ω : Type) where
  opened : ω
  request : LLMRequest
  reply : Except LLMError LLMResponse
  answers : List (Answer ω)

structure Turn (ω μ : Type) where
  outcome : Except PyError AssistantResponse
  session : Session ω μ
  rounds : List (Round ω)

def degrade (reason text : String) : AssistantResponse := ⟨text,true,some reason⟩

def toWire (message : StoredMessage) : Message := ⟨message.role,.plain message.content⟩

def userMessage (text : String) : Message := ⟨.user,.plain text⟩

section
variable {ω μ : Type}

def contextLines : List (ω → Outcome String × ω) → ω → List String × ω
  | [], w => ([],w)
  | provider::rest, w => match provider w with
    | (.error _,w) => contextLines rest w
    | (.ok snapshot,w) =>
      let (lines,w) := contextLines rest w
      (if snapshot = "" then lines else strip snapshot::lines,w)

namespace Router

def systemPromptNow (r : Router ω μ) (w : ω) : String × ω :=
  match contextLines r.contextProviders w with
  | ([],w) => (r.systemPrompt,w)
  | (lines,w) => (r.systemPrompt ++ "\n\n" ++ "\n".intercalate lines,w)

def switchedOff (r : Router ω μ) (w : ω) : List String × ω :=
  match r.toolGate with
  | none => ([],w)
  | some disabled => match disabled w with
    | (.ok names,w) => (names,w)
    | (.error _,w) => ([],w)

def toolSchemas (r : Router ω μ) (switchedOff : List String) : Option (List ToolDeclaration) :=
  match r.tools.filter fun tool => tool.name ∉ switchedOff with
  | [] => none
  | offered => some (offered.map fun tool => ⟨tool.name,tool.description,tool.inputSchema⟩)

def toolByName (r : Router ω μ) (name : String) : Option (Tool ω) :=
  r.tools.find? fun tool => tool.name = name

def executeTool (r : Router ω μ) (call : ToolUseBlock) (w : ω) : Answer ω × ω :=
  let (off,w) := r.switchedOff w
  if call.name ∈ off then
    (⟨call,.toolResult call.id ("lo strumento " ++ call.name ++
      " e' disattivato: non posso usarlo finche' non viene riattivato") true,none⟩,w)
  else match r.toolByName call.name with
    | none => (⟨call,.toolResult call.id ("unknown tool: " ++ call.name) true,none⟩,w)
    | some tool => match tool.run call.input w with
      | (.error e,after) => (⟨call,.toolResult call.id ("tool error: " ++ e) true,
          some ⟨tool.name,call.input,w,after⟩⟩,after)
      | (.ok output,after) => (⟨call,.toolResult call.id output false,
          some ⟨tool.name,call.input,w,after⟩⟩,after)

def executeTools (r : Router ω μ) : List ToolUseBlock → ω → List (Answer ω) × ω
  | [], w => ([],w)
  | call::rest, w =>
    let (answer,w) := r.executeTool call w
    let (answers,w) := r.executeTools rest w
    (answer::answers,w)

def finalAnswer (reply : LLMResponse) : AssistantResponse :=
  if reply.text = "" then degrade "empty_answer" fallbackEmpty else ⟨reply.text,false,none⟩

def agenticLoop (r : Router ω μ) (system : String) : ℕ → List Message → ω →
    Except LLMError AssistantResponse × ω × List (Round ω)
  | 0, _, w => (.ok (degrade "tool_loop_ceiling" fallbackTooManySteps),w,[])
  | left+1, messages, opened =>
    let (off,w) := r.switchedOff opened
    let request : LLMRequest := ⟨system,messages,r.toolSchemas off⟩
    match r.llm request w with
    | (.error e,w) => (.error e,w,[⟨opened,request,.error e,[]⟩])
    | (.ok reply,w) =>
      if reply.stopReason ≠ some "tool_use" ∨ reply.toolUses.isEmpty then
        (.ok (finalAnswer reply),w,[⟨opened,request,.ok reply,[]⟩])
      else
        let (answers,w) := r.executeTools reply.toolUses w
        let results : Message := ⟨.user,.blocks (answers.map Answer.result)⟩
        let (answer,w,rounds) := r.agenticLoop system left
          (messages ++ [reply.toAssistantMessage,results]) w
        (answer,w,⟨opened,request,.ok reply,answers⟩::rounds)

def runAgenticLoop (r : Router ω μ) (messages : List Message) (w : ω) :
    Except LLMError AssistantResponse × ω × List (Round ω) :=
  let (system,w) := r.systemPromptNow w
  r.agenticLoop system r.maxToolIterations messages w

/-- The history, or nothing where it cannot be read. -/
def readHistory (r : Router ω μ) (conversationId : ConversationId) (memory : μ) :
    List StoredMessage :=
  match r.memory.getHistory conversationId memory with
  | .ok history => history
  | .error _ => []

def remember (r : Router ω μ) (request : AssistantRequest) (answer : String) (now : ℚ)
    (memory : μ) : μ :=
  match r.memory.append request.conversationId ⟨.user,request.text⟩ now memory with
  | (.error _,memory) => memory
  | (.ok _,memory) =>
    (r.memory.append request.conversationId ⟨.assistant,answer⟩ now memory).2

def settled : Except LLMError AssistantResponse → Except PyError AssistantResponse
  | .ok answer => .ok answer
  | .error (.quotaExceeded _ retryAfter) => do
    return degrade "quota_exhausted" (← quotaMessage retryAfter)
  | .error (.unavailable _) => .ok (degrade "model_unreachable" fallbackUnavailable)

def handle (r : Router ω μ) (request : AssistantRequest) (s : Session ω μ) : Turn ω μ :=
  let history := r.readHistory request.conversationId s.memory
  let messages := history.map toWire ++ [userMessage request.text]
  let (outcome,w,rounds) := r.runAgenticLoop messages s.world
  match settled outcome with
  | .error e => ⟨.error e,{ s with world := w },rounds⟩
  | .ok answer =>
    -- a degraded turn is counted and not remembered
    if answer.degraded then
      ⟨.ok answer,⟨s.stats.record answer.reason (r.clock w),s.memory,w⟩,rounds⟩
    else
      ⟨.ok answer,⟨s.stats.record none (r.clock w),
        r.remember request answer.text (r.clock w) s.memory,w⟩,rounds⟩

/-- A call is answered on the spot, or runs a registered tool that the gate let
through. -/
theorem executeTool_cases (r : Router ω μ) (call : ToolUseBlock) (w : ω) :
    (∃ text, r.executeTool call w =
      (⟨call,.toolResult call.id text true,none⟩,(r.switchedOff w).2)) ∨
    ∃ tool ∈ r.tools, tool.name = call.name ∧ call.name ∉ (r.switchedOff w).1 ∧
      ∃ text isError, r.executeTool call w =
        (⟨call,.toolResult call.id text isError,some ⟨tool.name,call.input,(r.switchedOff w).2,
            (tool.run call.input (r.switchedOff w).2).2⟩⟩,
          (tool.run call.input (r.switchedOff w).2).2) := by
  unfold executeTool
  rcases r.switchedOff w with ⟨off,w'⟩
  dsimp only
  split
  · exact .inl ⟨_,rfl⟩
  rename_i hon
  cases htool : r.toolByName call.name with
  | none => exact .inl ⟨_,rfl⟩
  | some tool =>
    have hname : tool.name = call.name := by simpa using List.find?_some htool
    right
    use tool, List.mem_of_find?_eq_some htool, hname, hon
    dsimp only
    rcases tool.run call.input w' with ⟨_ | _,after⟩ <;> exact ⟨_,_,rfl⟩

theorem systemPromptNow_world (r : Router ω μ) (w : ω) :
    (r.systemPromptNow w).2 = (contextLines r.contextProviders w).2 := by
  unfold systemPromptNow
  rcases contextLines r.contextProviders w with ⟨_ | _,w'⟩ <;> rfl

def turnLoop (r : Router ω μ) (request : AssistantRequest) (s : Session ω μ) :
    Except LLMError AssistantResponse × ω × List (Round ω) :=
  r.agenticLoop (r.systemPromptNow s.world).1 r.maxToolIterations
    ((r.readHistory request.conversationId s.memory).map toWire ++ [userMessage request.text])
    (r.systemPromptNow s.world).2

theorem handle_loop (r : Router ω μ) (request : AssistantRequest) (s : Session ω μ) :
    (r.handle request s).rounds = (r.turnLoop request s).2.2 ∧
      (r.handle request s).session.world = (r.turnLoop request s).2.1 := by
  rw [handle]
  dsimp only [runAgenticLoop, turnLoop]
  split
  · exact ⟨rfl,rfl⟩
  · split <;> exact ⟨rfl,rfl⟩

end Router
end
end Emma.Orchestrator

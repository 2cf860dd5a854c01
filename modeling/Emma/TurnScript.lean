import Emma.Orchestrator

/-!
# A turn, call by call

A turn of the router awaits the store, the model, the gate, the providers and
the tools, and between two of these calls anybody else may run. Here the turn is
written down as the calls it makes, in order, each with what follows on its
answer. Every call on the store names the conversation of the request. Carried
out without a pause the script is the turn itself.
-/

set_option autoImplicit false

namespace Emma.TurnScript
open Emma.Python Emma.ConversationMemory Emma.LanguageModel Emma.Orchestrator

inductive Script (ω α : Type) where
  | done (result : α)
  | getHistory (next : Outcome (List StoredMessage) → Script ω α)
  | append (message : StoredMessage) (now : ℚ) (next : Outcome Unit → Script ω α)
  | complete (request : LLMRequest) (next : Except LLMError LLMResponse → Script ω α)
  | world (change : ω → ω) (next : ω → Script ω α)
  | record (reason : Option String) (now : ℚ) (next : Script ω α)

namespace Script
variable {ω μ α β : Type}

def bind : Script ω α → (α → Script ω β) → Script ω β
  | .done result, k => k result
  | .getHistory next, k => .getHistory fun history => (next history).bind k
  | .append message now next, k => .append message now fun outcome => (next outcome).bind k
  | .complete request next, k => .complete request fun reply => (next reply).bind k
  | .world change next, k => .world change fun w => (next w).bind k
  | .record reason now next, k => .record reason now (next.bind k)

instance : Monad (Script ω) where
  pure := .done
  bind := bind

def call (f : ω → β × ω) : Script ω β := .world (fun w => (f w).2) fun w => .done (f w).1

def contextLines : List (ω → Outcome String × ω) → Script ω (List String)
  | [] => return []
  | provider::rest => do
    match ← call provider with
    | .error _ => contextLines rest
    | .ok snapshot =>
      let lines ← contextLines rest
      return if snapshot = "" then lines else strip snapshot::lines

def systemPromptNow (r : Router ω μ) : Script ω String := do
  match ← contextLines r.contextProviders with
  | [] => return r.systemPrompt
  | lines => return r.systemPrompt ++ "\n\n" ++ "\n".intercalate lines

def switchedOff (r : Router ω μ) : Script ω (List String) := do
  match r.toolGate with
  | none => return []
  | some disabled =>
    match ← call disabled with
    | .ok names => return names
    | .error _ => return []

def executeTool (r : Router ω μ) (use : ToolUseBlock) : Script ω WireBlock := do
  let off ← switchedOff r
  if use.name ∈ off then
    return .toolResult use.id ("lo strumento " ++ use.name ++
      " e' disattivato: non posso usarlo finche' non viene riattivato") true
  else match r.toolByName use.name with
    | none => return .toolResult use.id ("unknown tool: " ++ use.name) true
    | some tool =>
      match ← call (tool.run use.input) with
      | .error e => return .toolResult use.id ("tool error: " ++ e) true
      | .ok output => return .toolResult use.id output false

def executeTools (r : Router ω μ) : List ToolUseBlock → Script ω (List WireBlock)
  | [] => return []
  | use::rest => do
    let result ← executeTool r use
    let results ← executeTools r rest
    return result::results

def agenticLoop (r : Router ω μ) (system : String) :
    ℕ → List Message → Script ω (Except LLMError AssistantResponse)
  | 0, _ => return .ok (degrade "tool_loop_ceiling" fallbackTooManySteps)
  | left+1, messages => do
    let off ← switchedOff r
    .complete ⟨system,messages,r.toolSchemas off⟩ fun
      | .error e => return .error e
      | .ok reply =>
        if reply.stopReason ≠ some "tool_use" ∨ reply.toolUses.isEmpty then
          return .ok (Router.finalAnswer reply)
        else do
          let results ← executeTools r reply.toolUses
          agenticLoop r system left
            (messages ++ [reply.toAssistantMessage,⟨.user,.blocks results⟩])

def remember (request : AssistantRequest) (answer : String) (now : ℚ) : Script ω Unit :=
  .append ⟨.user,request.text⟩ now fun
    | .error _ => return
    | .ok _ => .append ⟨.assistant,answer⟩ now fun _ => return

def conclude (r : Router ω μ) (request : AssistantRequest)
    (outcome : Except LLMError AssistantResponse) : Script ω (Except PyError AssistantResponse) :=
  match Router.settled outcome with
  | .error e => return .error e
  | .ok answer => do
    let now ← call fun w => (r.clock w,w)
    if answer.degraded then
      .record answer.reason now (return .ok answer)
    else
      .record none now do
        remember request answer.text now
        return .ok answer

def handle (r : Router ω μ) (request : AssistantRequest) :
    Script ω (Except PyError AssistantResponse) :=
  .getHistory fun outcome => do
    let history := match outcome with
      | .ok history => history
      | .error _ => []
    let messages := history.map toWire ++ [userMessage request.text]
    let system ← systemPromptNow r
    let answered ← agenticLoop r system r.maxToolIterations messages
    conclude r request answered

def finish (r : Router ω μ) (c : ConversationId) :
    Script ω α → Session ω μ → α × Session ω μ × List LLMRequest
  | .done result, s => (result,s,[])
  | .getHistory next, s => (next (r.memory.getHistory c s.memory)).finish r c s
  | .append message now next, s =>
    let (outcome,memory) := r.memory.append c message now s.memory
    (next outcome).finish r c { s with memory := memory }
  | .complete request next, s =>
    let (reply,w) := r.llm request s.world
    let (result,last,asked) := (next reply).finish r c { s with world := w }
    (result,last,request::asked)
  | .world change next, s => (next s.world).finish r c { s with world := change s.world }
  | .record reason now next, s => next.finish r c { s with stats := s.stats.record reason now }

section
variable (r : Router ω μ) (c : ConversationId)

theorem finish_bind (script : Script ω α) (k : α → Script ω β) (s : Session ω μ) :
    (script >>= k).finish r c s =
      let (result,s1,asked) := script.finish r c s
      let (last,s2,more) := (k result).finish r c s1
      (last,s2,asked ++ more) := by
  change (script.bind k).finish r c s = _
  induction script generalizing s with
  | done result => rfl
  | getHistory next ih => exact ih _ s
  | append message now next ih => exact ih _ _
  | complete request next ih =>
    simp only [bind, finish, ih]
    rfl
  | world change next ih => exact ih _ _
  | record reason now next ih => exact ih _

@[simp] theorem finish_pure (result : α) (s : Session ω μ) :
    (pure result : Script ω α).finish r c s = (result,s,[]) := rfl

@[simp] theorem finish_call (f : ω → β × ω) (s : Session ω μ) :
    (call f).finish r c s = ((f s.world).1,{ s with world := (f s.world).2 },[]) := rfl

@[simp] theorem finish_contextLines (providers : List (ω → Outcome String × ω))
    (s : Session ω μ) : (contextLines providers).finish r c s =
      ((Orchestrator.contextLines providers s.world).1,
        { s with world := (Orchestrator.contextLines providers s.world).2 },[]) := by
  induction providers generalizing s with
  | nil => rfl
  | cons provider rest ih =>
    rw [contextLines, finish_bind, finish_call, Orchestrator.contextLines]
    rcases provider s.world with ⟨_ | snapshot,w⟩
    · simp [ih]
    · simp [finish_bind, ih]

@[simp] theorem finish_systemPromptNow (s : Session ω μ) :
    (systemPromptNow r).finish r c s =
      ((r.systemPromptNow s.world).1,{ s with world := (r.systemPromptNow s.world).2 },[]) := by
  rw [systemPromptNow, finish_bind, finish_contextLines, Router.systemPromptNow]
  rcases Orchestrator.contextLines r.contextProviders s.world with ⟨_ | _,w⟩ <;> rfl

@[simp] theorem finish_switchedOff (s : Session ω μ) :
    (switchedOff r).finish r c s =
      ((r.switchedOff s.world).1,{ s with world := (r.switchedOff s.world).2 },[]) := by
  rw [switchedOff, Router.switchedOff]
  cases r.toolGate with
  | none => rfl
  | some disabled =>
    dsimp only
    rw [finish_bind, finish_call]
    rcases disabled s.world with ⟨_ | _,w⟩ <;> rfl

@[simp] theorem finish_executeTool (use : ToolUseBlock) (s : Session ω μ) :
    (executeTool r use).finish r c s =
      ((r.executeTool use s.world).1.result,
        { s with world := (r.executeTool use s.world).2 },[]) := by
  rw [executeTool, finish_bind, finish_switchedOff, Router.executeTool]
  rcases r.switchedOff s.world with ⟨off,w⟩
  dsimp only
  split
  · rfl
  · cases r.toolByName use.name with
    | none => rfl
    | some tool =>
      dsimp only
      rw [finish_bind, finish_call]
      rcases tool.run use.input w with ⟨_ | _,after⟩ <;> rfl

@[simp] theorem finish_executeTools (uses : List ToolUseBlock) (s : Session ω μ) :
    (executeTools r uses).finish r c s =
      ((r.executeTools uses s.world).1.map Answer.result,
        { s with world := (r.executeTools uses s.world).2 },[]) := by
  induction uses generalizing s with
  | nil => rfl
  | cons use rest ih => simp [executeTools, Router.executeTools, finish_bind, ih]

theorem finish_agenticLoop (system : String) (left : ℕ) (messages : List Message)
    (s : Session ω μ) :
    (agenticLoop r system left messages).finish r c s =
      ((r.agenticLoop system left messages s.world).1,
        { s with world := (r.agenticLoop system left messages s.world).2.1 },
        (r.agenticLoop system left messages s.world).2.2.map Round.request) := by
  induction left generalizing messages s with
  | zero => rfl
  | succ left ih =>
    rw [agenticLoop, finish_bind, finish_switchedOff, Router.agenticLoop]
    rcases r.switchedOff s.world with ⟨off,w⟩
    dsimp only
    rw [finish]
    rcases r.llm ⟨system,messages,r.toolSchemas off⟩ w with ⟨e | reply,w'⟩
    · rfl
    · dsimp only
      split
      · rfl
      · simp [finish_bind, ih]

theorem finish_remember (request : AssistantRequest) (answer : String) (now : ℚ)
    (s : Session ω μ) :
    (remember request answer now).finish r request.conversationId s =
      ((),{ s with memory := r.remember request answer now s.memory },[]) := by
  rw [remember, finish, Router.remember]
  rcases r.memory.append request.conversationId ⟨.user,request.text⟩ now s.memory with
    ⟨_ | _,memory⟩ <;> rfl

theorem finish_conclude (request : AssistantRequest)
    (outcome : Except LLMError AssistantResponse) (s : Session ω μ) :
    (conclude r request outcome).finish r request.conversationId s =
      match Router.settled outcome with
      | .error e => (.error e,s,[])
      | .ok answer => (.ok answer,if answer.degraded then
          { s with stats := s.stats.record answer.reason (r.clock s.world) }
        else ⟨s.stats.record none (r.clock s.world),
          r.remember request answer.text (r.clock s.world) s.memory,s.world⟩,[]) := by
  rw [conclude]
  cases Router.settled outcome with
  | error e => rfl
  | ok answer =>
    dsimp only
    rw [finish_bind, finish_call]
    dsimp only
    split
    · rfl
    · rw [finish, finish_bind, finish_remember]
      rfl

theorem finish_handle (request : AssistantRequest) (s : Session ω μ) :
    (handle r request).finish r request.conversationId s =
      ((r.handle request s).outcome,(r.handle request s).session,
        (r.handle request s).rounds.map Round.request) := by
  rw [handle, finish]
  dsimp only
  rw [finish_bind, finish_systemPromptNow]
  dsimp only
  rw [finish_bind, finish_agenticLoop, Router.handle]
  dsimp only [Router.runAgenticLoop]
  rw [finish_conclude]
  dsimp only [Router.readHistory]
  generalize r.agenticLoop _ _ _ _ = loop
  rcases loop with ⟨outcome,w,rounds⟩
  dsimp only
  cases Router.settled outcome with
  | error e => simp
  | ok answer => by_cases hd : answer.degraded = true <;> simp [hd]

end
end Script
end Emma.TurnScript

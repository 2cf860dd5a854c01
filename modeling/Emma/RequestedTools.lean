import Emma.Completions

/-!
# Whether a requested tool is run

A reply asks for a tool by its list of calls and by its reason for ending. The
loop wants both; a reply of the second provider may have the calls and another
reason. Its arguments are decoded first, and a text nested too deep is no reply
at all.
-/

set_option autoImplicit false

namespace Emma.RequestedTools
open Emma.Python Emma.ConversationMemory Emma.LanguageModel Emma.Orchestrator
open Emma.TurnTotality Emma.TurnRequests Emma.Dialects Emma.DialectAgreement Emma.GroqReplay
open Emma.Completions

section
variable {ω μ : Type}

structure Runs (tool : Tool ω) (call : ToolUseBlock) (before : ω) (answer : Answer ω)
    (after : ω) : Prop where
  invoked : answer.invoked = some ⟨call.name,call.input,before,after⟩
  world : after = (tool.run call.input before).2
  result : answer.result = match (tool.run call.input before).1 with
    | .ok output => .toolResult call.id output false
    | .error e => .toolResult call.id ("tool error: " ++ e) true

structure Executed (r : Router ω μ) (call : ToolUseBlock) (w : ω) (answer : Answer ω)
    (after : ω) : Prop where
  same : answer.call = call
  runs : ∀ tool, r.toolByName call.name = some tool → call.name ∉ (r.switchedOff w).1 →
    Runs tool call (r.switchedOff w).2 answer after
  refused : r.toolByName call.name = none ∨ call.name ∈ (r.switchedOff w).1 →
    answer.invoked = none ∧ after = (r.switchedOff w).2 ∧
      ∃ text, answer.result = .toolResult call.id text true

inductive InOrder (r : Router ω μ) : List ToolUseBlock → ω → List (Answer ω) → ω → Prop
  | nil (w : ω) : InOrder r [] w [] w
  | cons {call : ToolUseBlock} {rest : List ToolUseBlock} {w between last : ω}
      {answer : Answer ω} {answers : List (Answer ω)} (one : Executed r call w answer between)
      (others : InOrder r rest between answers last) :
      InOrder r (call::rest) w (answer::answers) last

def RunsCalls (ω μ : Type) (reply : LLMResponse) (calls : List ToolUseBlock) : Prop :=
  ∀ (r : Router ω μ) (system : String) (left : ℕ) (messages : List Message) (opened w : ω),
    let request : LLMRequest := ⟨system,messages,r.toolSchemas (r.switchedOff opened).1⟩
    r.llm request (r.switchedOff opened).2 = (.ok reply,w) →
    ∃ answers after, InOrder r calls w answers after ∧
      let results : Message := ⟨.user,.blocks (answers.map Answer.result)⟩
      let next := r.agenticLoop system left
        (messages ++ [reply.toAssistantMessage,results]) after
      results.Answers calls ∧ r.agenticLoop system (left+1) messages opened =
        (next.1,next.2.1,⟨opened,request,.ok reply,answers⟩::next.2.2)

theorem executeTool_executed (r : Router ω μ) (call : ToolUseBlock) (w : ω) :
    Executed r call w (r.executeTool call w).1 (r.executeTool call w).2 := by
  unfold Router.executeTool
  by_cases hoff : call.name ∈ (r.switchedOff w).1
  · dsimp only
    rw [if_pos hoff]
    exact ⟨rfl,fun _ _ hon => absurd hoff hon,fun _ => ⟨rfl,rfl,_,rfl⟩⟩
  dsimp only
  rw [if_neg hoff]
  cases htool : r.toolByName call.name with
  | none => exact ⟨rfl,fun tool h => by simp [htool] at h,fun _ => ⟨rfl,rfl,_,rfl⟩⟩
  | some tool =>
    have hname : tool.name = call.name := by simpa using List.find?_some htool
    have hrefused : ¬(r.toolByName call.name = none ∨ call.name ∈ (r.switchedOff w).1) := by
      simp [htool, hoff]
    dsimp only
    rcases hrun : tool.run call.input (r.switchedOff w).2 with ⟨_ | _,after⟩ <;>
      refine ⟨rfl,fun other hother _ => ?_,fun h => absurd h hrefused⟩ <;>
      obtain rfl : tool = other := Option.some.inj (htool.symm.trans hother)
    · exact ⟨by rw [← hname],by rw [hrun],by rw [hrun]⟩
    · exact ⟨by rw [← hname],by rw [hrun],by rw [hrun]⟩

theorem executeTools_inOrder (r : Router ω μ) (calls : List ToolUseBlock) (w : ω) :
    InOrder r calls w (r.executeTools calls w).1 (r.executeTools calls w).2 := by
  induction calls generalizing w with
  | nil => exact .nil w
  | cons call rest ih => exact .cons (executeTool_executed r call w) (ih _)

theorem runsCalls_of_asks (reply : LLMResponse) (h : AsksForTools reply) :
    RunsCalls ω μ reply reply.toolUses := by
  intro r system left messages opened w
  dsimp only
  intro hllm
  have hends : ¬(reply.stopReason ≠ some "tool_use" ∨ reply.toolUses.isEmpty = true) :=
    fun hends => (ends_iff reply).mpr hends h
  refine ⟨_,_,executeTools_inOrder r reply.toolUses w,
    executeTools_message r reply.toolUses w,?_⟩
  rw [Router.agenticLoop]
  dsimp only
  rw [hllm]
  dsimp only
  rw [if_neg hends]

/-- Where the loop is not asked, it ends the turn with what was said. -/
theorem turn_ends (reply : LLMResponse) (h : ¬AsksForTools reply) (r : Router ω μ)
    (system : String) (left : ℕ) (messages : List Message) (opened w : ω)
    (hllm : r.llm ⟨system,messages,r.toolSchemas (r.switchedOff opened).1⟩
      (r.switchedOff opened).2 = (.ok reply,w)) :
    r.agenticLoop system (left+1) messages opened = (.ok (Router.finalAnswer reply),w,
      [⟨opened,⟨system,messages,r.toolSchemas (r.switchedOff opened).1⟩,.ok reply,[]⟩]) := by
  rw [Router.agenticLoop]
  dsimp only
  rw [hllm]
  dsimp only
  rw [if_pos ((ends_iff reply).mp h)]

end

def decoded (loads : String → Loaded) (call : GroqCall) : ToolUseBlock :=
  ⟨call.id,call.name,parsedArguments (fun text => (loads text).decoded) call.arguments⟩

section
variable {loads : String → Loaded}

/-- A message is decoded exactly where no arguments are nested too deep. -/
theorem fromGroqMessage_iff (message : GroqReply) (finishReason : Option String)
    (reply : LLMResponse) :
    GroqLanguageModel.fromGroqMessage loads message finishReason = .ok reply ↔
      (∀ call ∈ message.toolCalls.getD [], Shallow loads call) ∧
        reply = fromGroqMessage (fun text => (loads text).decoded) message finishReason := by
  rcases calls_read (message.toolCalls.getD []) with ⟨hall,hread⟩ | ⟨hnot,text,hread⟩
  · rw [and_iff_right hall, GroqLanguageModel.fromGroqMessage, hread]
    dsimp only [bind, Except.bind, pure, Except.pure]
    rw [Except.ok.injEq, eq_comm]
    rfl
  · rw [GroqLanguageModel.fromGroqMessage, hread]
    exact iff_of_false (by simp [bind, Except.bind]) fun h => hnot h.1

theorem stopReason_iff (loads : String → Option Decoded) (message : GroqReply)
    (finishReason : Option String) :
    (fromGroqMessage loads message finishReason).stopReason = some "tool_use" ↔
      finishReason = some "tool_calls" ∨ finishReason = some "tool_use" := by
  by_cases hcalls : finishReason = some "tool_calls"
  · simp [fromGroqMessage, hcalls]
  · simp [fromGroqMessage, hcalls]

/-- The reply asks for its tools, and the loop executes every one of them. -/
def Honoured (ω μ : Type) (loads : String → Loaded) (content : Option String)
    (calls : List GroqCall) (finishReason : Option String) : Prop :=
  ∃ reply, GroqLanguageModel.fromGroqMessage loads ⟨content,some calls⟩ finishReason =
      .ok reply ∧ reply.stopReason = some "tool_use" ∧
    RunsCalls ω μ reply (calls.map (decoded loads))

/-- The calls of a reply are run exactly when it ended for them and could be read. -/
theorem requested_tools_run_iff (ω μ : Type) (loads : String → Loaded) (content : Option String)
    (call : GroqCall) (calls : List GroqCall) (finishReason : Option String) :
    Honoured ω μ loads content (call::calls) finishReason ↔
      (finishReason = some "tool_calls" ∨ finishReason = some "tool_use") ∧
        ∀ c ∈ call::calls, Shallow loads c := by
  have hread := @fromGroqMessage_iff loads ⟨content,some (call::calls)⟩ finishReason
  have hstop := stopReason_iff (fun text => (loads text).decoded) ⟨content,some (call::calls)⟩
    finishReason
  constructor
  · rintro ⟨reply,hreply,htools,-⟩
    obtain ⟨hshallow,rfl⟩ := (hread reply).mp hreply
    exact ⟨hstop.mp htools,hshallow⟩
  · rintro ⟨hfinish,hshallow⟩
    refine ⟨_,(hread _).mpr ⟨hshallow,rfl⟩,hstop.mpr hfinish,?_⟩
    have huses := @fromGroqMessage_toolUses (fun text => (loads text).decoded)
      ⟨content,some (call::calls)⟩ finishReason
    have hruns : RunsCalls ω μ _ _ :=
      runsCalls_of_asks _ ⟨hstop.mpr hfinish,by rw [huses]; rfl⟩
    rw [huses] at hruns
    exact hruns

end

def unfinished : GroqCall := ⟨"call_1","work_status",emptyObject⟩

/-- `json.loads` on the text of the example. -/
def loadsNothing (_ : String) : Loaded := .value (.object [])

theorem unfinished_call_is_dropped :
    ¬Honoured Unit Unit loadsNothing (some "Guardo.") [unfinished] (some "stop") := by
  rintro ⟨reply,hreply,htools,-⟩
  obtain ⟨-,rfl⟩ := (fromGroqMessage_iff _ _ _).mp hreply
  have hno : ¬(some "stop" = some "tool_calls" ∨ some "stop" = some "tool_use") := by decide
  exact hno ((stopReason_iff _ _ _).mp htools)

end Emma.RequestedTools

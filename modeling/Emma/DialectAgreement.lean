import Emma.Dialects
import Emma.TurnTotality

/-!
# One script, two dialects

Replies that ask for the same calls, or end the turn with the same text, drive
the router alike, whatever the tools, the gate and the history are.
-/

set_option autoImplicit false

namespace Emma.DialectAgreement
open Emma.Python Emma.ConversationMemory Emma.LanguageModel Emma.Orchestrator Emma.TurnTotality Emma.Dialects

structure Reply where
  prose : Option {text : String // text ≠ ""}
  calls : List ToolUseBlock

namespace Reply

def anthropic (reply : Reply) : AnthropicReply where
  content := (reply.prose.toList.map fun text => .text text.val) ++
    reply.calls.map fun call => .toolUse call.id call.name (.object call.input)
  stopReason := some (if reply.calls.isEmpty then "end_turn" else "tool_use")

def groq (dumps : Arguments → String) (reply : Reply) : GroqChoice where
  message := ⟨reply.prose.map Subtype.val,
    if reply.calls.isEmpty then none
    else some (reply.calls.map fun call => ⟨call.id,call.name,dumps call.input⟩)⟩
  finishReason := some (if reply.calls.isEmpty then "stop" else "tool_calls")

end Reply

def Alike (a b : LLMResponse) : Prop :=
  a = b ∨ ¬AsksForTools a ∧ ¬AsksForTools b ∧ a.text = b.text

def spoken {ω α π : Type} (script : ℕ → α) (_ : π) (s : ω × ℕ) :
    Except LLMError α × (ω × ℕ) := (.ok (script s.2),s.1,s.2+1)

section
variable {ω μ : Type}

def withModel (r : Router ω μ) (llm : LLMRequest → ω → Except LLMError LLMResponse × ω) :
    Router ω μ := { r with llm := llm }

def driven (r : Router ω μ)
    (llm : LLMRequest → ω × ℕ → Except LLMError LLMResponse × (ω × ℕ)) : Router (ω × ℕ) μ :=
  withModel (scripted r fun _ => .error (.unavailable "")) llm

def seen (round : Round ω) : ω × LLMRequest × List (Answer ω) :=
  (round.opened,round.request,round.answers)

section
variable (r : Router ω μ) (llm : LLMRequest → ω → Except LLMError LLMResponse × ω)

theorem withModel_switchedOff (w : ω) : (withModel r llm).switchedOff w = r.switchedOff w := rfl

theorem withModel_toolSchemas (off : List String) :
    (withModel r llm).toolSchemas off = r.toolSchemas off := rfl

theorem withModel_llm : (withModel r llm).llm = llm := rfl

theorem withModel_systemPromptNow (w : ω) :
    (withModel r llm).systemPromptNow w = r.systemPromptNow w := rfl

theorem withModel_readHistory (conversationId : ConversationId) (memory : μ) :
    (withModel r llm).readHistory conversationId memory =
      r.readHistory conversationId memory := rfl

theorem withModel_maxToolIterations :
    (withModel r llm).maxToolIterations = r.maxToolIterations := rfl

theorem withModel_executeTools (calls : List ToolUseBlock) (w : ω) :
    (withModel r llm).executeTools calls w = r.executeTools calls w := by
  induction calls generalizing w with
  | nil => rfl
  | cons call rest ih =>
    rw [Router.executeTools, Router.executeTools]
    simp only [ih]
    rfl

end

theorem ends_iff (reply : LLMResponse) : ¬AsksForTools reply ↔
    reply.stopReason ≠ some "tool_use" ∨ reply.toolUses.isEmpty = true := by
  rw [AsksForTools, not_and_or]
  simp

/-- Models that reply alike take the loop to the same answer, over the same
requests and the same runs of the tools. -/
theorem agenticLoop_alike (r : Router ω μ)
    (llm llm' : LLMRequest → ω → Except LLMError LLMResponse × ω)
    (halike : ∀ request w, ∃ a b after, llm request w = (.ok a,after) ∧
      llm' request w = (.ok b,after) ∧ Alike a b)
    (system : String) (left : ℕ) (messages : List Message) (w : ω) :
    let one := (withModel r llm).agenticLoop system left messages w
    let other := (withModel r llm').agenticLoop system left messages w
    one.1 = other.1 ∧ one.2.1 = other.2.1 ∧ one.2.2.map seen = other.2.2.map seen := by
  induction left generalizing messages w with
  | zero => exact ⟨rfl,rfl,rfl⟩
  | succ left ih =>
    rw [Router.agenticLoop, Router.agenticLoop]
    simp only [withModel_executeTools, withModel_switchedOff, withModel_toolSchemas, withModel_llm]
    rcases r.switchedOff w with ⟨off,w1⟩
    dsimp only
    obtain ⟨a,b,w2,ha,hb,hab⟩ := halike ⟨system,messages,r.toolSchemas off⟩ w1
    rw [ha, hb]
    dsimp only
    rcases hab with rfl | ⟨hends,hends',htext⟩
    · split
      · exact ⟨rfl,rfl,rfl⟩
      · obtain ⟨hanswer,hworld,hrounds⟩ := ih
          (messages ++ [a.toAssistantMessage,
            ⟨.user,.blocks ((r.executeTools a.toolUses w2).1.map Answer.result)⟩])
          (r.executeTools a.toolUses w2).2
        refine ⟨hanswer,hworld,?_⟩
        simp only [List.map_cons, hrounds]
    · rw [if_pos ((ends_iff a).mp hends), if_pos ((ends_iff b).mp hends')]
      simp [Router.finalAnswer, htext, seen]

theorem handle_alike (r : Router ω μ)
    (llm llm' : LLMRequest → ω → Except LLMError LLMResponse × ω)
    (halike : ∀ request w, ∃ a b after, llm request w = (.ok a,after) ∧
      llm' request w = (.ok b,after) ∧ Alike a b)
    (request : AssistantRequest) (s : Session ω μ) :
    let one := (withModel r llm).handle request s
    let other := (withModel r llm').handle request s
    one.outcome = other.outcome ∧ one.session = other.session ∧
      one.rounds.map seen = other.rounds.map seen := by
  dsimp only [Router.handle, Router.runAgenticLoop]
  simp only [withModel_systemPromptNow, withModel_readHistory, withModel_maxToolIterations]
  rcases r.systemPromptNow s.world with ⟨system,w⟩
  obtain ⟨hanswer,hworld,hrounds⟩ := agenticLoop_alike r llm llm' halike system r.maxToolIterations
    ((r.readHistory request.conversationId s.memory).map toWire ++ [userMessage request.text]) w
  rcases hone : (withModel r llm).agenticLoop system r.maxToolIterations
    ((r.readHistory request.conversationId s.memory).map toWire ++ [userMessage request.text]) w
    with ⟨answer,after,rounds⟩
  rcases hother : (withModel r llm').agenticLoop system r.maxToolIterations
    ((r.readHistory request.conversationId s.memory).map toWire ++ [userMessage request.text]) w
    with ⟨answer',after',rounds'⟩
  rw [hone, hother] at hanswer hworld hrounds
  dsimp only at hanswer hworld hrounds
  subst hanswer hworld
  dsimp only
  cases Router.settled answer with
  | error e => exact ⟨rfl,rfl,hrounds⟩
  | ok response =>
    dsimp only
    split <;> exact ⟨rfl,rfl,hrounds⟩

theorem parsedArguments_dumps (loads : String → Option Decoded) (dumps : Arguments → String)
    (hempty : loads "" = none) (input : Arguments)
    (hjson : loads (dumps input) = some (.object input)) :
    parsedArguments loads (dumps input) = input := by
  have hsome : dumps input ≠ "" := by
    intro hblank
    rw [hblank, hempty] at hjson
    cases hjson
  rw [parsedArguments, if_neg hsome, hjson]
  rfl

theorem decoded_alike (loads : String → Option Decoded) (dumps : Arguments → String)
    (hempty : loads "" = none) (reply : Reply)
    (hjson : ∀ call ∈ reply.calls, loads (dumps call.input) = some (.object call.input)) :
    Alike (toResponse reply.anthropic)
      (fromGroqMessage loads (reply.groq dumps).message (reply.groq dumps).finishReason) := by
  obtain ⟨prose,calls⟩ := reply
  cases calls with
  | nil =>
    right
    simp only [ends_iff]
    refine ⟨.inl ?_,.inl ?_,?_⟩
    · simp [toResponse, Reply.anthropic]
    · simp [fromGroqMessage, Reply.groq]
    · cases prose with
      | none => rfl
      | some text =>
        simp [toResponse, Reply.anthropic, fromGroqMessage, Reply.groq, text.2, LLMResponse.text]
  | cons call calls =>
    left
    have hcalls : (call::calls).map (fun call => ContentBlock.toolUse
        ⟨call.id,call.name,parsedArguments loads (dumps call.input)⟩) =
          (call::calls).map ContentBlock.toolUse := by
      apply List.map_congr_left
      intro other hother
      rw [parsedArguments_dumps loads dumps hempty other.input (hjson other hother)]
    have hdecoded : toResponse (Reply.anthropic ⟨prose,call::calls⟩) =
        ⟨(prose.toList.map fun text => .text text.val) ++ (call::calls).map ContentBlock.toolUse,
          some "tool_use"⟩ := by
      simp [toResponse, Reply.anthropic, Decoded.fields]
    rw [hdecoded, ← hcalls]
    cases prose with
    | none => simp [fromGroqMessage, Reply.groq]
    | some text => simp [fromGroqMessage, Reply.groq, text.2]

end

/-- A script drives the router to the same answer in either dialect, over the
same requests and the same runs of the tools. -/
theorem dialects_agree {ω μ : Type} (loads : String → Option Decoded)
    (dumps : Arguments → String) (hempty : loads "" = none) (script : ℕ → Reply)
    (hjson : ∀ n, ∀ call ∈ (script n).calls, loads (dumps call.input) = some (.object call.input))
    (anthropic groq : Client) (r : Router ω μ) (request : AssistantRequest)
    (s : Session (ω × ℕ) μ) :
    let one := (driven r (AnthropicLanguageModel.complete anthropic
      (spoken fun n => (script n).anthropic))).handle request s
    let other := (driven r (GroqLanguageModel.complete loads dumps groq
      (spoken fun n => (script n).groq dumps))).handle request s
    one.outcome = other.outcome ∧ one.session = other.session ∧
      one.rounds.map seen = other.rounds.map seen := by
  apply handle_alike
  intro llmRequest w
  exact ⟨_,_,_,rfl,rfl,decoded_alike loads dumps hempty (script w.2) (hjson w.2)⟩

def zoned : Arguments := [("zone",⟨.string "UTC","UTC",.error (.valueError "")⟩)]

def zonedText : String := "\x7b\"zone\": \"UTC\"\x7d"

/-- `json.loads` on the texts of the example. -/
def loadsZoned (text : String) : Option Decoded :=
  if text = emptyObject then some (.object [])
  else if text = zonedText then some (.object zoned)
  else none

def dumpsZoned (input : Arguments) : String := if input.isEmpty then emptyObject else zonedText

def askingTwice (n : ℕ) : Reply :=
  if n = 0 then ⟨some ⟨"Guardo l'ora.",by decide⟩,[⟨"1","clock",[]⟩,⟨"2","clock",zoned⟩]⟩
  else ⟨none,[]⟩

def withClock : Router Unit Unit where
  llm := fun _ w => (.error (.unavailable ""),w)
  memory := ⟨fun _ _ => .ok [],fun _ _ _ m => (.ok (),m)⟩
  systemPrompt := "Sei EMMA."
  tools := [⟨"clock","",emptyObject,fun _ w => (.ok "12:00",w)⟩]
  contextProviders := []
  toolGate := none
  maxToolIterations := defaultMaxToolIterations
  clock := fun _ => 0
  distinct := rfl

theorem dialects_agree_on_the_clock :
    let one := (driven withClock (AnthropicLanguageModel.complete ⟨"claude",2048⟩
      (spoken fun n => (askingTwice n).anthropic))).handle ⟨"che ore sono?","1","1"⟩
        ⟨⟨0,0,none,none⟩,(),((),0)⟩
    let other := (driven withClock (GroqLanguageModel.complete loadsZoned dumpsZoned ⟨"llama",2048⟩
      (spoken fun n => (askingTwice n).groq dumpsZoned))).handle ⟨"che ore sono?","1","1"⟩
        ⟨⟨0,0,none,none⟩,(),((),0)⟩
    one.outcome = other.outcome ∧ one.session = other.session ∧
      one.rounds.map seen = other.rounds.map seen := by
  apply dialects_agree loadsZoned dumpsZoned (by decide) askingTwice
  intro n call hcall
  unfold askingTwice at hcall
  split at hcall
  · simp only [List.mem_cons, List.not_mem_nil, or_false] at hcall
    rcases hcall with rfl | rfl <;> rfl
  · cases hcall

end Emma.DialectAgreement

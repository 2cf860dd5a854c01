import Emma.Orchestrator

/-!
# The two dialects

The router speaks in blocks, as one of the providers does. For the other a call
is a field of the assistant's message with its arguments as text, and a result
is a message of its own. What reads and writes that text is a parameter, and so
is the call of the provider's client, with the ladder of attempts around it.
-/

set_option autoImplicit false

namespace Emma.Dialects
open Emma.Python Emma.ConversationMemory Emma.LanguageModel

/-- What `json.loads` returns: a dictionary, or something else. -/
inductive Decoded where
  | object (fields : Arguments)
  | other

def Decoded.fields : Decoded → Arguments
  | object fields => fields
  | other => []

inductive AnthropicBlock where
  | text (text : String)
  | toolUse (id name : String) (input : Decoded)
  | other (kind : String)

structure AnthropicReply where
  content : List AnthropicBlock
  stopReason : Option String

def toResponse (raw : AnthropicReply) : LLMResponse where
  blocks := raw.content.filterMap fun
    | .text text => some (.text text)
    | .toolUse id name input => some (.toolUse ⟨id,name,input.fields⟩)
    | .other _ => none
  stopReason := raw.stopReason

/-- An entry of `tool_calls`, its arguments as a JSON text. -/
structure GroqCall where
  id : String
  name : String
  arguments : String

structure GroqReply where
  content : Option String
  toolCalls : Option (List GroqCall)

structure GroqChoice where
  message : GroqReply
  finishReason : Option String

/-- A message of the chat completions API. A field that is left out is `none`,
and so is a content that is null. -/
inductive GroqMessage where
  | plain (role : Role) (content : String)
  | system (content : String)
  | assistant (content : Option String) (toolCalls : Option (List GroqCall))
  | tool (toolCallId content : String)

structure GroqTool where
  name : String
  description : String
  parameters : String

def emptyObject : String := "\x7b\x7d"

def textOf (blocks : List WireBlock) : String :=
  "\n\n".intercalate (blocks.filterMap fun
    | .text text => some text
    | _ => none)

def toGroqTools (tools : List ToolDeclaration) : List GroqTool :=
  tools.map fun tool => ⟨tool.name,tool.description,
    if tool.inputSchema = emptyObject then
      "\x7b\"type\": \"object\", \"properties\": \x7b\x7d\x7d"
    else tool.inputSchema⟩

/-- A truthy list, as `if tools:` tells it. -/
def nonEmpty {α : Type} : Option (List α) → Option (List α)
  | some (a::as) => some (a::as)
  | _ => none

section
variable (loads : String → Option Decoded) (dumps : Arguments → String)

def toGroqCalls (blocks : List WireBlock) : List GroqCall :=
  blocks.filterMap fun
    | .toolUse call => some ⟨call.id,call.name,dumps call.input⟩
    | _ => none

def fromUser (blocks : List WireBlock) : List GroqMessage :=
  let results := blocks.filterMap fun
    | .toolResult toolUseId content _ => some (GroqMessage.tool toolUseId content)
    | _ => none
  let prose := blocks.filterMap fun
    | .text text => some text
    | _ => none
  results ++ if prose = [] then [] else [.plain .user ("\n\n".intercalate prose)]

def toGroq (message : Message) : List GroqMessage :=
  match message.content, message.role with
  | .plain text, role => [.plain role text]
  | .blocks blocks, .assistant =>
    [.assistant (if textOf blocks = "" then none else some (textOf blocks))
      (nonEmpty (some (toGroqCalls dumps blocks)))]
  | .blocks blocks, .user => fromUser blocks

def toGroqMessages (system : String) (messages : List Message) : List GroqMessage :=
  .system system::messages.flatMap (toGroq dumps)

/-- Arguments that do not parse are taken for none. Those nested too deep to be parsed
raise instead: `Completions` has them. -/
def parsedArguments (text : String) : Arguments :=
  match loads (if text = "" then emptyObject else text) with
  | some decoded => decoded.fields
  | none => []

def fromGroqMessage (message : GroqReply) (finishReason : Option String) : LLMResponse where
  blocks :=
    let prose := match message.content with
      | some text => if text = "" then [] else [.text text]
      | none => []
    let calls := (message.toolCalls.getD []).map fun call =>
      ContentBlock.toolUse ⟨call.id,call.name,parsedArguments loads call.arguments⟩
    match prose ++ calls with
    | [] => [.text ""]
    | blocks => blocks
  stopReason := if finishReason = some "tool_calls" then some "tool_use" else finishReason

structure Client where
  model : String
  maxTokens : ℕ

structure AnthropicPayload where
  model : String
  maxTokens : ℕ
  system : String
  messages : List Message
  tools : Option (List ToolDeclaration)

structure GroqPayload where
  model : String
  messages : List GroqMessage
  maxTokens : ℕ
  tools : Option (List GroqTool)

variable {ω : Type}

namespace AnthropicLanguageModel

def payload (client : Client) (request : LLMRequest) : AnthropicPayload :=
  ⟨client.model,client.maxTokens,request.system,request.messages,nonEmpty request.tools⟩

def complete (client : Client)
    (create : AnthropicPayload → ω → Except LLMError AnthropicReply × ω) (request : LLMRequest)
    (w : ω) : Except LLMError LLMResponse × ω :=
  let (raw,w) := create (payload client request) w
  (raw.map toResponse,w)

end AnthropicLanguageModel

namespace GroqLanguageModel

def payload (client : Client) (request : LLMRequest) : GroqPayload :=
  ⟨client.model,toGroqMessages dumps request.system request.messages,client.maxTokens,
    (nonEmpty request.tools).map toGroqTools⟩

def complete (client : Client)
    (create : GroqPayload → ω → Except LLMError GroqChoice × ω) (request : LLMRequest)
    (w : ω) : Except LLMError LLMResponse × ω :=
  let (raw,w) := create (payload dumps client request) w
  (raw.map fun choice => fromGroqMessage loads choice.message choice.finishReason,w)

end GroqLanguageModel
end
end Emma.Dialects

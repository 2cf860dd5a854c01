import Emma.ConversationMemory
import Emma.Numbers

/-!
# What the router and the model say to each other

A reply is a list of blocks, prose or requests to run a tool. A message on the
wire is a role with plain text or with blocks, and a request carries the whole
history: the API is stateless, so a reply is replayed verbatim.
-/

set_option autoImplicit false

namespace Emma.LanguageModel
open Emma.Python Emma.Numbers Emma.ConversationMemory

/-- What `json.loads` makes of a text. -/
inductive Json where
  | null
  | bool (b : Bool)
  | integer (n : ℤ)
  | real (x : PyFloat)
  | string (text : String)
  | array (items : List Json)
  | object (fields : List (String × Json))

/-- A decoded argument, with what `str` and `int` make of it. -/
structure Value where
  json : Json
  str : String
  int : Except PyError ℤ

abbrev Arguments := List (String × Value)

/-- `str(arguments.get(key, ""))`. -/
def Arguments.text (arguments : Arguments) (key : String) : String :=
  ((arguments.lookup key).map Value.str).getD ""

/-- `int(arguments[key])`. -/
def Arguments.integer (arguments : Arguments) (key : String) : Except PyError ℤ :=
  match arguments.lookup key with
  | none => .error (.keyError key)
  | some value => value.int

structure ToolUseBlock where
  id : String
  name : String
  input : Arguments

inductive ContentBlock where
  | text (text : String)
  | toolUse (call : ToolUseBlock)

inductive WireBlock where
  | text (text : String)
  | toolUse (call : ToolUseBlock)
  | toolResult (toolUseId content : String) (isError : Bool)

inductive WireContent where
  | plain (text : String)
  | blocks (blocks : List WireBlock)

structure Message where
  role : Role
  content : WireContent

structure LLMResponse where
  blocks : List ContentBlock
  stopReason : Option String

namespace LLMResponse

def text (reply : LLMResponse) : String :=
  strip ("\n\n".intercalate (reply.blocks.filterMap fun
    | .text text => some text
    | .toolUse _ => none))

def toolUses (reply : LLMResponse) : List ToolUseBlock :=
  reply.blocks.filterMap fun
    | .text _ => none
    | .toolUse call => some call

def toAssistantMessage (reply : LLMResponse) : Message where
  role := .assistant
  content := .blocks (reply.blocks.map fun
    | .text text => .text text
    | .toolUse call => .toolUse call)

end LLMResponse

/-- What `complete` may raise: `LLMUnavailableError`, or its narrower subclass. -/
inductive LLMError where
  | unavailable (text : String)
  | quotaExceeded (text : String) (retryAfter : Option PyFloat)

structure ToolDeclaration where
  name : String
  description : String
  inputSchema : String

structure LLMRequest where
  system : String
  messages : List Message
  tools : Option (List ToolDeclaration)

/-- The `tool_use` blocks of a message, in order. -/
def Message.toolUses (message : Message) : List ToolUseBlock :=
  match message.content with
  | .plain _ => []
  | .blocks blocks => blocks.filterMap fun
    | .toolUse call => some call
    | _ => none

def WireBlock.answers : WireBlock → Option String
  | .toolResult toolUseId _ _ => some toolUseId
  | _ => none

def Message.Answers (message : Message) (calls : List ToolUseBlock) : Prop :=
  message.role = .user ∧ ∃ blocks, message.content = .blocks blocks ∧
    blocks.map WireBlock.answers = calls.map fun call => some call.id

@[simp] theorem toAssistantMessage_toolUses (reply : LLMResponse) :
    reply.toAssistantMessage.toolUses = reply.toolUses := by
  simp only [Message.toolUses, LLMResponse.toAssistantMessage, LLMResponse.toolUses,
    List.filterMap_map]
  congr 1
  funext block
  cases block <;> rfl

end Emma.LanguageModel

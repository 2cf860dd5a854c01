import Emma.ContextLine

/-!
# The tools of the assistant

`create_app` puts eleven of them together and hands the whole set to those that
describe it. Two only read the machine they run on: the stamp of the deployment
and the clock.
-/

set_option autoImplicit false

namespace Emma.OwnTools
open Emma.Python Emma.Numbers Emma.LanguageModel Emma.Orchestrator Emma.DevelopmentTools
open Emma.Facts Emma.ToolState Emma.ToolStateTools Emma.ToolGate Emma.ContextLine

/-- `bool` of a value. -/
def truthy : Json → Bool
  | .null => false
  | .bool b => b
  | .integer n => n ≠ 0
  | .real x => x ≠ .finite 0
  | .string text => text ≠ ""
  | .array items => !items.isEmpty
  | .object fields => !fields.isEmpty

namespace RunningVersion

def name : String := "running_version"

def description : String :=
  "Report which version of EMMA's code is actually running, with the " ++
  "commit and the date it was installed. Use it when the user asks what " ++
  "version you are, which code you are running, or whether the server is " ++
  "up to date with the repository. Report the commit exactly as given: it " ++
  "is the only field that actually answers the question. Do not answer " ++
  "from memory -- the version changes underneath you at every deploy."

def inputSchema : String := "\x7b\"type\": \"object\", \"properties\": \x7b\x7d\x7d"

end RunningVersion

namespace CurrentTime

def name : String := "current_time"

def description : String :=
  "Give the current date and time where the user is. Call it whenever " ++
  "they ask what time or what day it is, or when answering needs today's " ++
  "date -- how many days until something, what day of the week a date " ++
  "falls on. You have no clock of your own and cannot infer the time from " ++
  "the conversation, so guessing is always wrong."

def inputSchema : String := "\x7b\"type\": \"object\", \"properties\": \x7b\x7d\x7d"

end CurrentTime

namespace ToolInventory

def name : String := "list_tools"

def description : String :=
  "List the tools you can call, with how many there are. Use it whenever " ++
  "the user asks what you can do, how many tools you have, which ones, or " ++
  "whether you are able to do some particular thing. Pass detailed=true " ++
  "when they want to know what each one is for. Do not answer from " ++
  "memory: the set changes as EMMA is developed, and what you assume " ++
  "about yourself is not evidence. Tools marked disattivato have been " ++
  "switched off and cannot be called until enable_tool puts them back. " ++
  "The descriptions come back in English because they are written for " ++
  "you -- render them for the user in Italian, briefly."

def inputSchema : String :=
  "\x7b\"type\": \"object\", \"properties\": \x7b" ++
  "\"detailed\": \x7b\"type\": \"boolean\", \"description\": " ++
  "\"True to include what each tool is for. False, the default, " ++
  "returns the count and the names only.\"\x7d\x7d\x7d"

def label (off : List String) (tool : String × String) : String :=
  if tool.1 ∈ off then tool.1 ++ " (disattivato)" else tool.1

/-- The listing of tools given by name and description. A row of a tool that is
not registered does not count. -/
def run (tools : List (String × String)) (switchedOff : List String) (arguments : Arguments) :
    String :=
  let off := ((tools.map Prod.fst).dedup).filter fun name => name ∈ switchedOff
  let detailed := ((arguments.lookup "detailed").map fun value => truthy value.json).getD false
  let opening := (if tools.length = 1 then "Ho 1 strumento"
    else "Ho " ++ toString tools.length ++ " strumenti") ++
    if off = [] then "" else ", di cui " ++ toString off.length ++ " disattivati"
  if tools = [] then "Non lo so: l'elenco degli strumenti non mi e' stato passato."
  else if detailed then
    "\n".intercalate ((opening ++ ":")::tools.map fun tool =>
      "- " ++ label off tool ++ ": " ++ tool.2)
  else opening ++ ": " ++ ", ".intercalate (tools.map (label off)) ++ "."

end ToolInventory

section
variable {ρ μ : Type}

theorem factsTools_confined (clock : Clock) (tool : Tool (World (FactTable × ρ)))
    (htool : tool ∈ factsTools clock) (arguments : Arguments) : Confined (tool.run arguments) := by
  intro w
  simp only [factsTools, List.mem_cons, List.not_mem_nil, or_false] at htool
  rcases htool with rfl | rfl <;> rfl

/-- What `create_app` is given: the model client, the memory, the personality
and the machine. The client has no access to the table. -/
structure App (ρ μ : Type) where
  llm : LLMRequest → World (FactTable × ρ) →
    Except LLMError LLMResponse × World (FactTable × ρ)
  memory : Store μ
  systemPrompt : String
  maxToolIterations : ℕ
  describeVersion : ρ → String
  describeNow : ρ → String
  confined : ∀ request, Confined (llm request)

def reading (name description inputSchema : String)
    (answer : Arguments → World (FactTable × ρ) → String) : Tool (World (FactTable × ρ)) :=
  ⟨name,description,inputSchema,fun arguments w => (.ok (answer arguments w),w)⟩

def inventory : List (String × String) :=
  [(RequestDevelopment.name,RequestDevelopment.description),
    (WorkStatus.name,WorkStatus.description),
    (AnswerQuestion.name,AnswerQuestion.description),
    (AbandonDevelopment.name,AbandonDevelopment.description),
    (RunningVersion.name,RunningVersion.description),
    (RememberFact.name,RememberFact.description),
    (ForgetFact.name,ForgetFact.description),
    (CurrentTime.name,CurrentTime.description),
    (RemoveTool.name,RemoveTool.description),
    (EnableTool.name,EnableTool.description),
    (ToolInventory.name,ToolInventory.description)]

namespace App

/-- `all_tools`. -/
def registered (a : App ρ μ) (clock : Clock) : List (Registered (FactTable × ρ)) :=
  (developmentTools clock).map .other ++
  [.other (reading RunningVersion.name RunningVersion.description RunningVersion.inputSchema
    fun _ w => a.describeVersion w.rest.2)] ++
  (factsTools clock).map .other ++
  [.other (reading CurrentTime.name CurrentTime.description CurrentTime.inputSchema
    fun _ w => a.describeNow w.rest.2)] ++
  [.removeTool,.enableTool] ++
  [.other (reading ToolInventory.name ToolInventory.description ToolInventory.inputSchema
    fun arguments w => ToolInventory.run inventory w.off arguments)]

theorem registered_names (a : App ρ μ) (clock : Clock) :
    (a.registered clock).map Registered.name = inventory.map Prod.fst := rfl

def household (a : App ρ μ) (clock : Clock) : Household (FactTable × ρ) μ where
  llm := a.llm
  memory := a.memory
  systemPrompt := a.systemPrompt
  registered := a.registered clock
  contextProviders := [developmentContext,factsContext]
  maxToolIterations := a.maxToolIterations
  distinct := by
    rw [registered_names]
    decide

/-- Beside the two tools that are made for it, none writes the table. -/
theorem household_fenced (a : App ρ μ) (clock : Clock) : (a.household clock).Fenced where
  llm := a.confined
  contextProviders := by
    intro provider hprovider w
    simp only [household, List.mem_cons, List.not_mem_nil, or_false] at hprovider
    rcases hprovider with rfl | rfl <;> rfl
  tools := by
    intro tool htool arguments w
    simp only [household, registered, List.mem_append, List.mem_map, List.mem_singleton] at htool
    rcases htool with ((((⟨_,hdevelopment,hsame⟩ | hversion) | ⟨_,hfacts,hsame⟩) | htime) | hown) |
      hlist
    · obtain rfl := Registered.other.inj hsame
      exact developmentTools_confined clock _ hdevelopment arguments w
    · obtain rfl := Registered.other.inj hversion
      rfl
    · obtain rfl := Registered.other.inj hsame
      exact factsTools_confined clock _ hfacts arguments w
    · obtain rfl := Registered.other.inj htime
      rfl
    · simp at hown
    · obtain rfl := Registered.other.inj hlist
      rfl

end App
end
end Emma.OwnTools

import Emma.Orchestrator

/-!
# The model as a script

What a model answers is given call after call, and the calls of a turn are
counted. The text of every fallback is fixed, except one: the wait a server
asked for is rounded before it is told to the user, and a wait that is not
finite has no rounding.
-/

set_option autoImplicit false

namespace Emma.TurnTotality
open Emma.Python Emma.Numbers Emma.ConversationMemory Emma.LanguageModel Emma.Orchestrator

/-- What `complete` returns or raises, call after call. -/
abbrev Script := ℕ → Except LLMError LLMResponse

def AsksForTools (reply : LLMResponse) : Prop :=
  reply.stopReason = some "tool_use" ∧ reply.toolUses.isEmpty = false

section
variable {ω μ α : Type}

def counted (f : ω → α × ω) (s : ω × ℕ) : α × (ω × ℕ) := ((f s.1).1,(f s.1).2,s.2)

def countedTool (tool : Tool ω) : Tool (ω × ℕ) where
  name := tool.name
  description := tool.description
  inputSchema := tool.inputSchema
  run := fun arguments => counted (tool.run arguments)

/-- The router with a model that follows a script, the calls counted. -/
def scripted (r : Router ω μ) (script : Script) : Router (ω × ℕ) μ where
  llm := fun _ s => (script s.2,s.1,s.2+1)
  memory := r.memory
  systemPrompt := r.systemPrompt
  tools := r.tools.map countedTool
  contextProviders := r.contextProviders.map counted
  toolGate := r.toolGate.map counted
  maxToolIterations := r.maxToolIterations
  clock := fun s => r.clock s.1
  distinct := by
    have hnames : (r.tools.map countedTool).map Tool.name = r.tools.map Tool.name := by
      simp [Function.comp_def, countedTool]
    rw [postInit, hnames]
    exact r.distinct

theorem switchedOff_asked (r : Router ω μ) (script : Script) (s : ω × ℕ) :
    ((scripted r script).switchedOff s).2.2 = s.2 := by
  unfold Router.switchedOff
  cases hgate : r.toolGate with
  | none => simp [scripted, hgate]
  | some disabled =>
    rcases hd : disabled s.1 with ⟨_ | _,w⟩ <;> simp [scripted, hgate, counted, hd]

theorem contextLines_asked (providers : List (ω → Outcome String × ω)) (s : ω × ℕ) :
    (contextLines (providers.map counted) s).2.2 = s.2 := by
  induction providers generalizing s with
  | nil => rfl
  | cons provider rest ih =>
    rcases hp : provider s.1 with ⟨_ | _,w⟩ <;> simp [contextLines, counted, hp, ih]

theorem executeTool_asked (r : Router ω μ) (script : Script) (call : ToolUseBlock) (s : ω × ℕ) :
    ((scripted r script).executeTool call s).2.2 = s.2 := by
  have hoff := switchedOff_asked r script s
  rcases (scripted r script).executeTool_cases call s with
    ⟨text,hrefused⟩ | ⟨tool,htool,-,-,text,isError,hran⟩
  · rw [hrefused]
    exact hoff
  · obtain ⟨original,-,rfl⟩ : ∃ original ∈ r.tools, countedTool original = tool :=
      List.mem_map.mp htool
    rw [hran]
    exact hoff

theorem executeTools_asked (r : Router ω μ) (script : Script) (calls : List ToolUseBlock)
    (s : ω × ℕ) : ((scripted r script).executeTools calls s).2.2 = s.2 := by
  induction calls generalizing s with
  | nil => rfl
  | cons call rest ih =>
    rw [Router.executeTools]
    exact (ih _).trans (executeTool_asked r script call s)

/-- The text of a refusal exists exactly where the wait has a rounding. -/
theorem quotaMessage_isOk (retryAfter : Option PyFloat) :
    (∃ text, quotaMessage retryAfter = .ok text) ↔
      ∀ wait, retryAfter = some wait → wait.isFinite = true := by
  cases retryAfter with
  | none => simp [quotaMessage]
  | some wait =>
    have hseconds := wait.round_isOk
    have hminutes := (wait.div 60).round_isOk
    rw [PyFloat.isFinite_div] at hminutes
    simp only [quotaMessage, Option.some.injEq, forall_eq']
    split
    · rw [← hseconds]
      cases wait.round <;> simp [bind, Except.bind, pure, Except.pure]
    · rw [← hminutes]
      cases (wait.div 60).round <;> simp [bind, Except.bind, pure, Except.pure]

end

def refusedForever : Script := fun _ =>
  .error (.quotaExceeded "the Groq API was still rate limiting after 3 attempts" (some .nan))

def bare : Router Unit Unit where
  llm := fun _ w => (.error (.unavailable ""),w)
  memory := ⟨fun _ _ => .ok [],fun _ _ _ m => (.ok (),m)⟩
  systemPrompt := "Sei EMMA."
  tools := []
  contextProviders := []
  toolGate := none
  maxToolIterations := defaultMaxToolIterations
  clock := fun _ => 0
  distinct := rfl

end Emma.TurnTotality

import Emma.Orchestrator

/-!
# What every party of a turn keeps

If the gate, the model, the context providers and the tools all keep a property
of the world, the turn keeps it: it holds wherever a round is opened and
wherever a call is carried out.
-/

set_option autoImplicit false

namespace Emma.WorldInvariants
open Emma.LanguageModel Emma.Orchestrator

section
variable {ω μ : Type}

structure Keeps (r : Router ω μ) (I : ω → Prop) : Prop where
  gate : ∀ w, I w → I (r.switchedOff w).2
  llm : ∀ request w, I w → I (r.llm request w).2
  contextProviders : ∀ provider ∈ r.contextProviders, ∀ w, I w → I (provider w).2
  tools : ∀ tool ∈ r.tools, ∀ arguments w, I w → I (tool.run arguments w).2

structure Steady (r : Router ω μ) (I : ω → Prop) (round : Round ω) : Prop where
  opened : I round.opened
  declared : round.request.tools = r.toolSchemas (r.switchedOff round.opened).1
  answered : ∀ answer ∈ round.answers, ∃ w, I w ∧ answer = (r.executeTool answer.call w).1

variable {r : Router ω μ} {I : ω → Prop}

theorem executeTool_call (r : Router ω μ) (call : ToolUseBlock) (w : ω) :
    (r.executeTool call w).1.call = call := by
  rcases r.executeTool_cases call w with ⟨text,h⟩ | ⟨tool,-,-,-,text,isError,h⟩ <;> rw [h]

theorem executeTools_cons (r : Router ω μ) (call : ToolUseBlock) (calls : List ToolUseBlock)
    (w : ω) : r.executeTools (call::calls) w =
      ((r.executeTool call w).1::(r.executeTools calls (r.executeTool call w).2).1,
        (r.executeTools calls (r.executeTool call w).2).2) := rfl

theorem Keeps.executeTool (h : Keeps r I) (call : ToolUseBlock) (w : ω) (hw : I w) :
    I (r.executeTool call w).2 := by
  rcases r.executeTool_cases call w with ⟨text,hrefused⟩ | ⟨tool,htool,-,-,text,isError,hran⟩
  · rw [hrefused]
    exact h.gate w hw
  · rw [hran]
    exact h.tools tool htool call.input _ (h.gate w hw)

theorem Keeps.invoked (h : Keeps r I) (call : ToolUseBlock) (w : ω) (hw : I w)
    (i : Invocation ω) (hi : (r.executeTool call w).1.invoked = some i) : I i.before ∧ I i.after := by
  rcases r.executeTool_cases call w with ⟨text,hrefused⟩ | ⟨tool,htool,-,-,text,isError,hran⟩
  · rw [hrefused] at hi
    cases hi
  · rw [hran] at hi
    obtain rfl := Option.some.inj hi
    exact ⟨h.gate w hw,h.tools tool htool call.input _ (h.gate w hw)⟩

theorem Keeps.executeTools (h : Keeps r I) (calls : List ToolUseBlock) (w : ω) (hw : I w) :
    I (r.executeTools calls w).2 ∧ ∀ answer ∈ (r.executeTools calls w).1,
      ∃ w', I w' ∧ answer = (r.executeTool answer.call w').1 := by
  induction calls generalizing w with
  | nil => exact ⟨hw,by simp [Router.executeTools]⟩
  | cons call calls ih =>
    obtain ⟨hlast,hrest⟩ := ih (r.executeTool call w).2 (h.executeTool call w hw)
    constructor
    · exact hlast
    · intro answer hanswer
      rw [executeTools_cons] at hanswer
      rcases List.mem_cons.mp hanswer with hfirst | hanswer
      · have hcall := executeTool_call r call w
        rw [← hfirst] at hcall
        exact ⟨w,hw,by rw [hcall, ← hfirst]⟩
      · exact hrest answer hanswer

theorem Keeps.contextLines (providers : List (ω → Outcome String × ω))
    (h : ∀ provider ∈ providers, ∀ w, I w → I (provider w).2) (w : ω) (hw : I w) :
    I (contextLines providers w).2 := by
  induction providers generalizing w with
  | nil => exact hw
  | cons provider rest ih =>
    have hone := h provider List.mem_cons_self w hw
    have hrest := ih (fun p hp => h p (List.mem_cons_of_mem _ hp)) (provider w).2 hone
    rw [Orchestrator.contextLines]
    rcases hp : provider w with ⟨_ | _,w'⟩ <;> rw [hp] at hrest <;> exact hrest

theorem Keeps.agenticLoop (h : Keeps r I) (system : String) (left : ℕ) (messages : List Message)
    (w : ω) (hw : I w) : I (r.agenticLoop system left messages w).2.1 ∧
      ∀ round ∈ (r.agenticLoop system left messages w).2.2, Steady r I round := by
  induction left generalizing messages w with
  | zero => exact ⟨hw,by simp [Router.agenticLoop]⟩
  | succ left ih =>
    have hgate := h.gate w hw
    have hllm := h.llm ⟨system,messages,r.toolSchemas (r.switchedOff w).1⟩ _ hgate
    rw [Router.agenticLoop]
    dsimp only
    rcases hreply : r.llm ⟨system,messages,r.toolSchemas (r.switchedOff w).1⟩
      (r.switchedOff w).2 with ⟨e | reply,w'⟩
    · rw [hreply] at hllm
      refine ⟨hllm,?_⟩
      intro round hround
      obtain rfl := List.mem_singleton.mp hround
      exact ⟨hw,rfl,by simp⟩
    · rw [hreply] at hllm
      dsimp only
      split
      · refine ⟨hllm,?_⟩
        intro round hround
        obtain rfl := List.mem_singleton.mp hround
        exact ⟨hw,rfl,by simp⟩
      · obtain ⟨hafter,hanswers⟩ := h.executeTools reply.toolUses w' hllm
        obtain ⟨hlast,hrounds⟩ := ih (messages ++ [reply.toAssistantMessage,
          ⟨.user,.blocks ((r.executeTools reply.toolUses w').1.map Answer.result)⟩]) _ hafter
        refine ⟨hlast,?_⟩
        intro round hround
        rcases List.mem_cons.mp hround with rfl | hround
        · exact ⟨hw,rfl,hanswers⟩
        · exact hrounds round hround

theorem Keeps.handle (h : Keeps r I) (request : AssistantRequest) (s : Session ω μ)
    (hs : I s.world) : I (r.handle request s).session.world ∧
      ∀ round ∈ (r.handle request s).rounds, Steady r I round := by
  obtain ⟨hrounds,hworld⟩ := r.handle_loop request s
  have hprompt : I (r.systemPromptNow s.world).2 := by
    rw [Router.systemPromptNow_world]
    exact Keeps.contextLines r.contextProviders h.contextProviders s.world hs
  rw [hrounds, hworld]
  exact h.agenticLoop _ r.maxToolIterations _ _ hprompt

end
end Emma.WorldInvariants

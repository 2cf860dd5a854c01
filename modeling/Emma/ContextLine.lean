import Emma.ContextReading
import Emma.ToolGate

/-!
# Whether the context line is current

The prompt is put together once, when the loop of a turn begins, and sent with
every request of the turn. The tools write the tables behind it in between.
-/

set_option autoImplicit false

namespace Emma.ContextLine
open Emma.Python Emma.LanguageModel Emma.Orchestrator Emma.Tasks Emma.DevelopmentTools
open Emma.Facts Emma.ToolGate Emma.ContextReading

section
variable {ρ μ : Type}

/-- `DevelopmentContext`, which only reads. -/
def developmentContext (w : World (FactTable × ρ)) : Outcome String × World (FactTable × ρ) :=
  (.ok (DevelopmentContext.snapshot w.stores.tasks),w)

/-- `FactsContext`, which only reads. -/
def factsContext (w : World (FactTable × ρ)) : Outcome String × World (FactTable × ρ) :=
  (.ok (FactsContext.snapshot w.rest.1),w)

/-- A household with the providers `create_app` registers. -/
def briefed (h : Household (FactTable × ρ) μ) : Household (FactTable × ρ) μ :=
  { h with contextProviders := [developmentContext,factsContext] }

def factsTools (clock : Clock) : List (Tool (World (FactTable × ρ))) :=
  [⟨RememberFact.name,RememberFact.description,RememberFact.inputSchema,fun arguments w =>
      ((RememberFact.run (clock w.stores.readings) arguments w.rest.1).1,
        { stores := w.stores.ticked
          rest := ((RememberFact.run (clock w.stores.readings) arguments w.rest.1).2,
            w.rest.2) })⟩,
    ⟨ForgetFact.name,ForgetFact.description,ForgetFact.inputSchema,fun arguments w =>
      ((ForgetFact.run (clock w.stores.readings) arguments w.rest.1).1,
        { stores := w.stores.ticked
          rest := ((ForgetFact.run (clock w.stores.readings) arguments w.rest.1).2,
            w.rest.2) })⟩]

/-- What the providers would say at a moment, behind the personality. -/
def promptAt (systemPrompt : String) (w : World (FactTable × ρ)) : String :=
  systemPrompt ++ "\n\n" ++ contextLine w.stores.tasks w.rest.1

def toldAt (w : World (FactTable × ρ)) : Told := told w.stores.tasks w.rest.1

theorem promptAt_inj (systemPrompt : String) (w w' : World (FactTable × ρ)) :
    promptAt systemPrompt w = promptAt systemPrompt w' ↔ toldAt w = toldAt w' := by
  rw [promptAt, promptAt, String.append_right_inj]
  exact contextLine_inj _ _ _ _

theorem systemPromptNow_briefed (h : Household (FactTable × ρ) μ) (clock : Clock)
    (w : World (FactTable × ρ)) :
    ((briefed h).router clock).systemPromptNow w = (promptAt h.systemPrompt w,w) := by
  have hdevelopment := snapshot_ne_empty w.stores.tasks
  have hlines : contextLines ((briefed h).router clock).contextProviders w =
      ([DevelopmentContext.snapshot w.stores.tasks,FactsContext.snapshot w.rest.1].filter
        (· ≠ ""),w) := by
    by_cases hfacts : FactsContext.snapshot w.rest.1 = "" <;>
      simp [briefed, Household.router, contextLines, developmentContext, factsContext,
        hdevelopment, hfacts, strip_developmentSnapshot, strip_factsSnapshot]
  rw [Router.systemPromptNow, hlines, promptAt, contextLine]
  simp [hdevelopment, briefed, Household.router]

/-- Every request of the loop carries the prompt it was begun with. -/
theorem agenticLoop_system (r : Router (World ρ) μ) (system : String) (left : ℕ)
    (messages : List Message) (w : World ρ) :
    ∀ round ∈ (r.agenticLoop system left messages w).2.2, round.request.system = system := by
  induction left generalizing messages w with
  | zero => simp [Router.agenticLoop]
  | succ left ih =>
    rw [Router.agenticLoop]
    dsimp only
    split
    · simp
    · split
      · simp
      · intro round hround
        rcases List.mem_cons.mp hround with rfl | hround
        · rfl
        · exact ih _ _ round hround

/-- The first round is opened in the world the loop was begun in. -/
theorem agenticLoop_opened (r : Router (World ρ) μ) (system : String) (left : ℕ)
    (messages : List Message) (w : World ρ) :
    ∀ round ∈ (r.agenticLoop system left messages w).2.2.head?, round.opened = w := by
  cases left with
  | zero => simp [Router.agenticLoop]
  | succ left =>
    rw [Router.agenticLoop]
    dsimp only
    split
    · simp
    · split <;> simp

theorem isChain_same {α β : Type} (f : α → β) (a : α) (as : List α) :
    (a::as).IsChain (fun x y => f x = f y) ↔ ∀ x ∈ a::as, f a = f x := by
  induction as generalizing a with
  | nil => simp
  | cons b as ih =>
    rw [List.isChain_cons_cons, ih]
    constructor
    · rintro ⟨hab,hrest⟩ x hx
      rcases List.mem_cons.mp hx with rfl | hx
      · rfl
      · exact hab.trans (hrest x hx)
    · intro h
      have hab := h b (by simp)
      exact ⟨hab,fun x hx => hab.symm.trans (h x (List.mem_cons_of_mem _ hx))⟩

/-- The prompt is current at every call of the model exactly when no round
leaves the open jobs, their sides, the facts shown or the number of the others
different for the next one. -/
theorem prompt_current_iff (clock : Clock) (h : Household (FactTable × ρ) μ)
    (request : AssistantRequest) (s : Session (World (FactTable × ρ)) μ) :
    (∀ round ∈ (((briefed h).router clock).handle request s).rounds,
      round.request.system = promptAt h.systemPrompt round.opened) ↔
    (((briefed h).router clock).handle request s).rounds.IsChain
      fun round next => toldAt round.opened = toldAt next.opened := by
  rw [(Router.handle_loop _ request s).1, Router.turnLoop, systemPromptNow_briefed]
  dsimp only
  have hsystem := agenticLoop_system ((briefed h).router clock) (promptAt h.systemPrompt s.world)
    ((briefed h).router clock).maxToolIterations
    ((((briefed h).router clock).readHistory request.conversationId s.memory).map toWire ++
      [userMessage request.text]) s.world
  have hopened := agenticLoop_opened ((briefed h).router clock)
    (promptAt h.systemPrompt s.world) ((briefed h).router clock).maxToolIterations
    ((((briefed h).router clock).readHistory request.conversationId s.memory).map toWire ++
      [userMessage request.text]) s.world
  generalize (((briefed h).router clock).agenticLoop _ _ _ s.world).2.2 = rounds at hsystem hopened
  cases rounds with
  | nil => simp
  | cons first rest =>
    rw [isChain_same, hopened first (by simp)]
    apply forall₂_congr
    intro round hround
    rw [hsystem round hround, promptAt_inj]

end

def commissioningModel (_ : LLMRequest) (w : World (FactTable × ℕ)) :
    Except LLMError LLMResponse × World (FactTable × ℕ) :=
  (.ok (if w.rest.2 = 0 then
      ⟨[.toolUse ⟨"1",RequestDevelopment.name,
        [("request",⟨.string "aggiungi i promemoria","aggiungi i promemoria",
          .error (.valueError "")⟩)]⟩],some "tool_use"⟩
    else ⟨[.text "Registrata."],some "end_turn"⟩),
    { w with rest := (w.rest.1,w.rest.2+1) })

def commissioningHousehold : Household (FactTable × ℕ) Unit where
  llm := commissioningModel
  memory := ⟨fun _ _ => .ok [],fun _ _ _ _ => (.ok (),())⟩
  systemPrompt := "Sei EMMA."
  registered := (developmentTools (fun n => n) ++ factsTools fun n => n).map .other ++
    [.removeTool,.enableTool]
  contextProviders := []
  maxToolIterations := defaultMaxToolIterations
  distinct := by decide

def commissioningTurn : Turn (World (FactTable × ℕ)) Unit :=
  ((briefed commissioningHousehold).router fun n => n).handle
    ⟨"sviluppo: aggiungi i promemoria","utente","casa"⟩ ⟨⟨0,0,none,none⟩,(),⟨.empty,∅,0⟩⟩

/-- The request that was just recorded is missing from the line of the next
round. -/
theorem request_is_missing_from_the_line : ¬∀ round ∈ commissioningTurn.rounds,
    round.request.system = promptAt commissioningHousehold.systemPrompt round.opened := by
  intro hcurrent
  obtain ⟨first,second,hrounds,hsystem,htold⟩ : ∃ first second,
      commissioningTurn.rounds = [first,second] ∧
        second.request.system = first.request.system ∧
        toldAt first.opened ≠ toldAt second.opened :=
    ⟨_,_,rfl,rfl,by decide⟩
  rw [hrounds] at hcurrent
  have hfirst := hcurrent first (by simp)
  have hsecond := hcurrent second (by simp)
  rw [hsystem, hfirst, promptAt_inj] at hsecond
  exact htold hsecond

end Emma.ContextLine

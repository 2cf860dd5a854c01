import Emma.Library.LinkedSteps
import Emma.ToolStateTools

/-!
# A tool that is off does not run

The table is the gate of the router and is written by two of its own tools, so
what the gate answers changes within a round. The gate is asked again for every
call, in the state the call is run in. Between two turns the process may have
been restarted, with other tools.
-/

set_option autoImplicit false

namespace Emma.ToolGate
open Emma.Python Emma.ConversationMemory Emma.LanguageModel Emma.Orchestrator Emma.ToolState
open Emma.DevelopmentTools Emma.ToolStateTools LinkedSteps

/-- The shared file, and everything else the process can see. -/
structure World (ρ : Type) where
  stores : Stores
  rest : ρ

def World.off {ρ : Type} (w : World ρ) : List String := w.stores.toolState.disabled

inductive Registered (ρ : Type) where
  | removeTool
  | enableTool
  | other (tool : Tool (World ρ))

namespace Registered
variable {ρ : Type}

def name : Registered ρ → String
  | removeTool => RemoveTool.name
  | enableTool => EnableTool.name
  | other tool => tool.name

def onStores (run : Stores → Outcome String × Stores) (w : World ρ) : Outcome String × World ρ :=
  ((run w.stores).1,{ w with stores := (run w.stores).2 })

/-- The tool itself, once it was told the names of all of them. -/
def tool (clock : Clock) (names : List String) : Registered ρ → Tool (World ρ)
  | removeTool => ⟨RemoveTool.name,RemoveTool.description,RemoveTool.inputSchema,
      fun arguments => onStores (RemoveTool.run clock names arguments)⟩
  | enableTool => ⟨EnableTool.name,EnableTool.description,EnableTool.inputSchema,
      fun arguments => onStores (EnableTool.run arguments)⟩
  | other tool => tool

@[simp] theorem tool_name (clock : Clock) (names : List String) (registered : Registered ρ) :
    (registered.tool clock names).name = registered.name := by
  cases registered <;> rfl

end Registered

/-- What `create_app` puts together around the table. -/
structure Household (ρ μ : Type) where
  llm : LLMRequest → World ρ → Except LLMError LLMResponse × World ρ
  memory : Store μ
  systemPrompt : String
  registered : List (Registered ρ)
  contextProviders : List (World ρ → Outcome String × World ρ)
  maxToolIterations : ℕ
  distinct : duplicate [] (registered.map Registered.name) = none

/-- The answer of `ToolStateStore.disabled`, which leaves the table as it is. -/
def gate {ρ : Type} (w : World ρ) : Outcome (List String) × World ρ := (.ok w.off,w)

def Household.router {ρ μ : Type} (h : Household ρ μ) (clock : Clock) : Router (World ρ) μ where
  llm := h.llm
  memory := h.memory
  systemPrompt := h.systemPrompt
  tools := h.registered.map (Registered.tool clock (h.registered.map Registered.name))
  contextProviders := h.contextProviders
  toolGate := some gate
  maxToolIterations := h.maxToolIterations
  clock := fun w => clock w.stores.readings
  distinct := by
    have hnames : (h.registered.map
        (Registered.tool clock (h.registered.map Registered.name))).map Tool.name =
        h.registered.map Registered.name := by
      simp [Function.comp_def]
    rw [postInit, hnames, h.distinct]

structure Serving (ρ μ : Type) where
  household : Household ρ μ
  meanwhile : Session (World ρ) μ → Session (World ρ) μ
  request : AssistantRequest

section
variable {ρ μ α : Type}

def turns (clock : Clock) : List (Serving ρ μ) → Session (World ρ) μ → List (Turn (World ρ) μ)
  | [], _ => []
  | serving::rest, s =>
    let turn := (serving.household.router clock).handle serving.request (serving.meanwhile s)
    turn::turns clock rest turn.session

/-- What happens to the gate in a turn: a round is opened and its request sent,
a tool is run. -/
inductive Event (ρ : Type) where
  | asked (opened : World ρ) (request : LLMRequest)
  | ran (i : Invocation (World ρ))

def answerEvents (answers : List (Answer (World ρ))) : List (Event ρ) :=
  (answers.filterMap Answer.invoked).map .ran

def roundEvents (rounds : List (Round (World ρ))) : List (Event ρ) :=
  rounds.flatMap fun round => .asked round.opened round.request::answerEvents round.answers

def events (clock : Clock) (servings : List (Serving ρ μ)) (s : Session (World ρ) μ) :
    List (Event ρ) :=
  (turns clock servings s).flatMap fun turn => roundEvents turn.rounds

namespace Event

def before : Event ρ → ToolStateTable
  | asked opened _ => opened.stores.toolState
  | ran i => i.before.stores.toolState

def after : Event ρ → ToolStateTable
  | asked opened _ => opened.stores.toolState
  | ran i => i.after.stores.toolState

/-- A successful call of `remove_tool`. -/
def SwitchesOff (x : String) (e : Event ρ) : Prop :=
  ∃ i, e = ran i ∧ i.name = RemoveTool.name ∧ requestedName i.arguments = x ∧
    x ∉ i.before.off ∧ x ∈ i.after.off

/-- A successful call of `enable_tool`. -/
def SwitchesOn (x : String) (e : Event ρ) : Prop :=
  ∃ i, e = ran i ∧ i.name = EnableTool.name ∧ requestedName i.arguments = x ∧
    x ∈ i.before.off ∧ x ∉ i.after.off

def Shut : Event ρ → Prop
  | asked opened request => ∀ declaration ∈ request.tools.getD [], declaration.name ∉ opened.off
  | ran i => i.name ∉ i.before.off

/-- Only a call of `enable_tool` clears a row, and only the one it names. -/
def Clears (e : Event ρ) : Prop :=
  ∀ x, x ∈ e.before.disabled → x ∉ e.after.disabled → SwitchesOn x e

end Event

def Confined (f : World ρ → α × World ρ) : Prop :=
  ∀ w, (f w).2.stores.toolState = w.stores.toolState

structure Household.Fenced (h : Household ρ μ) : Prop where
  llm : ∀ request, Confined (h.llm request)
  contextProviders : ∀ provider ∈ h.contextProviders, Confined provider
  tools : ∀ tool, .other tool ∈ h.registered → ∀ arguments, Confined (tool.run arguments)

structure Serving.Fenced (serving : Serving ρ μ) : Prop where
  household : serving.household.Fenced
  meanwhile : ∀ s, (serving.meanwhile s).world.stores.toolState = s.world.stores.toolState

def developmentTools (clock : Clock) : List (Tool (World ρ)) :=
  [⟨RequestDevelopment.name,RequestDevelopment.description,RequestDevelopment.inputSchema,
      fun arguments => Registered.onStores (RequestDevelopment.run clock arguments)⟩,
    ⟨WorkStatus.name,WorkStatus.description,WorkStatus.inputSchema,
      fun arguments => Registered.onStores (WorkStatus.run clock arguments)⟩,
    ⟨AnswerQuestion.name,AnswerQuestion.description,AnswerQuestion.inputSchema,
      fun arguments => Registered.onStores (AnswerQuestion.run clock arguments)⟩,
    ⟨AbandonDevelopment.name,AbandonDevelopment.description,AbandonDevelopment.inputSchema,
      fun arguments => Registered.onStores (AbandonDevelopment.run clock arguments)⟩]

theorem developmentTools_confined (clock : Clock) (tool : Tool (World ρ))
    (htool : tool ∈ developmentTools clock) (arguments : Arguments) :
    Confined (tool.run arguments) := by
  intro w
  simp only [developmentTools, List.mem_cons, List.not_mem_nil, or_false] at htool
  rcases htool with rfl | rfl | rfl | rfl <;> dsimp only [Registered.onStores]
  · exact requestDevelopment_toolState clock arguments w.stores
  · exact (workStatus_unmoved clock arguments w.stores).1
  · exact (answerQuestion_effect clock arguments w.stores fun _ => False).1
  · exact (abandonDevelopment_effect clock arguments w.stores fun _ => False).1

/-! One step each. -/

@[simp] theorem switchedOff_router (h : Household ρ μ) (clock : Clock) (w : World ρ) :
    (h.router clock).switchedOff w = (w.off,w) := rfl

theorem toolSchemas_shut (r : Router (World ρ) μ) (off : List String) :
    ∀ declaration ∈ (r.toolSchemas off).getD [], declaration.name ∉ off := by
  intro declaration hdeclaration
  unfold Router.toolSchemas at hdeclaration
  cases hoffered : r.tools.filter fun tool => tool.name ∉ off with
  | nil =>
    rw [hoffered] at hdeclaration
    simp at hdeclaration
  | cons first rest =>
    rw [hoffered] at hdeclaration
    obtain ⟨tool,htool,rfl⟩ := List.mem_map.mp hdeclaration
    rw [← hoffered] at htool
    simpa using (List.mem_filter.mp htool).2

/-- In a fenced household only `enable_tool` clears a row. -/
theorem tool_clears (h : Household ρ μ) (hfenced : h.Fenced) (clock : Clock)
    (tool : Tool (World ρ)) (htool : tool ∈ (h.router clock).tools) (arguments : Arguments)
    (w : World ρ) (x : String) (hoff : x ∈ w.off) (hon : x ∉ (tool.run arguments w).2.off) :
    tool.name = EnableTool.name ∧ requestedName arguments = x := by
  obtain ⟨registered,hregistered,rfl⟩ := List.mem_map.mp htool
  cases registered with
  | removeTool =>
    dsimp only [Registered.tool, Registered.onStores, World.off] at hon
    exact absurd (removeTool_disabled clock _ arguments w.stores x hoff) hon
  | enableTool =>
    dsimp only [Registered.tool, Registered.onStores, World.off] at hon
    constructor
    · rfl
    by_contra hx
    exact hon (enableTool_disabled arguments w.stores x hoff hx)
  | other tool =>
    have hsame := hfenced.tools tool hregistered arguments w
    rw [World.off, Registered.tool, hsame] at hon
    exact absurd hoff hon

/-- What is told of a stretch of a turn: nothing that is off is declared or run,
and in a fenced household the table only changes from event to event. -/
structure Accounted (fenced : Prop) (w w' : World ρ) (es : List (Event ρ)) : Prop where
  shut : ∀ e ∈ es, e.Shut
  linked : fenced → Linked Event.before Event.after w.stores.toolState es w'.stores.toolState
  clears : fenced → ∀ e ∈ es, e.Clears

theorem accounted_quiet {fenced : Prop} {w w' : World ρ}
    (h : fenced → w'.stores.toolState = w.stores.toolState) : Accounted fenced w w' [] where
  shut := by simp
  linked := fun hfenced => (h hfenced).symm
  clears := by simp

theorem Accounted.append {fenced : Prop} {u v w : World ρ} {xs ys : List (Event ρ)}
    (hx : Accounted fenced u v xs) (hy : Accounted fenced v w ys) :
    Accounted fenced u w (xs ++ ys) where
  shut := fun e he => (List.mem_append.mp he).elim (hx.shut e) (hy.shut e)
  linked := fun hf => linked_append.mpr ⟨_,hx.linked hf,hy.linked hf⟩
  clears := fun hf e he => (List.mem_append.mp he).elim (hx.clears hf e) (hy.clears hf e)

theorem executeTool_accounted (h : Household ρ μ) (clock : Clock) (call : ToolUseBlock)
    (w : World ρ) :
    Accounted h.Fenced w ((h.router clock).executeTool call w).2
      (answerEvents [((h.router clock).executeTool call w).1]) := by
  rcases (h.router clock).executeTool_cases call w with
    ⟨text,hrefused⟩ | ⟨tool,htool,hname,hon,text,isError,hran⟩
  · rw [hrefused]
    exact accounted_quiet fun _ => rfl
  · rw [hran]
    rw [← hname] at hon
    constructor
    · simpa [answerEvents, Event.Shut] using hon
    · exact fun _ => ⟨rfl,rfl⟩
    · intro hfenced e he x hbefore hgone
      obtain rfl : e = .ran ⟨tool.name,call.input,w,(tool.run call.input w).2⟩ := by
        simpa [answerEvents] using he
      obtain ⟨hname,hrequested⟩ :=
        tool_clears h hfenced clock tool htool call.input w x hbefore hgone
      exact ⟨_,rfl,hname,hrequested,hbefore,hgone⟩

theorem executeTools_accounted (h : Household ρ μ) (clock : Clock) (calls : List ToolUseBlock)
    (w : World ρ) :
    Accounted h.Fenced w ((h.router clock).executeTools calls w).2
      (answerEvents ((h.router clock).executeTools calls w).1) := by
  induction calls generalizing w with
  | nil => exact accounted_quiet fun _ => rfl
  | cons call rest ih =>
    have hone := executeTool_accounted h clock call w
    have hrest := ih ((h.router clock).executeTool call w).2
    have hboth := hone.append hrest
    rwa [answerEvents, answerEvents, ← List.map_append, ← List.filterMap_append] at hboth

/-- The request of a round declares nothing that was off when it was opened. -/
theorem asked_accounted (h : Household ρ μ) (clock : Clock) (system : String)
    (messages : List Message) (opened w : World ρ) (hw : h.Fenced →
      w.stores.toolState = opened.stores.toolState) :
    Accounted h.Fenced opened w
      [.asked opened ⟨system,messages,(h.router clock).toolSchemas opened.off⟩] where
  shut := by simpa [Event.Shut] using toolSchemas_shut (h.router clock) opened.off
  linked := fun hf => ⟨rfl,(hw hf).symm⟩
  clears := by
    intro _ e he x hoff hon
    obtain rfl := List.mem_singleton.mp he
    exact absurd hoff hon

theorem agenticLoop_accounted (h : Household ρ μ) (clock : Clock) (system : String) (left : ℕ)
    (messages : List Message) (w : World ρ) :
    Accounted h.Fenced w ((h.router clock).agenticLoop system left messages w).2.1
      (roundEvents ((h.router clock).agenticLoop system left messages w).2.2) := by
  induction left generalizing messages w with
  | zero => exact accounted_quiet fun _ => rfl
  | succ left ih =>
    rw [Router.agenticLoop, switchedOff_router]
    dsimp only
    have hllm := fun hf : h.Fenced => hf.llm
      ⟨system,messages,(h.router clock).toolSchemas w.off⟩ w
    have hasked := fun w' hw' => asked_accounted h clock system messages w w' hw'
    change ∀ hf : h.Fenced, ((h.router clock).llm
      ⟨system,messages,(h.router clock).toolSchemas w.off⟩ w).2.stores.toolState =
        w.stores.toolState at hllm
    rcases hreply : (h.router clock).llm
      ⟨system,messages,(h.router clock).toolSchemas w.off⟩ w with ⟨e | reply,w'⟩
    · rw [hreply] at hllm
      exact hasked w' hllm
    · rw [hreply] at hllm
      dsimp only
      split
      · exact hasked w' hllm
      · have htools := executeTools_accounted h clock reply.toolUses w'
        have hrest := ih (messages ++ [reply.toAssistantMessage,
          ⟨.user,.blocks (((h.router clock).executeTools reply.toolUses w').1.map Answer.result)⟩])
          ((h.router clock).executeTools reply.toolUses w').2
        exact (hasked w' hllm).append (htools.append hrest)

theorem contextLines_table (providers : List (World ρ → Outcome String × World ρ))
    (hconfined : ∀ provider ∈ providers, Confined provider) (w : World ρ) :
    (contextLines providers w).2.stores.toolState = w.stores.toolState := by
  induction providers generalizing w with
  | nil => rfl
  | cons provider rest ih =>
    have hone := hconfined provider (by simp) w
    have hrest := ih (fun p hp => hconfined p (List.mem_cons_of_mem _ hp)) (provider w).2
    rw [contextLines]
    rcases hp : provider w with ⟨_ | _,w'⟩ <;> rw [hp] at hone hrest <;> exact hrest.trans hone

theorem handle_accounted (h : Household ρ μ) (clock : Clock) (request : AssistantRequest)
    (s : Session (World ρ) μ) :
    Accounted h.Fenced s.world ((h.router clock).handle request s).session.world
      (roundEvents ((h.router clock).handle request s).rounds) := by
  have hprompt : h.Fenced →
      ((h.router clock).systemPromptNow s.world).2.stores.toolState =
        s.world.stores.toolState := fun hf => by
    rw [Router.systemPromptNow_world]
    exact contextLines_table h.contextProviders hf.contextProviders s.world
  have hloop := agenticLoop_accounted h clock ((h.router clock).systemPromptNow s.world).1
    (h.router clock).maxToolIterations (((h.router clock).readHistory request.conversationId
      s.memory).map toWire ++ [userMessage request.text])
    ((h.router clock).systemPromptNow s.world).2
  have hturn := (accounted_quiet hprompt).append hloop
  rw [List.nil_append] at hturn
  obtain ⟨hrounds,hworld⟩ := (h.router clock).handle_loop request s
  rw [hrounds, hworld]
  exact hturn

theorem Accounted.mono {fenced fenced' : Prop} (h : fenced' → fenced) {w w' : World ρ}
    {es : List (Event ρ)} (ha : Accounted fenced w w' es) : Accounted fenced' w w' es :=
  ⟨ha.shut,fun hf => ha.linked (h hf),fun hf => ha.clears (h hf)⟩

theorem events_accounted (clock : Clock) (servings : List (Serving ρ μ))
    (s : Session (World ρ) μ) :
    ∃ w, Accounted (∀ serving ∈ servings, serving.Fenced) s.world w
      (events clock servings s) := by
  induction servings generalizing s with
  | nil => exact ⟨s.world,accounted_quiet fun _ => rfl⟩
  | cons serving rest ih =>
    obtain ⟨w,hrest⟩ := ih
      ((serving.household.router clock).handle serving.request (serving.meanwhile s)).session
    have hpause : Accounted (∀ other ∈ serving::rest, other.Fenced) s.world
        (serving.meanwhile s).world [] :=
      accounted_quiet fun hf => (hf serving (by simp)).meanwhile s
    have hturn := (handle_accounted serving.household clock serving.request
      (serving.meanwhile s)).mono fun hf : ∀ other ∈ serving::rest, other.Fenced =>
        (hf serving (by simp)).household
    have hlater := hrest.mono fun hf : ∀ other ∈ serving::rest, other.Fenced =>
      fun other hother => hf other (List.mem_cons_of_mem _ hother)
    exact ⟨w,hpause.append (hturn.append hlater)⟩

/-- Whatever the model replies and whatever is registered, a tool is run only
while it has no row. So from a successful call of `remove_tool` to the next
successful call of `enable_tool` the tool is neither run nor declared. -/
theorem tool_off_never_runs (clock : Clock) (servings : List (Serving ρ μ))
    (s : Session (World ρ) μ) :
    (∀ i, .ran i ∈ events clock servings s → i.name ∉ i.before.off) ∧
    ((∀ serving ∈ servings, serving.Fenced) →
      ∀ x front off between e back,
        events clock servings s = front ++ off::(between ++ e::back) →
        off.SwitchesOff x → (∀ other ∈ between, ¬other.SwitchesOn x) →
        (∀ i, e = .ran i → i.name ≠ x) ∧
        ∀ opened request, e = .asked opened request →
          ∀ declaration ∈ request.tools.getD [], declaration.name ≠ x) := by
  obtain ⟨w,haccounted⟩ := events_accounted clock servings s
  refine ⟨fun i hi => haccounted.shut _ hi,?_⟩
  intro hfenced x front off between e back hevents hoff hbetween
  have hshut : e.Shut := haccounted.shut e (hevents ▸ by simp)
  have hkept : x ∈ e.before.disabled := by
    have hlinked := hevents ▸ haccounted.linked hfenced
    refine hlinked.keeps_between (fun table => x ∈ table.disabled) ?_ fun other hother hbefore => ?_
    · obtain ⟨i,rfl,-,-,-,hafter⟩ := hoff
      exact hafter
    · by_contra hgone
      exact hbetween other hother
        (haccounted.clears hfenced other (hevents ▸ by simp [hother]) x hbefore hgone)
  constructor
  · rintro i rfl rfl
    exact hshut hkept
  · rintro opened request rfl declaration hdeclaration rfl
    exact hshut declaration hdeclaration hkept

end

def currentTime : Tool (World ℕ) where
  name := "current_time"
  description := "The time of day."
  inputSchema := ""
  run := fun _ w => (.ok "10:00",w)

def currentTimeArguments : Arguments :=
  [("name",⟨.string "current_time","current_time",.error (.valueError "")⟩)]

def hastyReply : LLMResponse where
  blocks := [.toolUse ⟨"1","remove_tool",currentTimeArguments⟩,.toolUse ⟨"2","current_time",[]⟩]
  stopReason := some "tool_use"

def hastyModel (_ : LLMRequest) (w : World ℕ) : Except LLMError LLMResponse × World ℕ :=
  (.ok (if w.rest = 0 then hastyReply else ⟨[.text "Fatto."],some "end_turn"⟩),
    { w with rest := w.rest+1 })

def hastyHousehold : Household ℕ Unit where
  llm := hastyModel
  memory := ⟨fun _ _ => .ok [],fun _ _ _ _ => (.ok (),())⟩
  systemPrompt := ""
  registered := [.removeTool,.enableTool,.other currentTime] ++
    (developmentTools fun n => n).map .other
  contextProviders := []
  maxToolIterations := defaultMaxToolIterations
  distinct := by decide

def hastyServing : Serving ℕ Unit where
  household := hastyHousehold
  meanwhile := id
  request := ⟨"Togli l'orologio.","utente","casa"⟩

theorem hastyServing_fenced : hastyServing.Fenced where
  household :=
    { llm := fun _ _ => rfl
      contextProviders := by simp [hastyServing, hastyHousehold]
      tools := by
        intro tool htool arguments
        have hcases : tool = currentTime ∨ tool ∈ developmentTools fun n => n := by
          simpa [hastyServing, hastyHousehold] using htool
        rcases hcases with rfl | hdevelopment
        · exact fun _ => rfl
        · exact developmentTools_confined _ tool hdevelopment arguments }
  meanwhile := fun _ => rfl

theorem hasty_turn_declares_it_no_more : ∃ asked off opened request,
    events (fun n => n) [hastyServing] ⟨⟨0,0,none,none⟩,(),.empty,0⟩ =
      [asked] ++ off::([] ++ .asked opened request::[]) ∧
    off.SwitchesOff "current_time" ∧
    ∀ declaration ∈ request.tools.getD [], declaration.name ≠ "current_time" := by
  obtain ⟨asked,off,opened,request,hevents,hoff⟩ : ∃ asked off opened request,
      events (fun n => n) [hastyServing] ⟨⟨0,0,none,none⟩,(),.empty,0⟩ =
        [asked] ++ off::([] ++ .asked opened request::[]) ∧ off.SwitchesOff "current_time" :=
    ⟨_,_,_,_,rfl,_,rfl,rfl,by decide,by decide,by decide⟩
  refine ⟨asked,off,opened,request,hevents,hoff,?_⟩
  exact ((tool_off_never_runs (fun n => n) [hastyServing] ⟨⟨0,0,none,none⟩,(),.empty,0⟩).2
    (by simpa using hastyServing_fenced) "current_time" [asked] off [] (.asked opened request) []
    hevents hoff (by simp)).2 opened request rfl

end Emma.ToolGate

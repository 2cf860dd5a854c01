import Emma.TurnTotality

/-!
# Whether a turn always ends in an answer

The handler around a tool tells the model the text of the exception, and that
text is computed there: an exception whose `__str__` raises leaves the handler,
and nothing above it catches the new one. Where every exception has a text the
turn is the one of the router. The other way out is a wait that has no rounding.
-/

set_option autoImplicit false

namespace Emma.UntoldErrors
open Emma.Python Emma.Numbers Emma.ConversationMemory Emma.LanguageModel Emma.Orchestrator
open Emma.TurnTotality

/-- The error that the text of an exception raises, by the tool that raised the
exception, its arguments and the world it ran in. -/
abbrev Untold (ω : Type) := String → Arguments → ω → Option PyError

inductive Escape where
  | model (e : LLMError)
  | tool (e : PyError)

section
variable {ω μ : Type} (r : Router ω μ) (untold : Untold ω)

def executeTool (call : ToolUseBlock) (w : ω) : Except PyError (Answer ω) × ω :=
  let (off,w) := r.switchedOff w
  if call.name ∈ off then
    (.ok ⟨call,.toolResult call.id ("lo strumento " ++ call.name ++
      " e' disattivato: non posso usarlo finche' non viene riattivato") true,none⟩,w)
  else match r.toolByName call.name with
    | none => (.ok ⟨call,.toolResult call.id ("unknown tool: " ++ call.name) true,none⟩,w)
    | some tool => match tool.run call.input w with
      | (.error e,after) => match untold tool.name call.input w with
        | some escaped => (.error escaped,after)
        | none => (.ok ⟨call,.toolResult call.id ("tool error: " ++ e) true,
            some ⟨tool.name,call.input,w,after⟩⟩,after)
      | (.ok output,after) => (.ok ⟨call,.toolResult call.id output false,
          some ⟨tool.name,call.input,w,after⟩⟩,after)

def executeTools : List ToolUseBlock → ω → Except PyError (List (Answer ω)) × ω
  | [], w => (.ok [],w)
  | call::rest, w => match executeTool r untold call w with
    | (.error e,w) => (.error e,w)
    | (.ok answer,w) => match executeTools rest w with
      | (.error e,w) => (.error e,w)
      | (.ok answers,w) => (.ok (answer::answers),w)

def agenticLoop (system : String) : ℕ → List Message → ω →
    Except Escape AssistantResponse × ω × List (Round ω)
  | 0, _, w => (.ok (degrade "tool_loop_ceiling" fallbackTooManySteps),w,[])
  | left+1, messages, opened =>
    let (off,w) := r.switchedOff opened
    let request : LLMRequest := ⟨system,messages,r.toolSchemas off⟩
    match r.llm request w with
    | (.error e,w) => (.error (.model e),w,[⟨opened,request,.error e,[]⟩])
    | (.ok reply,w) =>
      if reply.stopReason ≠ some "tool_use" ∨ reply.toolUses.isEmpty then
        (.ok (Router.finalAnswer reply),w,[⟨opened,request,.ok reply,[]⟩])
      else match executeTools r untold reply.toolUses w with
        | (.error e,w) => (.error (.tool e),w,[⟨opened,request,.ok reply,[]⟩])
        | (.ok answers,w) =>
          let results : Message := ⟨.user,.blocks (answers.map Answer.result)⟩
          let (answer,w,rounds) := agenticLoop system left
            (messages ++ [reply.toAssistantMessage,results]) w
          (answer,w,⟨opened,request,.ok reply,answers⟩::rounds)

def settled : Except Escape AssistantResponse → Except PyError AssistantResponse
  | .ok answer => .ok answer
  | .error (.model e) => Router.settled (.error e)
  | .error (.tool e) => .error e

def handle (request : AssistantRequest) (s : Session ω μ) : Turn ω μ :=
  let history := r.readHistory request.conversationId s.memory
  let messages := history.map toWire ++ [userMessage request.text]
  let (system,w) := r.systemPromptNow s.world
  let (outcome,w,rounds) := agenticLoop r untold system r.maxToolIterations messages w
  match settled outcome with
  | .error e => ⟨.error e,{ s with world := w },rounds⟩
  | .ok answer =>
    if answer.degraded then
      ⟨.ok answer,⟨s.stats.record answer.reason (r.clock w),s.memory,w⟩,rounds⟩
    else
      ⟨.ok answer,⟨s.stats.record none (r.clock w),
        r.remember request answer.text (r.clock w) s.memory,w⟩,rounds⟩

def ToldCall (call : ToolUseBlock) (w : ω) : Prop :=
  ∀ i text, (r.executeTool call w).1.invoked = some i →
    (r.executeTool call w).1.result = .toolResult call.id text true →
    untold i.name i.arguments i.before = none

/-- Every tool these calls run has a text for what it raises. -/
def Told : List ToolUseBlock → ω → Prop
  | [], _ => True
  | call::rest, w => ToldCall r untold call w ∧ Told rest (r.executeTool call w).2

end

/-- The outcome that ends the turn is no refusal with a wait that is infinite or
not a number, and what the tools raise before it has a text. -/
def Endures {ω μ : Type} (r : Router (ω × ℕ) μ) (untold : Untold (ω × ℕ)) (script : Script) :
    ℕ → ω × ℕ → Prop
  | 0, _ => True
  | left+1, s => match script s.2 with
    | .ok reply => AsksForTools reply →
        Told r untold reply.toolUses ((r.switchedOff s).2.1,s.2+1) ∧
          Endures r untold script left
            (r.executeTools reply.toolUses ((r.switchedOff s).2.1,s.2+1)).2
    | .error (.quotaExceeded _ (some retryAfter)) => retryAfter.isFinite = true
    | .error _ => True

section
variable {ω μ : Type} (r : Router ω μ) (untold : Untold ω)

theorem executeTool_told (call : ToolUseBlock) (w : ω) (h : ToldCall r untold call w) :
    executeTool r untold call w = (.ok (r.executeTool call w).1,(r.executeTool call w).2) := by
  unfold executeTool
  unfold ToldCall Router.executeTool at h
  unfold Router.executeTool
  rcases hgate : r.switchedOff w with ⟨off,w'⟩
  rw [hgate] at h
  dsimp only at h ⊢
  by_cases hoff : call.name ∈ off
  · rw [if_pos hoff, if_pos hoff]
  rw [if_neg hoff] at h ⊢
  rw [if_neg hoff]
  cases htool : r.toolByName call.name with
  | none => rfl
  | some tool =>
    rw [htool] at h
    dsimp only at h ⊢
    rcases hrun : tool.run call.input w' with ⟨_ | _,after⟩
    · rw [hrun] at h
      have hnone : untold tool.name call.input w' = none := h _ _ rfl rfl
      rw [hnone]
    · rfl

theorem executeTool_untold (call : ToolUseBlock) (w : ω) (h : ¬ToldCall r untold call w) :
    ∃ e w', executeTool r untold call w = (.error e,w') := by
  unfold ToldCall at h
  push Not at h
  obtain ⟨i,text,hi,hresult,hnone⟩ := h
  obtain ⟨e,he⟩ := Option.ne_none_iff_exists'.mp hnone
  unfold executeTool
  unfold Router.executeTool at hi hresult
  rcases hgate : r.switchedOff w with ⟨off,w'⟩
  rw [hgate] at hi hresult
  dsimp only at hi hresult ⊢
  by_cases hoff : call.name ∈ off
  · rw [if_pos hoff] at hi
    cases hi
  rw [if_neg hoff] at hi hresult ⊢
  cases htool : r.toolByName call.name with
  | none =>
    rw [htool] at hi
    cases hi
  | some tool =>
    rw [htool] at hi hresult
    dsimp only at hi hresult ⊢
    rcases hrun : tool.run call.input w' with ⟨_ | _,after⟩
    · rw [hrun] at hi
      cases hi
      exact ⟨e,after,by rw [he]⟩
    · rw [hrun] at hresult
      cases hresult

/-- The calls of a round are answered as the router answers them, or one of them
leaves the round. -/
theorem executeTools_cases (calls : List ToolUseBlock) (w : ω) :
    (Told r untold calls w ∧ executeTools r untold calls w =
      (.ok (r.executeTools calls w).1,(r.executeTools calls w).2)) ∨
    (¬Told r untold calls w ∧ ∃ e w', executeTools r untold calls w = (.error e,w')) := by
  induction calls generalizing w with
  | nil => exact .inl ⟨trivial,rfl⟩
  | cons call rest ih =>
    by_cases hcall : ToldCall r untold call w
    · have hone := executeTool_told r untold call w hcall
      rcases ih (r.executeTool call w).2 with ⟨htold,hrest⟩ | ⟨hnot,e,w',hrest⟩
      · left
        rw [executeTools, hone]
        dsimp only
        rw [hrest]
        exact ⟨⟨hcall,htold⟩,rfl⟩
      · right
        rw [executeTools, hone]
        dsimp only
        rw [hrest]
        exact ⟨fun h => hnot h.2,e,w',rfl⟩
    · obtain ⟨e,w',hone⟩ := executeTool_untold r untold call w hcall
      right
      rw [executeTools, hone]
      exact ⟨fun h => hcall h.1,e,w',rfl⟩

/-- Where every exception has a text, the turn is the one of the router. -/
theorem agenticLoop_told (h : ∀ name arguments w, untold name arguments w = none) (system : String)
    (left : ℕ) (messages : List Message) (w : ω) :
    agenticLoop r untold system left messages w =
      ((r.agenticLoop system left messages w).1.mapError Escape.model,
        (r.agenticLoop system left messages w).2) := by
  induction left generalizing messages w with
  | zero => rfl
  | succ left ih =>
    rw [agenticLoop, Router.agenticLoop]
    rcases r.switchedOff w with ⟨off,w'⟩
    dsimp only
    rcases r.llm ⟨system,messages,r.toolSchemas off⟩ w' with ⟨_ | reply,w2⟩
    · rfl
    dsimp only
    split
    · rfl
    have htold : ∀ (calls : List ToolUseBlock) (w : ω), Told r untold calls w := by
      intro calls
      induction calls with
      | nil => exact fun _ => trivial
      | cons call rest hrest => exact fun w => ⟨fun i _ _ _ => h _ _ _,hrest _⟩
    rcases executeTools_cases r untold reply.toolUses w2 with ⟨-,hrun⟩ | ⟨hnot,-⟩
    · rw [hrun]
      dsimp only
      rw [ih]
    · exact absurd (htold _ _) hnot

theorem settled_model (outcome : Except LLMError AssistantResponse) :
    settled (outcome.mapError Escape.model) = Router.settled outcome := by
  cases outcome <;> rfl

theorem handle_told (h : ∀ name arguments w, untold name arguments w = none)
    (request : AssistantRequest) (s : Session ω μ) :
    handle r untold request s = r.handle request s := by
  rw [handle, Router.handle, Router.runAgenticLoop]
  dsimp only
  rw [agenticLoop_told r untold h]
  dsimp only
  rewrite [settled_model]
  rfl

end

section
variable {ω μ : Type}

theorem agenticLoop_settles (r : Router ω μ) (untold : Untold (ω × ℕ)) (script : Script)
    (system : String) (left : ℕ) (messages : List Message) (s : ω × ℕ) :
    (∃ answer, settled (agenticLoop (scripted r script) untold system left messages s).1 =
      .ok answer) ↔ Endures (scripted r script) untold script left s := by
  induction left generalizing messages s with
  | zero => simp [agenticLoop, settled, Endures]
  | succ left ih =>
    have hoff := switchedOff_asked r script s
    rcases hs : (scripted r script).switchedOff s with ⟨off,w,asked⟩
    rw [hs] at hoff
    obtain rfl : asked = s.2 := hoff
    have hllm : ∀ request, (scripted r script).llm request (w,s.2) = (script s.2,w,s.2+1) :=
      fun _ => rfl
    rw [agenticLoop]
    simp only [hs, hllm, Endures]
    cases hreply : script s.2 with
    | error e =>
      cases e with
      | unavailable text => simp [settled, Router.settled]
      | quotaExceeded text retryAfter =>
        have hmessage := quotaMessage_isOk retryAfter
        cases retryAfter with
        | none =>
          simp [settled, Router.settled, quotaMessage, bind, Except.bind, pure, Except.pure]
        | some wait =>
          simp only [Option.some.injEq, forall_eq'] at hmessage
          simp only [settled, Router.settled, ← hmessage]
          cases quotaMessage (some wait) <;> simp [bind, Except.bind, pure, Except.pure]
    | ok reply =>
      dsimp only
      by_cases hasks : AsksForTools reply
      · rw [if_neg (by simp [hasks.1, hasks.2])]
        rcases executeTools_cases (scripted r script) untold reply.toolUses (w,s.2+1) with
          ⟨htold,hrun⟩ | ⟨hnot,e,w',hrun⟩
        · rw [hrun]
          dsimp only
          rw [ih]
          simp [hasks, htold]
        · rw [hrun]
          simp [settled, hasks, hnot]
      · rw [if_pos (by
          by_contra hnot
          simp only [not_or, not_not, Bool.not_eq_true] at hnot
          exact hasks hnot)]
        simp [settled, hasks]

/-- A turn ends in an answer, and is counted, unless the model refuses it with a
wait that cannot be rounded or a tool raises what cannot be told. -/
theorem handle_returns_iff (r : Router ω μ) (untold : Untold (ω × ℕ)) (script : Script)
    (request : AssistantRequest) (s : Session ω μ) :
    ((∃ response, (handle (scripted r script) untold request
        ⟨s.stats,s.memory,(s.world,0)⟩).outcome = .ok response) ∧
      (handle (scripted r script) untold request
        ⟨s.stats,s.memory,(s.world,0)⟩).session.stats.turns = s.stats.turns+1) ↔
    Endures (scripted r script) untold script r.maxToolIterations
      ((scripted r script).systemPromptNow (s.world,0)).2 := by
  rcases hs : (scripted r script).systemPromptNow (s.world,0) with ⟨system,w⟩
  rw [← agenticLoop_settles r untold script system r.maxToolIterations
    ((Router.readHistory (scripted r script) request.conversationId s.memory).map toWire ++
      [userMessage request.text]) w, handle]
  simp only [hs]
  rw [show (scripted r script).maxToolIterations = r.maxToolIterations from rfl]
  cases settled _ with
  | error e => simp
  | ok answer =>
    have hturns : ∀ reason now, (s.stats.record reason now).turns = s.stats.turns+1 := by
      rintro (_ | reason) now <;> rfl
    cases hdegraded : answer.degraded <;> simp [hdegraded, hturns]

end

/-- The server answers `retry-after: nan`. -/
theorem wait_not_a_number_escapes :
    (handle (scripted bare refusedForever) (fun _ _ _ => none) ⟨"ciao","1","1"⟩
        ⟨⟨0,0,none,none⟩,(),((),0)⟩).outcome =
      .error (.valueError "cannot convert float NaN to integer") ∧
    (handle (scripted bare refusedForever) (fun _ _ _ => none) ⟨"ciao","1","1"⟩
        ⟨⟨0,0,none,none⟩,(),((),0)⟩).session.stats.turns = 0 := by
  constructor <;> rfl

end Emma.UntoldErrors

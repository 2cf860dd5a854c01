import Emma.DialectAgreement
import Emma.TurnRequests

/-!
# What the second dialect sends back

A request replays the whole turn: the history, the text, and for every round
before it the reply with its calls and one result for each of them. Arguments
are sent back as a text that stands for the same dictionary.
-/

set_option autoImplicit false

namespace Emma.GroqReplay
open Emma.Python Emma.ConversationMemory Emma.LanguageModel Emma.Orchestrator Emma.TurnTotality
open Emma.TurnRequests Emma.Dialects Emma.DialectAgreement

section
variable (loads : String → Option Decoded) (dumps : Arguments → String)

def meant (text : String) : Arguments :=
  match loads text with
  | some decoded => decoded.fields
  | none => []

def SentBack (call sent : GroqCall) : Prop :=
  sent.id = call.id ∧ sent.name = call.name ∧
    loads sent.arguments = some (.object (meant loads call.arguments))

variable {ω μ : Type}

def ReplayedBy (reply : GroqReply) (answers : List (Answer ω)) (part : List GroqMessage) : Prop :=
  ∃ sent results,
    part = .assistant (reply.content.filter fun text => text ≠ "") (some sent)::results ∧
    List.Forall₂ (SentBack loads) (reply.toolCalls.getD []) sent ∧
    answers.length = (reply.toolCalls.getD []).length ∧
    List.Forall₂ (fun (pair : GroqCall × Answer ω) message => ∃ text isError,
      pair.2.result = .toolResult pair.1.id text isError ∧ message = .tool pair.1.id text)
      ((reply.toolCalls.getD []).zip answers) results

def answeredBy (script : ℕ → Except LLMError GroqChoice) (_ : GroqPayload) (s : ω × ℕ) :
    Except LLMError GroqChoice × (ω × ℕ) := (script s.2,s.1,s.2+1)

def groqRouter (client : Client) (r : Router ω μ) (script : ℕ → Except LLMError GroqChoice) :
    Router (ω × ℕ) μ :=
  driven r (GroqLanguageModel.complete loads dumps client (answeredBy script))

def sentBy (client : Client) (round : Round (ω × ℕ)) : List GroqMessage :=
  (GroqLanguageModel.payload dumps client round.request).messages

def ReplaysAll (client : Client) (script : ℕ → Except LLMError GroqChoice)
    (begun : List GroqMessage) (n : ℕ) (rounds : List (Round (ω × ℕ))) : Prop :=
  ∀ earlier round later, rounds = earlier ++ round::later → ∃ parts,
    sentBy dumps client round = begun ++ parts.flatten ∧
    List.Forall₂ (fun (past : Round (ω × ℕ) × ℕ) part => ∃ choice,
      script past.2 = .ok choice ∧ ReplayedBy loads choice.message past.1.answers part)
      (earlier.zipIdx n) parts

variable {loads dumps}

theorem replaysAll_nil (client : Client) (script : ℕ → Except LLMError GroqChoice)
    (begun : List GroqMessage) (n : ℕ) :
    ReplaysAll loads dumps client script begun n ([] : List (Round (ω × ℕ))) := by
  intro earlier round later h
  simp at h

theorem replaysAll_cons (client : Client) (script : ℕ → Except LLMError GroqChoice)
    (begun : List GroqMessage) (n : ℕ) (round : Round (ω × ℕ)) (rounds : List (Round (ω × ℕ)))
    (hsent : sentBy dumps client round = begun)
    (hrest : rounds ≠ [] → ∃ choice part, script n = .ok choice ∧
      ReplayedBy loads choice.message round.answers part ∧
      ReplaysAll loads dumps client script (begun ++ part) (n+1) rounds) :
    ReplaysAll loads dumps client script begun n (round::rounds) := by
  intro earlier found later h
  cases earlier with
  | nil =>
    obtain ⟨rfl,-⟩ := List.cons.inj h
    exact ⟨[],by simp [hsent],.nil⟩
  | cons first earlier =>
    obtain ⟨rfl,htail⟩ := List.cons.inj h
    obtain ⟨choice,part,hscript,hpart,hall⟩ := hrest (by simp [htail])
    obtain ⟨parts,hparts,hpast⟩ := hall earlier found later htail
    refine ⟨part::parts,?_,.cons ⟨choice,hscript,hpart⟩ hpast⟩
    rw [hparts, List.flatten_cons, List.append_assoc]

theorem parsedArguments_meant (hempty : loads "" = none)
    (hobject : loads emptyObject = some (.object [])) (text : String) :
    parsedArguments loads text = meant loads text := by
  by_cases hblank : text = ""
  · unfold parsedArguments meant
    rw [if_pos hblank, hblank, hempty, hobject]
    rfl
  · show meant loads (if text = "" then emptyObject else text) = meant loads text
    rw [if_neg hblank]

theorem loads_dumps_meant (hobject : loads emptyObject = some (.object []))
    (hround : ∀ text fields, loads text = some (.object fields) →
      loads (dumps fields) = some (.object fields)) (text : String) :
    loads (dumps (meant loads text)) = some (.object (meant loads text)) := by
  unfold meant
  split
  · rename_i decoded hdecoded
    cases decoded with
    | object fields => exact hround text fields hdecoded
    | other => exact hround emptyObject [] hobject
  · exact hround emptyObject [] hobject

theorem fromGroqMessage_blocks (message : GroqReply) (finishReason : Option String)
    (hcalls : message.toolCalls.getD [] ≠ []) :
    (fromGroqMessage loads message finishReason).blocks =
      ((message.content.filter fun text => text ≠ "").toList.map ContentBlock.text) ++
        (message.toolCalls.getD []).map fun call => .toolUse
          ⟨call.id,call.name,parsedArguments loads call.arguments⟩ := by
  obtain ⟨content,toolCalls⟩ := message
  dsimp only [fromGroqMessage] at hcalls ⊢
  obtain ⟨call,calls,hlist⟩ := List.exists_cons_of_ne_nil hcalls
  rw [hlist]
  cases content with
  | none => rfl
  | some text => by_cases hblank : text = "" <;> simp [hblank, Option.filter]

theorem fromGroqMessage_toolUses (message : GroqReply) (finishReason : Option String) :
    (fromGroqMessage loads message finishReason).toolUses =
      (message.toolCalls.getD []).map fun call =>
        ⟨call.id,call.name,parsedArguments loads call.arguments⟩ := by
  by_cases hcalls : message.toolCalls.getD [] = []
  · rw [hcalls, LLMResponse.toolUses]
    dsimp only [fromGroqMessage]
    rw [hcalls]
    cases message.content with
    | none => rfl
    | some text => by_cases hblank : text = "" <;> simp [hblank]
  · rw [LLMResponse.toolUses, fromGroqMessage_blocks message finishReason hcalls]
    cases message.content.filter fun text => text ≠ "" with
    | none => simp [List.filterMap_map]
    | some text => simp [List.filterMap_map]

theorem toGroq_reply (message : GroqReply) (finishReason : Option String)
    (hcalls : message.toolCalls.getD [] ≠ []) :
    toGroq dumps (fromGroqMessage loads message finishReason).toAssistantMessage =
      [.assistant (message.content.filter fun text => text ≠ "")
        (some ((message.toolCalls.getD []).map fun call =>
          ⟨call.id,call.name,dumps (parsedArguments loads call.arguments)⟩))] := by
  have hblocks : (fromGroqMessage loads message finishReason).blocks = _ :=
    fromGroqMessage_blocks message finishReason hcalls
  obtain ⟨call,calls,hlist⟩ := List.exists_cons_of_ne_nil hcalls
  rw [hlist] at hblocks ⊢
  dsimp only [LLMResponse.toAssistantMessage, toGroq]
  rw [hblocks]
  cases hcontent : message.content.filter fun text => text ≠ "" with
  | none => simp [textOf, toGroqCalls, nonEmpty, List.filterMap_map]
  | some text =>
    have hsome : text ≠ "" := by
      have h := (Option.filter_eq_some_iff.mp hcontent).2
      simpa using h
    simp [textOf, toGroqCalls, nonEmpty, List.filterMap_map, hsome]

theorem toolResult_of_answers (block : WireBlock) (id : String) (h : block.answers = some id) :
    ∃ text isError, block = .toolResult id text isError := by
  cases block with
  | toolResult toolUseId content isError =>
    obtain rfl := Option.some.inj h
    exact ⟨content,isError,rfl⟩
  | _ => cases h

/-- The results, sent back: a message for each, and nothing behind them. -/
theorem fromUser_results (answers : List (Answer ω))
    (hresults : ∀ answer ∈ answers, answer.result.answers = some answer.call.id) :
    List.Forall₂ (fun (answer : Answer ω) message => ∃ text isError,
      answer.result = .toolResult answer.call.id text isError ∧
        message = .tool answer.call.id text) answers (fromUser (answers.map Answer.result)) := by
  induction answers with
  | nil => exact .nil
  | cons answer answers ih =>
    obtain ⟨text,isError,hresult⟩ := toolResult_of_answers _ _ (hresults answer (by simp))
    have hrest : fromUser ((answer::answers).map Answer.result) =
        .tool answer.call.id text::fromUser (answers.map Answer.result) := by
      simp [fromUser, hresult]
    rw [hrest]
    exact .cons ⟨text,isError,hresult,rfl⟩
      (ih fun other hother => hresults other (List.mem_cons_of_mem _ hother))

theorem results_of_calls (calls : List GroqCall) (answers : List (Answer ω))
    (results : List GroqMessage)
    (hids : answers.map (fun answer => answer.call.id) = calls.map GroqCall.id)
    (h : List.Forall₂ (fun (answer : Answer ω) message => ∃ text isError,
      answer.result = .toolResult answer.call.id text isError ∧
        message = .tool answer.call.id text) answers results) :
    List.Forall₂ (fun (pair : GroqCall × Answer ω) message => ∃ text isError,
      pair.2.result = .toolResult pair.1.id text isError ∧ message = .tool pair.1.id text)
      (calls.zip answers) results := by
  induction h generalizing calls with
  | nil =>
    rw [List.zip_nil_right]
    exact .nil
  | @cons answer message answers results hfirst hrest ih =>
    cases calls with
    | nil => cases hids
    | cons call calls =>
      obtain ⟨hid,hids⟩ := List.cons.inj hids
      dsimp only at hid
      rw [hid] at hfirst
      exact .cons hfirst (ih calls hids)

theorem round_replayed (hempty : loads "" = none)
    (hobject : loads emptyObject = some (.object []))
    (hround : ∀ text fields, loads text = some (.object fields) →
      loads (dumps fields) = some (.object fields))
    (message : GroqReply) (finishReason : Option String) (answers : List (Answer ω))
    (hcalls : (fromGroqMessage loads message finishReason).toolUses.isEmpty = false)
    (hanswers : answers.map Answer.call = (fromGroqMessage loads message finishReason).toolUses)
    (hresults : ∀ answer ∈ answers, answer.result.answers = some answer.call.id) :
    ReplayedBy loads message answers
      (toGroq dumps (fromGroqMessage loads message finishReason).toAssistantMessage ++
        toGroq dumps ⟨.user,.blocks (answers.map Answer.result)⟩) := by
  rw [fromGroqMessage_toolUses] at hcalls hanswers
  have hsome : message.toolCalls.getD [] ≠ [] := by
    intro hnone
    rw [hnone] at hcalls
    cases hcalls
  refine ⟨_,fromUser (answers.map Answer.result),by rw [toGroq_reply message finishReason hsome]; rfl,
    ?_,?_,?_⟩
  · rw [List.forall₂_map_right_iff, List.forall₂_same]
    intro call hcall
    refine ⟨rfl,rfl,?_⟩
    dsimp only
    rw [parsedArguments_meant hempty hobject]
    exact loads_dumps_meant hobject hround call.arguments
  · have hlength := congrArg List.length hanswers
    simpa using hlength
  · apply results_of_calls _ _ _ _ (fromUser_results answers hresults)
    have hids := congrArg (List.map ToolUseBlock.id) hanswers
    simpa [Function.comp_def] using hids

theorem agenticLoop_replays (hempty : loads "" = none)
    (hobject : loads emptyObject = some (.object []))
    (hround : ∀ text fields, loads text = some (.object fields) →
      loads (dumps fields) = some (.object fields))
    (client : Client) (r : Router ω μ) (script : ℕ → Except LLMError GroqChoice)
    (system : String) (left : ℕ) (messages : List Message) (s : ω × ℕ) :
    ReplaysAll loads dumps client script (toGroqMessages dumps system messages) s.2
      ((groqRouter loads dumps client r script).agenticLoop system left messages s).2.2 := by
  induction left generalizing messages s with
  | zero => exact replaysAll_nil _ _ _ _
  | succ left ih =>
    have hoff := switchedOff_asked r (fun _ => .error (.unavailable "")) s
    rw [Router.agenticLoop]
    simp only [groqRouter, driven, withModel_executeTools, withModel_switchedOff,
      withModel_toolSchemas, withModel_llm]
    rcases hswitched : (scripted r fun _ => .error (.unavailable "")).switchedOff s with ⟨off,w,n⟩
    rw [hswitched] at hoff
    obtain rfl : n = s.2 := hoff
    dsimp only [GroqLanguageModel.complete, answeredBy]
    cases hscript : script s.2 with
    | error e =>
      apply replaysAll_cons
      · rfl
      · exact fun hsome => absurd rfl hsome
    | ok choice =>
      dsimp only [Except.map]
      split
      · apply replaysAll_cons
        · rfl
        · exact fun hsome => absurd rfl hsome
      · rename_i hasks
        simp only [not_or, not_not, Bool.not_eq_true] at hasks
        generalize hreply : fromGroqMessage loads choice.message choice.finishReason = reply at hasks
        obtain ⟨hanswers,hresults⟩ := executeTools_answers
          (scripted r fun _ => .error (.unavailable "")) reply.toolUses (w,s.2+1)
        have hcount := executeTools_asked r (fun _ => .error (.unavailable "")) reply.toolUses
          (w,s.2+1)
        rcases hrun : (scripted r fun _ => .error (.unavailable "")).executeTools reply.toolUses
          (w,s.2+1) with ⟨answers,t⟩
        rw [hrun] at hanswers hresults hcount
        dsimp only at hanswers hresults hcount ⊢
        subst hreply
        apply replaysAll_cons
        · rfl
        · intro _
          have hpart := round_replayed hempty hobject hround choice.message choice.finishReason
            answers hasks.2 hanswers fun answer hanswer => (hresults answer hanswer).1
          refine ⟨choice,_,hscript,hpart,?_⟩
          have hlater := ih (messages ++
            [(fromGroqMessage loads choice.message choice.finishReason).toAssistantMessage,
              ⟨.user,.blocks (answers.map Answer.result)⟩]) t
          rw [hcount] at hlater
          have hbegun : ∀ one other : Message, toGroqMessages dumps system (messages ++ [one,other]) =
              toGroqMessages dumps system messages ++ (toGroq dumps one ++ toGroq dumps other) := by
            intro one other
            simp [toGroqMessages]
          rw [hbegun] at hlater
          exact hlater

/-- A turn in the second dialect is replayed whole at every round: the prompt,
the history, the text, and every earlier round with its calls and results. -/
theorem groq_turn_is_replayed (hempty : loads "" = none)
    (hobject : loads emptyObject = some (.object []))
    (hround : ∀ text fields, loads text = some (.object fields) →
      loads (dumps fields) = some (.object fields))
    (client : Client) (r : Router ω μ) (script : ℕ → Except LLMError GroqChoice)
    (request : AssistantRequest) (s : Session ω μ) :
    let router := groqRouter loads dumps client r script
    let history := router.readHistory request.conversationId s.memory
    ReplaysAll loads dumps client script
      (.system (router.systemPromptNow (s.world,0)).1::
        history.map (fun message => .plain message.role message.content) ++
          [.plain .user request.text]) 0
      (router.handle request ⟨s.stats,s.memory,(s.world,0)⟩).rounds := by
  dsimp only
  rw [(Router.handle_loop _ request _).1, Router.turnLoop]
  have hasked : ((groqRouter loads dumps client r script).systemPromptNow (s.world,0)).2.2 = 0 := by
    rw [Router.systemPromptNow_world]
    exact contextLines_asked r.contextProviders (s.world,0)
  have hreplays := agenticLoop_replays hempty hobject hround client r script
    ((groqRouter loads dumps client r script).systemPromptNow (s.world,0)).1
    (groqRouter loads dumps client r script).maxToolIterations
    (((groqRouter loads dumps client r script).readHistory request.conversationId s.memory).map
      toWire ++ [userMessage request.text])
    ((groqRouter loads dumps client r script).systemPromptNow (s.world,0)).2
  rw [hasked] at hreplays
  have hbegun : ∀ (system : String) (history : List StoredMessage),
      toGroqMessages dumps system (history.map toWire ++ [userMessage request.text]) =
        .system system::history.map (fun message => .plain message.role message.content) ++
          [.plain .user request.text] := by
    intro system history
    simp only [toGroqMessages, List.flatMap_append, List.flatMap_map, toWire, userMessage, toGroq,
      List.flatMap_singleton, List.cons_append]
    rw [List.map_eq_flatMap]
  rw [hbegun] at hreplays
  exact hreplays

end

def garbled (n : ℕ) : Except LLMError GroqChoice :=
  .ok (if n = 0 then
    ⟨⟨some "Guardo l'ora.",some [⟨"1","clock","UTC"⟩,⟨"2","clock",zonedText⟩]⟩,some "tool_calls"⟩
  else ⟨⟨some "Sono le 12:00.",none⟩,some "stop"⟩)

theorem garbled_turn_is_replayed :
    let router := groqRouter loadsZoned dumpsZoned ⟨"llama",2048⟩ withClock garbled
    let history := router.readHistory "1" ()
    ReplaysAll loadsZoned dumpsZoned ⟨"llama",2048⟩ garbled
      (.system (router.systemPromptNow ((),0)).1::
        history.map (fun message => .plain message.role message.content) ++
          [.plain .user "che ore sono?"]) 0
      (router.handle ⟨"che ore sono?","1","1"⟩ ⟨⟨0,0,none,none⟩,(),((),0)⟩).rounds := by
  apply groq_turn_is_replayed rfl rfl _ ⟨"llama",2048⟩ withClock garbled
    ⟨"che ore sono?","1","1"⟩ ⟨⟨0,0,none,none⟩,(),()⟩
  intro text fields hloads
  unfold loadsZoned at hloads
  split at hloads
  · obtain rfl := Decoded.object.inj (Option.some.inj hloads)
    rfl
  · split at hloads
    · obtain rfl := Decoded.object.inj (Option.some.inj hloads)
      rfl
    · cases hloads

end Emma.GroqReplay

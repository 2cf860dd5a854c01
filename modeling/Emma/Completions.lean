import Emma.GroqReplay
import Emma.RetryLadder

/-!
# From the ladder to the router

What comes off the ladder is an object of the provider's client. Each dialect
reads its fields and logs a line about it before the reply is returned, and
nothing around that catches an error.
-/

set_option autoImplicit false

namespace Emma.Completions
open Emma.Python Emma.LanguageModel Emma.Dialects Emma.RetryLadder

/-- What leaves `complete`: what left the ladder, or an error of a later line. -/
inductive Failure where
  | raised (e : Raised)
  | indexError (text : String)
  | attributeError (text : String)
  | recursionError (text : String)

/-- What `json.loads` does with a text: it may be no JSON, or nested too deep. -/
inductive Loaded where
  | value (decoded : Decoded)
  | malformed
  | tooDeep (text : String)

def Loaded.decoded : Loaded → Option Decoded
  | value decoded => some decoded
  | malformed => none
  | tooDeep _ => none

structure Usage where
  input : ℕ
  output : ℕ

structure AnthropicCompletion where
  reply : AnthropicReply
  usage : Usage

structure GroqCompletion where
  choices : List GroqChoice
  usage : Option Usage

def shownReason (stopReason : Option String) : String := stopReason.getD "None"

def climbed {α : Type} (p : Ladder) (calls : ℕ → CallOutcome α) : Except Failure (α × ℕ) :=
  (run p calls).result.mapError Failure.raised

namespace AnthropicLanguageModel

def report (attempt : ℕ) (raw : AnthropicCompletion) : String :=
  "anthropic call ok (attempt " ++ toString attempt ++ "): stop_reason=" ++
    shownReason raw.reply.stopReason ++ " in=" ++ toString raw.usage.input ++ " out=" ++
    toString raw.usage.output

def complete (p : Ladder) (calls : ℕ → CallOutcome AnthropicCompletion) :
    Except Failure (LLMResponse × String) := do
  let (raw,attempt) ← climbed p calls
  let line := report attempt raw
  return (toResponse raw.reply,line)

end AnthropicLanguageModel

namespace GroqLanguageModel

/-- The handlers of a call's arguments are for malformed text alone. -/
def arguments (loads : String → Loaded) (text : String) : Except Failure Arguments :=
  match loads (if text = "" then emptyObject else text) with
  | .value decoded => .ok decoded.fields
  | .malformed => .ok []
  | .tooDeep text => .error (.recursionError text)

def readCall (loads : String → Loaded) (call : GroqCall) : Except Failure ContentBlock := do
  return .toolUse ⟨call.id,call.name,← arguments loads call.arguments⟩

def fromGroqMessage (loads : String → Loaded) (message : GroqReply)
    (finishReason : Option String) : Except Failure LLMResponse := do
  let prose := match message.content with
    | some text => if text = "" then [] else [ContentBlock.text text]
    | none => []
  let calls ← (message.toolCalls.getD []).mapM (readCall loads)
  let blocks := match prose ++ calls with
    | [] => [.text ""]
    | blocks => blocks
  return ⟨blocks,if finishReason = some "tool_calls" then some "tool_use" else finishReason⟩

def report (attempt : ℕ) (response : LLMResponse) : Option Usage → Except Failure String
  | none => .error (.attributeError "'NoneType' object has no attribute 'prompt_tokens'")
  | some usage => .ok ("groq call ok (attempt " ++ toString attempt ++ "): stop_reason=" ++
      shownReason response.stopReason ++ " in=" ++ toString usage.input ++ " out=" ++
      toString usage.output ++ " tools=" ++ toString response.toolUses.length)

def firstChoice : List GroqChoice → Except Failure GroqChoice
  | [] => .error (.indexError "list index out of range")
  | choice::_ => .ok choice

def complete (loads : String → Loaded) (p : Ladder) (calls : ℕ → CallOutcome GroqCompletion) :
    Except Failure (LLMResponse × String) := do
  let (raw,attempt) ← climbed p calls
  let choice ← firstChoice raw.choices
  let response ← fromGroqMessage loads choice.message choice.finishReason
  let line ← report attempt response raw.usage
  return (response,line)

end GroqLanguageModel

/-- A reply, or an error of the family that the router catches; and what came
with an answer is passed on. -/
structure FailsOneWay {α : Type} (carries : α → Prop) (p : Ladder) (calls : ℕ → CallOutcome α)
    (completed : Except Failure (LLMResponse × String)) : Prop where
  caught : ∀ failure, completed = .error failure → ∃ e, failure = .raised (.llm e)
  returned : ∀ reply n, (run p calls).result = .ok (reply,n) → carries reply →
    ∃ result, completed = .ok result

/-- A reply of the first provider is its answer, be it empty. -/
def AnthropicCompletion.Carries (_ : AnthropicCompletion) : Prop := True

def GroqCompletion.Carries (raw : GroqCompletion) : Prop := raw.choices ≠ []

/-- The ladder goes on to the n-th call, which comes to this reply. -/
def Delivers {α : Type} (p : Ladder) (calls : ℕ → CallOutcome α) (n : ℕ) (reply : α) : Prop :=
  1 ≤ n ∧ n ≤ p.maxAttempts ∧ calls n = .success reply ∧
    ∀ k, 1 ≤ k → k < n → GoesOn p k (calls k)

def Unbroken {α : Type} (p : Ladder) (calls : ℕ → CallOutcome α) : Prop :=
  ∀ k, 1 ≤ k → k ≤ p.maxAttempts → (∀ j, 1 ≤ j → j < k → GoesOn p j (calls j)) →
    Holds p k (calls k)

def Shallow (loads : String → Loaded) (call : GroqCall) : Prop :=
  ∀ text, loads (if call.arguments = "" then emptyObject else call.arguments) ≠ .tooDeep text

/-- There is a choice, the tokens were counted, and no arguments are nested too
deep. -/
structure Usable (loads : String → Loaded) (raw : GroqCompletion) : Prop where
  counted : raw.usage ≠ none
  chosen : ∃ choice rest, raw.choices = choice::rest ∧
    ∀ call ∈ choice.message.toolCalls.getD [], Shallow loads call

section
variable {α : Type} {p : Ladder} {calls : ℕ → CallOutcome α}

theorem unbroken_of_last {c : Climb α} {n : ℕ} (hclimb : ClimbsTo p calls 1 c n)
    (h : Holds p n (calls n)) : Unbroken p calls := by
  intro k hone hmax hbefore
  rcases Nat.lt_trichotomy k n with hearly | rfl | hlate
  · exact holds_of_goesOn (hclimb.passed k hone hearly)
  · exact h
  · exact absurd (hbefore n hclimb.reached.1 hlate) (hclimb.last (by omega))

theorem run_ends (h : Unbroken p calls) :
    (∃ n reply, Delivers p calls n reply ∧ (run p calls).result = .ok (reply,n)) ∨
      ∃ e, (run p calls).result = .error (.llm e) := by
  obtain ⟨n,hclimb⟩ := run_climbsTo p calls
  have htold := hclimb.told (h n hclimb.reached.1 hclimb.reached.2 hclimb.passed)
  cases houtcome : calls n with
  | success reply =>
    rw [houtcome] at htold
    exact .inl ⟨n,reply,⟨hclimb.reached.1,hclimb.reached.2,houtcome,hclimb.passed⟩,htold⟩
  | _ =>
    rw [houtcome] at htold
    obtain ⟨text,htext⟩ := htold
    exact .inr ⟨_,htext⟩

theorem run_delivers {n : ℕ} {reply : α} (h : Delivers p calls n reply) :
    (run p calls).result = .ok (reply,n) := by
  obtain ⟨m,hclimb⟩ := run_climbsTo p calls
  obtain ⟨hone,hmax,hsuccess,hbefore⟩ := h
  have hsame : m = n := by
    rcases Nat.lt_trichotomy m n with hlt | heq | hgt
    · exact absurd (hbefore m hclimb.reached.1 hlt) (hclimb.last (by omega))
    · exact heq
    · have hon := (hclimb.passed n hone hgt).1
      rw [hsuccess] at hon
      exact hon.elim
  have hholds : Holds p m (calls m) := by
    rw [hsame, hsuccess]
    exact ⟨trivial,fun hretries => hretries.elim⟩
  have htold := hclimb.told hholds
  rw [hsame, hsuccess] at htold
  exact htold

/-- Broken, it leaves with an error that nobody expects, or not at all. -/
theorem run_breaks (h : ¬Unbroken p calls) : ∃ e, (run p calls).result = .error e ∧ Foreign e := by
  obtain ⟨n,hclimb⟩ := run_climbsTo p calls
  exact hclimb.broke fun hholds => h (unbroken_of_last hclimb hholds)

theorem climbed_of_run {result : Except Raised (α × ℕ)} (h : (run p calls).result = result) :
    climbed p calls = result.mapError Failure.raised := by
  rw [climbed, h]

end

theorem anthropic_of_run {p : Ladder} {calls : ℕ → CallOutcome AnthropicCompletion}
    {raw : AnthropicCompletion} {n : ℕ} (h : (run p calls).result = .ok (raw,n)) :
    AnthropicLanguageModel.complete p calls =
      .ok (toResponse raw.reply,AnthropicLanguageModel.report n raw) := by
  rw [AnthropicLanguageModel.complete, climbed_of_run h]
  rfl

theorem anthropic_of_error {p : Ladder} {calls : ℕ → CallOutcome AnthropicCompletion}
    {e : Raised} (h : (run p calls).result = .error e) :
    AnthropicLanguageModel.complete p calls = .error (.raised e) := by
  rw [AnthropicLanguageModel.complete, climbed_of_run h]
  rfl

theorem anthropic_fails_one_way_iff (p : Ladder) (calls : ℕ → CallOutcome AnthropicCompletion) :
    FailsOneWay AnthropicCompletion.Carries p calls
      (AnthropicLanguageModel.complete p calls) ↔ Unbroken p calls := by
  constructor
  · intro h
    by_contra hbroken
    obtain ⟨e,he,hforeign⟩ := run_breaks hbroken
    obtain ⟨own,hown⟩ := h.caught _ (anthropic_of_error he)
    exact hforeign own (Failure.raised.inj hown)
  · intro hunbroken
    constructor
    · intro failure hfailure
      rcases run_ends hunbroken with ⟨n,raw,-,hrun⟩ | ⟨e,hrun⟩
      · rw [anthropic_of_run hrun] at hfailure
        cases hfailure
      · rw [anthropic_of_error hrun] at hfailure
        exact ⟨e,(Except.error.inj hfailure).symm⟩
    · intro raw n hrun _
      exact ⟨_,anthropic_of_run hrun⟩

section
variable {loads : String → Loaded}

theorem readCall_shallow {call : GroqCall} (h : Shallow loads call) :
    GroqLanguageModel.readCall loads call = .ok (.toolUse ⟨call.id,call.name,
      parsedArguments (fun text => (loads text).decoded) call.arguments⟩) := by
  unfold GroqLanguageModel.readCall GroqLanguageModel.arguments parsedArguments
  rw [Shallow] at h
  split
  · rename_i decoded hloads
    simp only [hloads, Loaded.decoded]
    rfl
  · rename_i hloads
    simp only [hloads, Loaded.decoded]
    rfl
  · rename_i deep hloads
    exact absurd hloads (h deep)

theorem readCall_deep {call : GroqCall} (h : ¬Shallow loads call) :
    ∃ text, GroqLanguageModel.readCall loads call = .error (.recursionError text) := by
  obtain ⟨text,htext⟩ : ∃ text,
      loads (if call.arguments = "" then emptyObject else call.arguments) = .tooDeep text := by
    simpa [Shallow] using h
  use text
  rw [GroqLanguageModel.readCall, GroqLanguageModel.arguments, htext]
  rfl

/-- The calls are read one after another, up to the first that is nested too deep. -/
theorem calls_read (calls : List GroqCall) :
    ((∀ call ∈ calls, Shallow loads call) ∧ calls.mapM (GroqLanguageModel.readCall loads) =
      .ok (calls.map fun call => .toolUse ⟨call.id,call.name,
        parsedArguments (fun text => (loads text).decoded) call.arguments⟩)) ∨
    ((¬∀ call ∈ calls, Shallow loads call) ∧
      ∃ text, calls.mapM (GroqLanguageModel.readCall loads) = .error (.recursionError text)) := by
  induction calls with
  | nil => exact .inl ⟨fun _ h => absurd h List.not_mem_nil,rfl⟩
  | cons call calls ih =>
    rw [List.mapM_cons, List.forall_mem_cons]
    by_cases hcall : Shallow loads call
    · rw [readCall_shallow hcall]
      rcases ih with ⟨hall,hread⟩ | ⟨hnot,text,hread⟩
      · left
        rw [hread]
        exact ⟨⟨hcall,hall⟩,rfl⟩
      · right
        rw [hread]
        exact ⟨fun h => hnot h.2,text,rfl⟩
    · obtain ⟨text,hdeep⟩ := readCall_deep hcall
      right
      rw [hdeep]
      exact ⟨fun h => hcall h.1,text,rfl⟩

variable {p : Ladder} {calls : ℕ → CallOutcome GroqCompletion}

theorem groq_of_error {e : Raised} (h : (run p calls).result = .error e) :
    GroqLanguageModel.complete loads p calls = .error (.raised e) := by
  rw [GroqLanguageModel.complete, climbed_of_run h]
  rfl

theorem groq_of_usable {raw : GroqCompletion} {n : ℕ} (h : (run p calls).result = .ok (raw,n))
    {choice : GroqChoice} {rest : List GroqChoice} {usage : Usage}
    (hchoice : raw.choices = choice::rest) (husage : raw.usage = some usage)
    (hshallow : ∀ call ∈ choice.message.toolCalls.getD [], Shallow loads call) :
    ∃ line, GroqLanguageModel.complete loads p calls = .ok (Dialects.fromGroqMessage
      (fun text => (loads text).decoded) choice.message choice.finishReason,line) := by
  rcases @calls_read loads (choice.message.toolCalls.getD []) with ⟨-,hread⟩ | ⟨hnot,-⟩
  · rw [GroqLanguageModel.complete, climbed_of_run h]
    dsimp only [bind, Except.bind, Except.mapError]
    rw [hchoice, husage]
    dsimp only [GroqLanguageModel.firstChoice, GroqLanguageModel.fromGroqMessage, bind, Except.bind]
    rw [hread]
    exact ⟨_,rfl⟩
  · exact absurd hshallow hnot

theorem groq_of_unusable {raw : GroqCompletion} {n : ℕ} (h : (run p calls).result = .ok (raw,n))
    (hnot : ¬Usable loads raw) : ∃ failure, GroqLanguageModel.complete loads p calls =
      .error failure ∧ ∀ e, failure ≠ .raised e := by
  rw [GroqLanguageModel.complete, climbed_of_run h]
  dsimp only [bind, Except.bind, Except.mapError]
  cases hchoices : raw.choices with
  | nil => exact ⟨_,rfl,by simp⟩
  | cons choice rest =>
    dsimp only [GroqLanguageModel.firstChoice, GroqLanguageModel.fromGroqMessage, bind, Except.bind]
    rcases @calls_read loads (choice.message.toolCalls.getD []) with
      ⟨hall,hread⟩ | ⟨-,text,hread⟩
    · rw [hread]
      cases husage : raw.usage with
      | none => exact ⟨_,rfl,by simp⟩
      | some usage =>
        exact absurd ⟨by simp [husage],choice,rest,hchoices,hall⟩ hnot
    · rw [hread]
      exact ⟨_,rfl,by simp⟩

theorem groq_fails_one_way_iff (loads : String → Loaded) (p : Ladder)
    (calls : ℕ → CallOutcome GroqCompletion) :
    FailsOneWay GroqCompletion.Carries p calls (GroqLanguageModel.complete loads p calls) ↔
      Unbroken p calls ∧ ∀ n raw, Delivers p calls n raw → Usable loads raw := by
  constructor
  · intro h
    refine ⟨?_,fun n raw hdelivers => ?_⟩
    · by_contra hbroken
      obtain ⟨e,he,hforeign⟩ := run_breaks hbroken
      obtain ⟨own,hown⟩ := h.caught _ (groq_of_error he)
      exact hforeign own (Failure.raised.inj hown)
    · by_contra hnot
      obtain ⟨failure,hfailure,hother⟩ := groq_of_unusable (run_delivers hdelivers) hnot
      obtain ⟨e,he⟩ := h.caught failure hfailure
      exact hother _ he
  · rintro ⟨hunbroken,husable⟩
    have hreturned : ∀ raw n, (run p calls).result = .ok (raw,n) →
        ∃ result, GroqLanguageModel.complete loads p calls = .ok result := by
      intro raw n hrun
      rcases run_ends hunbroken with ⟨m,raw',hdelivers,hrun'⟩ | ⟨e,hrun'⟩
      · obtain ⟨rfl,rfl⟩ : raw = raw' ∧ n = m := by simpa [hrun] using hrun'
        obtain ⟨hcounted,choice,rest,hchoice,hshallow⟩ := husable n raw hdelivers
        obtain ⟨usage,husage⟩ := Option.ne_none_iff_exists'.mp hcounted
        obtain ⟨line,hline⟩ := groq_of_usable hrun hchoice husage hshallow
        exact ⟨_,hline⟩
      · rw [hrun] at hrun'
        cases hrun'
    constructor
    · intro failure hfailure
      rcases run_ends hunbroken with ⟨n,raw,-,hrun⟩ | ⟨e,hrun⟩
      · obtain ⟨result,hresult⟩ := hreturned raw n hrun
        rw [hresult] at hfailure
        cases hfailure
      · rw [groq_of_error hrun] at hfailure
        exact ⟨e,(Except.error.inj hfailure).symm⟩
    · exact fun raw n hrun _ => hreturned raw n hrun

end

/-- Both clients fail in the router's one way exactly when no attempt breaks the
ladder and, for the second provider, what it delivers is usable. -/
theorem complete_fails_one_way_iff (loads : String → Loaded) (p : Ladder)
    (anthropicCalls : ℕ → CallOutcome AnthropicCompletion)
    (groqCalls : ℕ → CallOutcome GroqCompletion) :
    FailsOneWay AnthropicCompletion.Carries p anthropicCalls
          (AnthropicLanguageModel.complete p anthropicCalls) ∧
        FailsOneWay GroqCompletion.Carries p groqCalls
          (GroqLanguageModel.complete loads p groqCalls) ↔
      Unbroken p anthropicCalls ∧ Unbroken p groqCalls ∧
        ∀ n raw, Delivers p groqCalls n raw → Usable loads raw := by
  rw [anthropic_fails_one_way_iff, groq_fails_one_way_iff]

def uncounted : GroqCompletion := ⟨[⟨⟨some "Sono le 18:30.",none⟩,some "stop"⟩],none⟩

def threeAttempts : Ladder := ⟨"Groq",3,.int 1,exactSum,Nat.le_add_left 1 2⟩

theorem uncounted_answer_is_lost :
    ¬FailsOneWay GroqCompletion.Carries threeAttempts (fun _ => .success uncounted)
      (GroqLanguageModel.complete (fun _ => .malformed) threeAttempts
        fun _ => .success uncounted) := by
  intro h
  obtain ⟨result,hresult⟩ := h.returned uncounted 1 rfl (List.cons_ne_nil _ _)
  cases hresult

end Emma.Completions

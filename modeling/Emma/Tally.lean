import Emma.Conversations
import Mathlib.Algebra.Order.BigOperators.Group.Finset

/-!
# The tally of the turns

All conversations count their turns in one place. A turn is counted between the
loop and the answer, so at any moment the tally may be ahead of the answers by
the turns under way, and by no more.
-/

set_option autoImplicit false

namespace Emma.Tally
open Emma.Python Emma.ConversationMemory Emma.LanguageModel Emma.Orchestrator
open Emma.TurnMemory Emma.TurnScript Emma.Conversations

section
variable {ω μ α β : Type}

inductive Yields (Q : α → Prop) : Script ω α → Prop
  | done {result : α} (h : Q result) : Yields Q (.done result)
  | getHistory {next : Outcome (List StoredMessage) → Script ω α}
      (h : ∀ history, Yields Q (next history)) : Yields Q (.getHistory next)
  | append {message : StoredMessage} {now : ℚ} {next : Outcome Unit → Script ω α}
      (h : ∀ outcome, Yields Q (next outcome)) : Yields Q (.append message now next)
  | complete {request : LLMRequest} {next : Except LLMError LLMResponse → Script ω α}
      (h : ∀ reply, Yields Q (next reply)) : Yields Q (.complete request next)
  | world {change : ω → ω} {next : ω → Script ω α} (h : ∀ w, Yields Q (next w)) :
      Yields Q (.world change next)

def CountedAs (reason : Option String) (result : Except PyError AssistantResponse) : Prop :=
  ∃ answer, result = .ok answer ∧ answer.degraded = reason.isSome ∧ answer.reason = reason

inductive Counts : Script ω (Except PyError AssistantResponse) → Prop
  | raised (e : PyError) : Counts (.done (.error e))
  | record {reason : Option String} {now : ℚ} {next : Script ω (Except PyError AssistantResponse)}
      (h : Yields (CountedAs reason) next) : Counts (.record reason now next)
  | getHistory {next : Outcome (List StoredMessage) → Script ω (Except PyError AssistantResponse)}
      (h : ∀ history, Counts (next history)) : Counts (.getHistory next)
  | append {message : StoredMessage} {now : ℚ}
      {next : Outcome Unit → Script ω (Except PyError AssistantResponse)}
      (h : ∀ outcome, Counts (next outcome)) : Counts (.append message now next)
  | complete {request : LLMRequest}
      {next : Except LLMError LLMResponse → Script ω (Except PyError AssistantResponse)}
      (h : ∀ reply, Counts (next reply)) : Counts (.complete request next)
  | world {change : ω → ω} {next : ω → Script ω (Except PyError AssistantResponse)}
      (h : ∀ w, Counts (next w)) : Counts (.world change next)

theorem Yields.bind {P : α → Prop} {Q : β → Prop} {script : Script ω α} {k : α → Script ω β}
    (h : Yields P script) (hk : ∀ a, P a → Yields Q (k a)) : Yields Q (script >>= k) := by
  induction h with
  | done hresult => exact hk _ hresult
  | getHistory _ ih => exact .getHistory ih
  | append _ ih => exact .append ih
  | complete _ ih => exact .complete ih
  | world _ ih => exact .world ih

theorem Yields.counts {P : α → Prop} {script : Script ω α}
    {k : α → Script ω (Except PyError AssistantResponse)} (h : Yields P script)
    (hk : ∀ a, P a → Counts (k a)) : Counts (script >>= k) := by
  induction h with
  | done hresult => exact hk _ hresult
  | getHistory _ ih => exact .getHistory ih
  | append _ ih => exact .append ih
  | complete _ ih => exact .complete ih
  | world _ ih => exact .world ih

theorem yields_call (f : ω → β × ω) : Yields (fun _ : β => True) (Script.call f) :=
  .world fun _ => .done trivial

theorem yields_contextLines (providers : List (ω → Outcome String × ω)) :
    Yields (fun _ => True) (Script.contextLines providers) := by
  induction providers with
  | nil => exact .done trivial
  | cons provider rest ih =>
    apply (yields_call provider).bind
    rintro (_ | snapshot) -
    · exact ih
    · exact ih.bind fun _ _ => .done trivial

theorem yields_systemPromptNow (r : Router ω μ) :
    Yields (fun _ => True) (Script.systemPromptNow r) := by
  apply (yields_contextLines r.contextProviders).bind
  rintro (_ | _) - <;> exact .done trivial

theorem yields_switchedOff (r : Router ω μ) : Yields (fun _ => True) (Script.switchedOff r) := by
  unfold Script.switchedOff
  split
  · exact .done trivial
  · apply (yields_call _).bind
    rintro (_ | _) - <;> exact .done trivial

theorem yields_executeTool (r : Router ω μ) (use : ToolUseBlock) :
    Yields (fun _ => True) (Script.executeTool r use) := by
  apply (yields_switchedOff r).bind
  intro off _
  split
  · exact .done trivial
  · split
    · exact .done trivial
    · apply (yields_call _).bind
      rintro (_ | _) - <;> exact .done trivial

theorem yields_executeTools (r : Router ω μ) (uses : List ToolUseBlock) :
    Yields (fun _ => True) (Script.executeTools r uses) := by
  induction uses with
  | nil => exact .done trivial
  | cons use rest ih =>
    apply (yields_executeTool r use).bind
    intro _ _
    exact ih.bind fun _ _ => .done trivial

def Reasoned (outcome : Except LLMError AssistantResponse) : Prop :=
  ∀ answer, outcome = .ok answer → answer.degraded = answer.reason.isSome

theorem yields_agenticLoop (r : Router ω μ) (system : String) (left : ℕ)
    (messages : List Message) : Yields Reasoned (Script.agenticLoop r system left messages) := by
  induction left generalizing messages with
  | zero =>
    refine .done fun answer h => ?_
    rw [← Except.ok.inj h]
    rfl
  | succ left ih =>
    apply (yields_switchedOff r).bind
    intro off _
    apply Yields.complete
    rintro (e | reply)
    · exact .done fun answer h => by cases h
    · dsimp only
      split
      · refine .done fun answer h => ?_
        rw [← Except.ok.inj h]
        exact finalAnswer_reason reply
      · exact (yields_executeTools r reply.toolUses).bind fun _ _ => ih _

theorem yields_remember (request : AssistantRequest) (answer : String) (now : ℚ) :
    Yields (fun _ => True) (Script.remember request answer now : Script ω Unit) := by
  apply Yields.append
  rintro (_ | _)
  · exact .done trivial
  · exact .append fun _ => .done trivial

theorem counts_conclude (r : Router ω μ) (request : AssistantRequest)
    (outcome : Except LLMError AssistantResponse) (h : Reasoned outcome) :
    Counts (Script.conclude r request outcome) := by
  have hreason : ∀ answer, Router.settled outcome = .ok answer →
      answer.degraded = answer.reason.isSome := by
    intro answer hsettled
    rcases outcome with (_ | ⟨_,retryAfter⟩) | answer'
    · rw [← Except.ok.inj hsettled]
      rfl
    · cases hmessage : quotaMessage retryAfter with
      | error e => simp [Router.settled, hmessage, bind, Except.bind] at hsettled
      | ok message =>
        simp only [Router.settled, hmessage, bind, Except.bind, pure, Except.pure,
          Except.ok.injEq] at hsettled
        rw [← hsettled]
        rfl
    · exact h answer (congrArg Except.ok (Except.ok.inj hsettled))
  rw [Script.conclude]
  cases hsettled : Router.settled outcome with
  | error e => exact .raised e
  | ok answer =>
    have hanswer := hreason answer hsettled
    apply (yields_call _).counts
    intro now _
    split
    · exact .record (.done ⟨answer,rfl,hanswer,rfl⟩)
    · rename_i hwhole
      have hnone : answer.reason = none := by
        rw [Bool.not_eq_true] at hwhole
        rw [hwhole] at hanswer
        exact Option.isNone_iff_eq_none.mp (by simpa using hanswer.symm)
      apply Counts.record
      apply (yields_remember request answer.text now).bind
      exact fun _ _ => .done ⟨answer,rfl,by rw [hanswer, hnone],hnone⟩

theorem counts_handle (r : Router ω μ) (request : AssistantRequest) :
    Counts (Script.handle r request) := by
  apply Counts.getHistory
  intro history
  apply (yields_systemPromptNow r).counts
  intro system _
  apply (yields_agenticLoop r system _ _).counts
  exact fun outcome h => counts_conclude r request outcome h

def Under : Option (Option String) → Conversation ω → Prop
  | none, own => ∀ script, own.current = some script → Counts script
  | some reason, own => ∃ script, own.current = some script ∧ Yields (CountedAs reason) script

def isDegraded : Except PyError AssistantResponse → Bool
  | .ok answer => answer.degraded
  | .error _ => false

/-- The answers of a kind in a conversation, and its turn where that was counted. -/
def counted (p : Except PyError AssistantResponse → Bool) (weight : Option (Option String) → ℕ)
    (filed : Option (Option String)) (own : Conversation ω) : ℕ :=
  own.answered.countP p+weight filed

def asTurn (filed : Option (Option String)) : ℕ := filed.isSome.toNat

def asDegraded (filed : Option (Option String)) : ℕ := (filed.any Option.isSome).toNat

theorem record_turns (stats : TurnStats) (reason : Option String) (now : ℚ) :
    (stats.record reason now).turns = stats.turns+1 ∧
      (stats.record reason now).degraded = stats.degraded+reason.isSome.toNat := by
  cases reason <;> exact ⟨rfl,rfl⟩

/-- Handing over the answer of a turn that was counted moves no tally. -/
theorem counted_answer {reason : Option String} {result : Except PyError AssistantResponse}
    (h : CountedAs reason result) : result.isOk = true ∧ isDegraded result = reason.isSome := by
  obtain ⟨answer,rfl,hdegraded,-⟩ := h
  exact ⟨rfl,hdegraded⟩

/-- An act moves the tally by what it changes in its own conversation. -/
theorem act_counted (memory : Store μ) (r : Router ω μ) (c : ConversationId)
    (filed : Option (Option String)) (own : Conversation ω) (shared : Shared μ)
    (h : Under filed own) : ∃ filed', Under filed' (act memory r c (own,shared)).1 ∧
      (act memory r c (own,shared)).2.stats.turns+counted Except.isOk asTurn filed own =
        shared.stats.turns+counted Except.isOk asTurn filed' (act memory r c (own,shared)).1 ∧
      (act memory r c (own,shared)).2.stats.degraded+counted isDegraded asDegraded filed own =
        shared.stats.degraded+
          counted isDegraded asDegraded filed' (act memory r c (own,shared)).1 := by
  rcases own with ⟨waiting,_ | script,world,asked,answered⟩
  · cases filed with
    | some reason =>
      obtain ⟨script,hnone,-⟩ := h
      cases hnone
    | none =>
      rcases waiting with _ | ⟨⟨text,userId⟩,rest⟩
      · exact ⟨none,h,rfl,rfl⟩
      · refine ⟨none,?_,rfl,rfl⟩
        rintro script hscript
        rw [← Option.some.inj hscript]
        exact counts_handle r _
  cases filed with
  | none =>
    cases h script rfl with
    | raised e =>
      refine ⟨none,fun _ hnone => (by cases hnone),?_,?_⟩
      · simp [act, counted, Except.isOk, Except.toBool]
      · simp [act, counted, isDegraded]
    | @record reason now next hnext =>
      obtain ⟨hturns,hdegraded⟩ := record_turns shared.stats reason now
      refine ⟨some reason,⟨next,rfl,hnext⟩,?_,?_⟩
      · simp only [act, hturns, counted, asTurn, Option.isSome_none, Option.isSome_some,
          Bool.toNat_false, Bool.toNat_true]
        omega
      · simp only [act, hdegraded, counted, asDegraded, Option.any_none, Option.any_some,
          Bool.toNat_false]
        omega
    | getHistory hnext =>
      exact ⟨none,fun _ hscript => Option.some.inj hscript ▸ hnext _,rfl,rfl⟩
    | append hnext => exact ⟨none,fun _ hscript => Option.some.inj hscript ▸ hnext _,rfl,rfl⟩
    | complete hnext => exact ⟨none,fun _ hscript => Option.some.inj hscript ▸ hnext _,rfl,rfl⟩
    | world hnext => exact ⟨none,fun _ hscript => Option.some.inj hscript ▸ hnext _,rfl,rfl⟩
  | some reason =>
    obtain ⟨script',hscript,hyields⟩ := h
    obtain rfl : script = script' := Option.some.inj hscript
    cases hyields with
    | done hresult =>
      obtain ⟨hok,hdegraded⟩ := counted_answer hresult
      refine ⟨none,fun _ hnone => (by cases hnone),?_,?_⟩
      · simp [act, counted, asTurn, hok, List.countP_append]
      · cases reason <;> simp [act, counted, asDegraded, hdegraded, List.countP_append]
    | getHistory hnext => exact ⟨some reason,⟨_,rfl,hnext _⟩,rfl,rfl⟩
    | append hnext => exact ⟨some reason,⟨_,rfl,hnext _⟩,rfl,rfl⟩
    | complete hnext => exact ⟨some reason,⟨_,rfl,hnext _⟩,rfl,rfl⟩
    | world hnext => exact ⟨some reason,⟨_,rfl,hnext _⟩,rfl,rfl⟩

def begun (waiting : ConversationId → List (String × String)) (world : ConversationId → ω)
    (memory : μ) : Together ω μ :=
  (fun c => ⟨waiting c,none,world c,[],[]⟩,⟨⟨0,0,none,none⟩,memory⟩)

def answers (p : Except PyError AssistantResponse → Bool) (S : Finset ConversationId)
    (s : Together ω μ) : ℕ :=
  ∑ c ∈ S, (s.1 c).answered.countP p

def underWay (S : Finset ConversationId) (s : Together ω μ) : ℕ :=
  ∑ c ∈ S, (s.1 c).current.isSome.toNat

theorem under_current {filed : Option (Option String)} {own : Conversation ω}
    (h : Under filed own) : filed.isSome.toNat ≤ own.current.isSome.toNat := by
  cases filed with
  | none => exact Nat.zero_le _
  | some reason =>
    obtain ⟨script,hscript,-⟩ := h
    rw [hscript]
    exact le_refl _

/-- A number that every act moves with the share of its conversation is ahead of the
answers by turns under way alone. -/
theorem ahead_of_answers (r : Router ω μ) (total : Shared μ → ℕ)
    (p : Except PyError AssistantResponse → Bool) (weight : Option (Option String) → ℕ)
    (hweight : ∀ filed, weight filed ≤ filed.isSome.toNat)
    (hact : ∀ c filed own shared, Under filed own →
      ∃ filed', Under filed' (act r.memory r c (own,shared)).1 ∧
        total (act r.memory r c (own,shared)).2+counted p weight filed own =
          total shared+counted p weight filed' (act r.memory r c (own,shared)).1)
    (schedule : List ConversationId) (waiting : ConversationId → List (String × String))
    (world : ConversationId → ω) (memory : μ)
    (hfresh : total (begun waiting world memory).2 = 0) :
    ∃ ahead ≤ underWay schedule.toFinset (run r schedule (begun waiting world memory)),
      total (run r schedule (begun waiting world memory)).2 =
        answers p schedule.toFinset (run r schedule (begun waiting world memory))+ahead := by
  have hstart : ∀ c, Under none ((begun waiting world memory).1 c) := by
    intro c script hscript
    cases hscript
  obtain ⟨filed,hfiled,htotal⟩ := Interleaving.run_sum total (counted p weight) Under hact
    schedule.toFinset schedule (fun c hc => List.mem_toFinset.mpr hc)
    (begun waiting world memory).1 (begun waiting world memory).2 _ hstart
  have hnone : weight none = 0 := Nat.le_zero.mp (hweight none)
  have hzero : ∑ c ∈ schedule.toFinset, counted p weight none ((begun waiting world memory).1 c) =
      0 := Finset.sum_eq_zero fun _ _ => by
    rw [counted, hnone]
    rfl
  refine ⟨∑ c ∈ schedule.toFinset, weight (filed c),?_,?_⟩
  · exact Finset.sum_le_sum fun c _ => (hweight (filed c)).trans (under_current (hfiled c))
  · rw [hzero, hfresh, Nat.add_zero, Nat.zero_add] at htotal
    refine htotal.trans ?_
    rw [answers, ← Finset.sum_add_distrib]
    rfl

/-- In any interleaving no turn is lost and none is counted twice: the tally is
ahead of the answers by turns under way alone, among all as among the degraded. -/
theorem no_turn_is_lost (r : Router ω μ) (schedule : List ConversationId)
    (waiting : ConversationId → List (String × String)) (world : ConversationId → ω) (memory : μ) :
    let last := run r schedule (begun waiting world memory)
    let S := schedule.toFinset
    (∃ ahead ≤ underWay S last, last.2.stats.turns = answers Except.isOk S last+ahead) ∧
      ∃ ahead ≤ underWay S last, last.2.stats.degraded = answers isDegraded S last+ahead := by
  intro last S
  constructor
  · apply ahead_of_answers r (fun shared => shared.stats.turns) Except.isOk asTurn
    · exact fun _ => le_refl _
    · intro c filed own shared hunder
      obtain ⟨filed',hunder',hturns,-⟩ := act_counted r.memory r c filed own shared hunder
      exact ⟨filed',hunder',hturns⟩
    · rfl
  · apply ahead_of_answers r (fun shared => shared.stats.degraded) isDegraded asDegraded
    · intro filed
      cases filed with
      | none => exact Nat.zero_le _
      | some reason => exact Bool.toNat_le _
    · intro c filed own shared hunder
      obtain ⟨filed',hunder',-,hdegraded⟩ := act_counted r.memory r c filed own shared hunder
      exact ⟨filed',hunder',hdegraded⟩
    · rfl

end
end Emma.Tally

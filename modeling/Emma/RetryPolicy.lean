import Emma.RetryLadder

/-!
# What the ladder promises, and when it keeps it

The policy names the call that is the last one, the seconds slept before it and
what the caller is told. It knows of no float: a pause that has none ends the
ladder, and so does a sum of pauses that is rounded to the other side of what the
server asks for.
-/

set_option autoImplicit false

namespace Emma.RetryPolicy
open Emma.Python Emma.Numbers Emma.LanguageModel Emma.RetryLadder

section
variable {α : Type} (p : Ladder) (calls : ℕ → CallOutcome α)

def Stops (attempt : ℕ) : CallOutcome α → Prop
  | .success _ => True
  | .connectionError _ => False
  | .rateLimit _ retryAfter => TooLong p attempt retryAfter
  | .status code _ => code < 500
  | .other _ => True

/-- The n-th call is the last one, the pauses before it are doubled from one to
the next, and the caller is told what the n-th outcome was. -/
def FollowsPolicy (c : Climb α) : Prop :=
  ∃ n, 1 ≤ n ∧ n ≤ p.maxAttempts ∧ (∀ k, 1 ≤ k → k < n → ¬Stops p k (calls k)) ∧
    (Stops p n (calls n) ∨ n = p.maxAttempts) ∧ c.trace.count .call = n ∧
    (pauses c.trace).sum = p.backoffSeconds.seconds*(2^(n-1)-1) ∧
    c.trace.getLast? = some .call ∧ Tells n c.result (calls n)

def Agrees (attempt : ℕ) : CallOutcome α → Prop
  | .rateLimit _ retryAfter => Waits p attempt retryAfter ↔ ¬TooLong p attempt retryAfter
  | _ => True

def Manageable : Prop :=
  ∀ k, 1 ≤ k → k ≤ p.maxAttempts → (∀ j, 1 ≤ j → j < k → ¬Stops p j (calls j)) →
    Holds p k (calls k) ∧ Agrees p k (calls k)

variable {p calls} {attempt : ℕ} {outcome : CallOutcome α}

theorem retries_iff (h : Agrees p attempt outcome) :
    Retries p attempt outcome ↔ ¬Stops p attempt outcome := by
  cases outcome with
  | success reply => exact iff_of_false id (not_not_intro trivial)
  | connectionError text => exact iff_of_true trivial id
  | rateLimit text retryAfter => exact h
  | status code text => exact Nat.not_lt.symm
  | other text => exact iff_of_false id (not_not_intro trivial)

theorem goesOn_iff (hholds : Holds p attempt outcome) (hagrees : Agrees p attempt outcome)
    (hlast : attempt < p.maxAttempts) : GoesOn p attempt outcome ↔ ¬Stops p attempt outcome := by
  rw [← retries_iff hagrees]
  exact ⟨And.left,fun hretries => ⟨hretries,hholds.2 hretries hlast⟩⟩

theorem agrees_of_iff (hjudged : Retries p attempt outcome ↔ ¬Stops p attempt outcome) :
    Agrees p attempt outcome := by
  cases outcome with
  | rateLimit text retryAfter => exact hjudged
  | _ => trivial

variable (p outcome) in
/-- Nothing is left to be slept after the last attempt, and nothing is rounded. -/
theorem agrees_last : Agrees p p.maxAttempts outcome := by
  cases outcome with
  | rateLimit text retryAfter =>
    have hnothing : untilLast p p.maxAttempts = 0 := by simp [untilLast]
    constructor
    · rintro ⟨budget,hbudget,hwaits⟩ ⟨wait,hwait,hlong⟩
      obtain rfl : budget = .int 0 := Except.ok.inj (hbudget.symm.trans (remainingBackoff_last p))
      rw [hnothing] at hlong
      have hshort : wait.gt 0 = false := by simpa [exceeds] using hwaits wait hwait
      rw [hshort] at hlong
      cases hlong
    · intro hshort
      refine ⟨_,remainingBackoff_last p,fun wait hwait => ?_⟩
      by_contra hlong
      refine hshort ⟨wait,hwait,?_⟩
      rw [hnothing]
      simpa [exceeds] using hlong
  | _ => trivial

/-- With an integer for its base the ladder never rounds what it compares. -/
theorem agrees_of_int {n : ℕ} (hbase : p.backoffSeconds = .int n) (hone : 1 ≤ attempt)
    (hlast : attempt ≤ p.maxAttempts) : Agrees p attempt outcome := by
  cases outcome with
  | rateLimit text retryAfter =>
    obtain ⟨budget,hbudget,hexact⟩ := remainingBackoff_int p n attempt hbase hone hlast
    constructor
    · rintro ⟨other,hother,hwaits⟩ ⟨wait,hwait,hlong⟩
      obtain rfl : other = .int budget := Except.ok.inj (hother.symm.trans hbudget)
      have hshort : wait.gt budget = false := hwaits wait hwait
      rw [hexact, hlong] at hshort
      cases hshort
    · intro hshort
      refine ⟨_,hbudget,fun wait hwait => ?_⟩
      by_contra hlong
      refine hshort ⟨wait,hwait,?_⟩
      rw [← hexact]
      simpa [exceeds] using hlong
  | _ => trivial

theorem manageable_int_iff {n : ℕ} (hbase : p.backoffSeconds = .int n) :
    Manageable p calls ↔ ∀ k, 1 ≤ k → k ≤ p.maxAttempts →
      (∀ j, 1 ≤ j → j < k → ¬Stops p j (calls j)) → Holds p k (calls k) := by
  constructor
  · intro h k hone hmax hbefore
    exact (h k hone hmax hbefore).1
  · intro h k hone hmax hbefore
    exact ⟨h k hone hmax hbefore,agrees_of_int hbase hone hmax⟩

/-- No error of the ladder's own is told where another one left it. -/
theorem not_tells_of_foreign {n : ℕ} {result : Except Raised (α × ℕ)} {e : Raised}
    (he : result = .error e) (hforeign : Foreign e) : ¬Tells n result outcome := by
  subst he
  cases outcome with
  | success reply => exact nofun
  | _ =>
    rintro ⟨text,htext⟩
    exact hforeign _ (Except.error.inj htext)

theorem passed_of_manageable {c : Climb α} {n : ℕ} (hclimb : ClimbsTo p calls 1 c n)
    (h : Manageable p calls) (k : ℕ) (hone : 1 ≤ k) (hk : k < n) : ¬Stops p k (calls k) := by
  have hmax := hclimb.reached.2
  induction k using Nat.strong_induction_on with
  | _ k ih =>
    obtain ⟨hholds,hagrees⟩ := h k hone (by omega) fun j hj hlt => ih j hlt hj (by omega)
    exact (goesOn_iff hholds hagrees (by omega)).mp (hclimb.passed k hone hk)

theorem follows_of_manageable {c : Climb α} {n : ℕ} (hclimb : ClimbsTo p calls 1 c n)
    (h : Manageable p calls) : FollowsPolicy p calls c := by
  have hpassed := passed_of_manageable hclimb h
  obtain ⟨hstart,hmax⟩ := hclimb.reached
  obtain ⟨hholds,hagrees⟩ := h n hstart hmax hpassed
  have hmade := hclimb.made
  have hslept := hclimb.slept
  rw [Nat.sub_self, pow_zero] at hslept
  refine ⟨n,hstart,hmax,hpassed,?_,by omega,hslept,hclimb.ends,hclimb.told hholds⟩
  by_cases hlast : n < p.maxAttempts
  · left
    by_contra hnot
    exact hclimb.last hlast ((goesOn_iff hholds hagrees hlast).mpr hnot)
  · right
    omega

theorem manageable_of_follows {c : Climb α} {n : ℕ} (hclimb : ClimbsTo p calls 1 c n)
    (h : FollowsPolicy p calls c) : Manageable p calls := by
  obtain ⟨m,hone,hm,hpassed,hstops,hcount,-,-,htold⟩ := h
  obtain rfl : m = n := by have := hclimb.made; omega
  intro k hk hmax hbefore
  rcases Nat.lt_trichotomy k m with hearly | rfl | hlate
  · -- the ladder went on here, and so did the policy
    have hon := hclimb.passed k hk hearly
    exact ⟨holds_of_goesOn hon,agrees_of_iff (iff_of_true hon.1 (hpassed k hk hearly))⟩
  · have hholds : Holds p k (calls k) := by
      by_contra hfails
      obtain ⟨e,he,hforeign⟩ := hclimb.broke hfails
      exact not_tells_of_foreign he hforeign htold
    refine ⟨hholds,?_⟩
    rcases Nat.lt_or_ge k p.maxAttempts with hlast | hlast
    · have hstop : Stops p k (calls k) := hstops.resolve_right (by omega)
      have hnot : ¬Retries p k (calls k) := fun hretries =>
        hclimb.last hlast ⟨hretries,hholds.2 hretries hlast⟩
      exact agrees_of_iff (iff_of_false hnot (not_not_intro hstop))
    · obtain rfl : k = p.maxAttempts := by omega
      exact agrees_last p _
  · -- the policy had stopped at the last call
    have hstop : Stops p m (calls m) := hstops.resolve_right (by omega)
    exact absurd hstop (hbefore m hone hlate)

variable (p calls) in
/-- The ladder does what its policy says exactly when the floats bear every attempt
that the policy comes to. -/
theorem run_follows_policy_iff : FollowsPolicy p calls (run p calls) ↔ Manageable p calls := by
  obtain ⟨n,hclimb⟩ := run_climbsTo p calls
  exact ⟨manageable_of_follows hclimb,follows_of_manageable hclimb⟩

end

def patient : Ladder :=
  ⟨"Groq",1026,.float ⟨0,le_rfl,by norm_num⟩,exactSum,Nat.le_add_left 1 1025⟩

def unreachable (_ : ℕ) : CallOutcome Unit := .connectionError "Connection error."

theorem patient_ladder_breaks :
    ¬FollowsPolicy patient unreachable (run patient unreachable) := by
  intro h
  obtain ⟨n,hclimb⟩ := run_climbsTo patient unreachable
  have hholds := manageable_of_follows hclimb h 1025 (by omega) (Nat.le_succ 1025)
    fun j _ _ => id
  exact hholds.1.2 trivial (Nat.lt_succ_self 1025) (.inl le_rfl)

end Emma.RetryPolicy

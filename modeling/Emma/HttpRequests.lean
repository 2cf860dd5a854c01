import Emma.RetryPolicy

/-!
# How many requests one answer may cost

Under the ladder lies another loop: a client of an SDK repeats a request by
itself as often as it was told when it was built. One of the two clients was
told nothing.
-/

set_option autoImplicit false

namespace Emma.HttpRequests
open Emma.Numbers Emma.RetryLadder Emma.RetryPolicy

/-- What one HTTP request comes to, a status with the server's advice. -/
inductive HttpOutcome (α : Type) where
  | success (reply : α)
  | connectionError (text : String)
  | status (code : ℕ) (text : String) (retryAfter : Option PyFloat)

namespace HttpOutcome
variable {α : Type}

def retryable : HttpOutcome α → Bool
  | success _ => false
  | connectionError _ => true
  | status code _ _ => code = 408 || code = 409 || code = 429 || 500 ≤ code

/-- What `create()` returns or raises after its last request. -/
def raised : HttpOutcome α → CallOutcome α
  | success reply => .success reply
  | connectionError text => .connectionError text
  | status code text retryAfter =>
    if code = 429 then .rateLimit text retryAfter else .status code text

end HttpOutcome

/-- A client of an SDK, with what its `max_retries` defaults to. -/
structure SdkClient where
  maxRetries : ℕ := 2

def anthropicClient : SdkClient := { maxRetries := 0 }

def groqClient : SdkClient := {}

section
variable (maxAttempts : ℕ+) (backoffSeconds : Base) (sum : List PyFloat → PyFloat)

def anthropicLadder : Ladder := ⟨"Anthropic",maxAttempts,backoffSeconds,sum,maxAttempts.pos⟩

def groqLadder : Ladder := ⟨"Groq",maxAttempts,backoffSeconds,sum,maxAttempts.pos⟩

end

section
variable {α : Type} (http : ℕ → HttpOutcome α)

/-- The requests of one `create()`, begun with the i-th, that may repeat it so
many times. -/
def requestsOf : ℕ → ℕ → ℕ
  | 0, _ => 1
  | left+1, i => if (http i).retryable then requestsOf left (i+1)+1 else 1

def spent (client : SdkClient) : ℕ → ℕ
  | 0 => 0
  | n+1 => spent client n+requestsOf http client.maxRetries (spent client n)

def callOf (client : SdkClient) (n : ℕ) : CallOutcome α := (http (spent http client n-1)).raised

/-- The requests that one `complete()` issues. -/
def requests (p : Ladder) (client : SdkClient) : ℕ :=
  spent http client ((run p (callOf http client)).trace.count .call)

/-- Neither client issues more requests than it has attempts. -/
def OnePolicy (maxAttempts : ℕ+) (backoffSeconds : Base) (sum : List PyFloat → PyFloat) : Prop :=
  requests http (anthropicLadder maxAttempts backoffSeconds sum) anthropicClient ≤ maxAttempts ∧
    requests http (groqLadder maxAttempts backoffSeconds sum) groqClient ≤ maxAttempts

/-- Nothing follows the r-th request: it is not repeated, or it is the third of
a call after which the ladder does not go on. -/
def Ends (p : Ladder) (r : ℕ) : Prop :=
  (http (r-1)).retryable = false ∨ 3 ∣ r ∧ ¬GoesOn p (r/3) (http (r-1)).raised

/-- A call repeats what it may, and is over early only where it may not. -/
theorem requestsOf_spec (left i : ℕ) :
    1 ≤ requestsOf http left i ∧ requestsOf http left i ≤ left+1 ∧
      (∀ j, j+1 < requestsOf http left i → (http (i+j)).retryable = true) ∧
      (requestsOf http left i ≤ left →
        (http (i+requestsOf http left i-1)).retryable = false) := by
  induction left generalizing i with
  | zero => simp [requestsOf]
  | succ left ih =>
    obtain ⟨hone,hmost,hrepeated,hover⟩ := ih (i+1)
    rw [requestsOf]
    split
    · rename_i hretryable
      refine ⟨by omega,by omega,?_,?_⟩
      · intro j hj
        cases j with
        | zero => exact hretryable
        | succ j =>
          rw [show i+(j+1) = i+1+j by omega]
          exact hrepeated j (by omega)
      · intro hearly
        rw [show i+(requestsOf http left (i+1)+1)-1 = i+1+requestsOf http left (i+1)-1 by omega]
        exact hover (by omega)
    · rename_i hfinal
      exact ⟨le_rfl,by omega,by omega,fun _ => by simpa using hfinal⟩

theorem climb_calls (p : Ladder) (calls : ℕ → CallOutcome α) (left attempt : ℕ)
    (lastError : Option (CallOutcome α)) :
    (climb p calls left attempt lastError).trace.count .call ≤ left := by
  induction left generalizing attempt lastError with
  | zero => simp [climb]
  | succ left ih =>
    rw [climb]
    split
    · simp
    · simp
    · split
      · simp
      · rename_i pause _
        have hrest := ih (attempt+1) (some (calls attempt))
        have hpause : (pause.toList.map Step.sleep).count .call = 0 := by
          cases pause <;> simp
        simp only [List.count_cons_self, List.count_append, hpause]
        omega

theorem spent_anthropic (n : ℕ) : spent http anthropicClient n = n := by
  induction n with
  | zero => rfl
  | succ n ih =>
    rw [spent, ih]
    rfl

theorem requests_anthropic (p : Ladder) : requests http p anthropicClient ≤ p.maxAttempts := by
  rw [requests, spent_anthropic]
  exact climb_calls p _ p.maxAttempts 1 none

/-- The ladder goes on only after what the SDK has repeated as well. -/
theorem retryable_of_goesOn (p : Ladder) (attempt : ℕ) (outcome : HttpOutcome α)
    (h : GoesOn p attempt outcome.raised) : outcome.retryable = true := by
  cases outcome with
  | success reply => exact h.1.elim
  | connectionError text => rfl
  | status code text retryAfter =>
    by_cases hlimit : code = 429
    · simp [HttpOutcome.retryable, hlimit]
    · rw [HttpOutcome.raised, if_neg hlimit] at h
      have hserver : 500 ≤ code := h.1
      simp [HttpOutcome.retryable, hserver]

structure UpToThree (attempt used : ℕ) : Prop where
  spent : spent http groqClient attempt = 3*(attempt-1)+used
  some : 1 ≤ used
  most : used ≤ 3
  repeated : ∀ j, j+1 < used → (http (3*(attempt-1)+j)).retryable = true
  done : used ≤ 2 → (http (3*(attempt-1)+used-1)).retryable = false

theorem upToThree (attempt : ℕ) (hone : 1 ≤ attempt)
    (hspent : spent http groqClient (attempt-1) = 3*(attempt-1)) :
    ∃ used, UpToThree http attempt used := by
  obtain ⟨n,rfl⟩ : ∃ n, attempt = n+1 := ⟨attempt-1,by omega⟩
  rw [Nat.add_sub_cancel] at hspent
  obtain ⟨hsome,hmost,hrepeated,hover⟩ := requestsOf_spec http groqClient.maxRetries (3*n)
  refine ⟨requestsOf http groqClient.maxRetries (3*n),?_,hsome,hmost,hrepeated,hover⟩
  rw [spent, hspent, Nat.add_sub_cancel]

variable {http} {p : Ladder} {attempt used : ℕ}

theorem UpToThree.not_ends (h : UpToThree http attempt used) (r : ℕ) (hstart : 3*(attempt-1) < r)
    (hr : r < HttpRequests.spent http groqClient attempt) : ¬Ends http p r := by
  have hspent := h.spent
  have hmost := h.most
  rintro (hfinal | ⟨hthird,-⟩)
  · have hretryable := h.repeated (r-1-3*(attempt-1)) (by omega)
    rw [show 3*(attempt-1)+(r-1-3*(attempt-1)) = r-1 by omega, hfinal] at hretryable
    cases hretryable
  · omega

/-- The last request of a call ends the requests where the ladder ends. -/
theorem UpToThree.ends (h : UpToThree http attempt used) (hone : 1 ≤ attempt)
    (hstops : ¬GoesOn p attempt (callOf http groqClient attempt)) :
    Ends http p (HttpRequests.spent http groqClient attempt) := by
  have hspent := h.spent
  have hmost := h.most
  by_cases hearly : used ≤ 2
  · left
    rw [hspent]
    exact h.done hearly
  · right
    have hthree : HttpRequests.spent http groqClient attempt = 3*attempt := by omega
    refine ⟨⟨attempt,hthree⟩,?_⟩
    rw [callOf, hthree] at hstops
    rwa [hthree, Nat.mul_div_cancel_left attempt (by omega)]

theorem UpToThree.three (h : UpToThree http attempt used) (hone : 1 ≤ attempt)
    (hon : GoesOn p attempt (callOf http groqClient attempt)) :
    HttpRequests.spent http groqClient attempt = 3*attempt ∧ ¬Ends http p (3*attempt) := by
  have hspent := h.spent
  have hmost := h.most
  have hretryable := retryable_of_goesOn p attempt _ hon
  have hthree : HttpRequests.spent http groqClient attempt = 3*attempt := by
    by_contra hearly
    rw [hspent, h.done (by omega)] at hretryable
    cases hretryable
  apply And.intro hthree
  rw [callOf, hthree] at hon
  rw [hthree] at hretryable
  rintro (hfinal | ⟨-,hstops⟩)
  · rw [hfinal] at hretryable
    cases hretryable
  · rw [Nat.mul_div_cancel_left attempt (by omega)] at hstops
    exact hstops hon

variable (http p) in
/-- From an attempt on whose calls before it took three requests each. -/
theorem spent_groq_iff (left attempt : ℕ)
    (lastError : Option (CallOutcome α)) (hone : 1 ≤ attempt) (hleft : attempt+left = p.maxAttempts)
    (hspent : spent http groqClient (attempt-1) = 3*(attempt-1)) :
    spent http groqClient (attempt-1+
        (climb p (callOf http groqClient) (left+1) attempt lastError).trace.count .call) ≤
        p.maxAttempts ↔
      ∃ r, 3*(attempt-1) < r ∧ r ≤ p.maxAttempts ∧ Ends http p r := by
  obtain ⟨used,hcall⟩ := upToThree http attempt hone hspent
  have hused := hcall.spent
  have hsome := hcall.some
  have hmost := hcall.most
  induction left generalizing attempt lastError used with
  | zero =>
    obtain rfl : attempt = p.maxAttempts := by omega
    obtain ⟨result,hclimb,-⟩ := climb_ends p (callOf http groqClient) 0 p.maxAttempts lastError
      (.inr ⟨rfl,rfl⟩)
    rw [hclimb, List.count_singleton_self, show p.maxAttempts-1+1 = p.maxAttempts by omega]
    constructor
    · intro hfew
      refine ⟨spent http groqClient p.maxAttempts,by omega,hfew,.inl ?_⟩
      rw [hused]
      exact hcall.done (by omega)
    · rintro ⟨r,hstart,hr,hends⟩
      by_contra hmany
      exact hcall.not_ends r hstart (by omega) hends
  | succ left ih =>
    by_cases hon : GoesOn p attempt (callOf http groqClient attempt)
    · obtain ⟨hthree,hnot⟩ := hcall.three hone hon
      obtain ⟨used',hcall'⟩ := upToThree http (attempt+1) (by omega) (by simpa using hthree)
      have hlater := ih (attempt+1) (some (callOf http groqClient attempt)) (by omega) (by omega)
        (by simpa using hthree) used' hcall' hcall'.spent hcall'.some hcall'.most
      rw [climb_goesOn p _ (left+1) attempt lastError (by omega) hon]
      dsimp only
      simp only [Nat.add_sub_cancel] at hlater
      rw [List.count_cons_self, List.count_cons_of_ne (by simp),
        show ∀ m, attempt-1+(m+1) = attempt+m by omega]
      refine hlater.trans ?_
      constructor
      · rintro ⟨r,hstart,hr,hends⟩
        exact ⟨r,by omega,hr,hends⟩
      · rintro ⟨r,hstart,hr,hends⟩
        have hafter : 3*attempt < r := by
          by_contra hbefore
          by_cases hlast : r = 3*attempt
          · exact hnot (hlast ▸ hends)
          · exact hcall.not_ends r hstart (by omega) hends
        exact ⟨r,hafter,hr,hends⟩
    · obtain ⟨result,hclimb,-⟩ := climb_ends p _ (left+1) attempt lastError (.inl ⟨by omega,hon⟩)
      rw [hclimb, List.count_singleton_self, show attempt-1+1 = attempt by omega]
      constructor
      · intro hfew
        exact ⟨_,by omega,hfew,hcall.ends hone hon⟩
      · rintro ⟨r,hstart,hr,hends⟩
        by_contra hmany
        exact hcall.not_ends r hstart (by omega) hends

theorem requests_groq_iff (p : Ladder) : requests http p groqClient ≤ p.maxAttempts ↔
    ∃ r, 1 ≤ r ∧ r ≤ p.maxAttempts ∧ Ends http p r := by
  obtain ⟨left,hleft,hrun⟩ := run_climb p (callOf http groqClient)
  have hgroq := spent_groq_iff http p left 1 none le_rfl hleft rfl
  rw [← hrun, Nat.sub_self, Nat.zero_add] at hgroq
  exact hgroq

/-- Neither client issues more requests than it has attempts exactly when
nothing follows some request among the first so many. -/
theorem one_policy_iff (http : ℕ → HttpOutcome α) (maxAttempts : ℕ+) (backoffSeconds : Base)
    (sum : List PyFloat → PyFloat) :
    OnePolicy http maxAttempts backoffSeconds sum ↔
      ∃ r : ℕ, 1 ≤ r ∧ r ≤ maxAttempts ∧
        Ends http (groqLadder maxAttempts backoffSeconds sum) r := by
  have hgroq := @requests_groq_iff α http (groqLadder maxAttempts backoffSeconds sum)
  constructor
  · rintro ⟨-,hfew⟩
    exact hgroq.mp hfew
  · intro hends
    constructor
    · exact requests_anthropic http (anthropicLadder maxAttempts backoffSeconds sum)
    · exact hgroq.mpr hends

end

def unplugged (_ : ℕ) : HttpOutcome Unit := .connectionError "Connection error."

def oneSecond : Base := .float ⟨1,zero_le_one,one_lt_pow₀ one_lt_two (Nat.succ_ne_zero 1023)⟩

/-- Three attempts, three requests each. -/
theorem nine_requests_for_three_attempts : ¬OnePolicy unplugged 3 oneSecond exactSum := by
  rintro ⟨-,hfew⟩
  obtain ⟨r,hone,hmax,hfinal | ⟨hthird,hstops⟩⟩ := requests_groq_iff _ |>.mp hfew
  · cases hfinal
  · obtain rfl : r = 3 := Nat.le_antisymm hmax (Nat.le_of_dvd hone hthird)
    refine hstops ⟨trivial,?_⟩
    rintro (hpower | hproduct)
    · exact absurd hpower (by decide)
    · have hone : oneSecond.seconds*2^(3/3-1) < 2^1024 := by
        simpa [oneSecond, Base.seconds] using one_lt_pow₀ one_lt_two (Nat.succ_ne_zero 1023)
      exact absurd hone (not_lt.mpr hproduct)

end Emma.HttpRequests

import Emma.LanguageModel

/-!
# The ladder both clients climb

An attempt is made, judged, and followed by a pause unless it was the last one.
Pauses are doubled by a power of two that is an integer until it meets the base
pause, which is an integer itself or a float. An integer beyond every float raises
where it meets one. What the pauses still to come amount to is summed by the
interpreter, which rounds as floats do.
-/

set_option autoImplicit false

namespace Emma.RetryLadder
open Emma.Python Emma.Numbers Emma.LanguageModel

/-- What one call of the SDK comes to. A rate limit goes with the advice that
`_retry_after_seconds` reads off it. -/
inductive CallOutcome (α : Type) where
  | success (reply : α)
  | connectionError (text : String)
  | rateLimit (text : String) (retryAfter : Option PyFloat)
  | status (code : ℕ) (text : String)
  | other (text : String)

inductive Raised where
  | llm (e : LLMError)
  | python (e : PyError)
  | never

structure Double where
  value : ℚ
  nonneg : 0 ≤ value
  finite : value < 2^1024

inductive Base where
  | int (n : ℕ)
  | float (x : Double)

def Base.seconds : Base → ℚ
  | .int n => n
  | .float x => x.value

theorem Base.seconds_nonneg : ∀ base : Base, 0 ≤ base.seconds
  | .int n => Nat.cast_nonneg n
  | .float x => x.nonneg

inductive Seconds where
  | int (n : ℕ)
  | float (x : PyFloat)

/-- `>` between a float and a number. -/
def exceeds (wait : PyFloat) : Seconds → Bool
  | .int n => wait.gt n
  | .float (.finite value) => wait.gt value
  | .float (.infinite true) => wait ≠ .nan ∧ wait ≠ .infinite true
  | .float _ => false

/-- The interpreter's `sum` of floats is a parameter: from one version to another it
rounds differently. -/
structure Ladder where
  name : String
  maxAttempts : ℕ
  backoffSeconds : Base
  sum : List PyFloat → PyFloat
  atLeastOne : 1 ≤ maxAttempts

def backoffDelay (attempt : ℕ) : Base → Except PyError Seconds
  | .int n => .ok (.int (n*2^(attempt-1)))
  | .float x =>
    if attempt-1 < 1024 then
      .ok (.float (if x.value*2^(attempt-1) < 2^1024 then .finite (x.value*2^(attempt-1))
        else .infinite false))
    else .error (.overflowError "int too large to convert to float")

/-- `asyncio.sleep` adds the seconds to a float. An integer is rounded to one, if it
is not too large. -/
def asyncioSleep : Seconds → Except Raised ℚ
  | .int n =>
    if n < 2^1024-2^970 then .ok n
    else .error (.python (.overflowError "int too large to convert to float"))
  | .float (.finite value) => .ok value
  | .float _ => .error .never

def pauseBeforeRetry (attempt maxAttempts : ℕ) (base : Base) : Except Raised (Option ℚ) :=
  if attempt < maxAttempts then do
    return some (← asyncioSleep (← (backoffDelay attempt base).mapError Raised.python))
  else .ok none

def Seconds.int? : Seconds → Option ℕ
  | .int n => some n
  | .float _ => none

def Seconds.toFloat : Seconds → PyFloat
  | .int n => .finite n
  | .float x => x

/-- `sum`: exact as long as every term is an integer. -/
def pySum (sum : List PyFloat → PyFloat) (delays : List Seconds) : Seconds :=
  match delays.mapM Seconds.int? with
  | some ns => .int ns.sum
  | none => .float (sum (delays.map Seconds.toFloat))

def exactSum (delays : List PyFloat) : PyFloat :=
  .finite (delays.map fun
    | .finite value => value
    | _ => 0).sum

def remainingBackoff (p : Ladder) (attempt : ℕ) : Except PyError Seconds := do
  let delays ← (List.range' attempt (p.maxAttempts-attempt)).mapM fun later =>
    backoffDelay later p.backoffSeconds
  return pySum p.sum delays

def checkRateLimit (p : Ladder) (attempt : ℕ) (retryAfter : Option PyFloat) :
    Except Raised Unit :=
  match remainingBackoff p attempt with
  | .error e => .error (.python e)
  | .ok budget => match retryAfter with
    | none => .ok ()
    | some wait =>
      if exceeds wait budget then
        .error (.llm (.quotaExceeded ("the " ++ p.name ++ " API is rate limiting for another " ++
          wait.fixed ++ "s") (some wait)))
      else .ok ()

def exhausted {α : Type} (p : Ladder) (lastError : Option (CallOutcome α)) : LLMError :=
  match lastError with
  | some (.rateLimit _ retryAfter) => .quotaExceeded ("the " ++ p.name ++
      " API was still rate limiting after " ++ toString p.maxAttempts ++ " attempts") retryAfter
  | _ => .unavailable ("the " ++ p.name ++ " API did not answer after " ++
      toString p.maxAttempts ++ " attempts")

def judged {α : Type} (p : Ladder) (attempt : ℕ) : CallOutcome α → Except Raised (Option α)
  | .success reply => .ok (some reply)
  | .connectionError _ => .ok none
  | .rateLimit _ retryAfter => (checkRateLimit p attempt retryAfter).map fun _ => none
  | .status code text =>
    if code < 500 then
      .error (.llm (.unavailable ("the " ++ p.name ++ " API returned a permanent error: " ++ text)))
    else .ok none
  | .other text =>
    .error (.llm (.unavailable ("the " ++ p.name ++ " API raised a non-retryable error: " ++ text)))

inductive Step where
  | call
  | sleep (seconds : ℚ)
  deriving DecidableEq

structure Climb (α : Type) where
  result : Except Raised (α × ℕ)
  trace : List Step

def climb {α : Type} (p : Ladder) (calls : ℕ → CallOutcome α) :
    ℕ → ℕ → Option (CallOutcome α) → Climb α
  | 0, _, lastError => ⟨.error (.llm (exhausted p lastError)),[]⟩
  | left+1, attempt, _ => match judged p attempt (calls attempt) with
    | .ok (some reply) => ⟨.ok (reply,attempt),[.call]⟩
    | .error e => ⟨.error e,[.call]⟩
    | .ok none => match pauseBeforeRetry attempt p.maxAttempts p.backoffSeconds with
      | .error e => ⟨.error e,[.call]⟩
      | .ok pause =>
        let rest := climb p calls left (attempt+1) (some (calls attempt))
        ⟨rest.result,.call::(pause.toList.map Step.sleep ++ rest.trace)⟩

def run {α : Type} (p : Ladder) (calls : ℕ → CallOutcome α) : Climb α :=
  climb p calls p.maxAttempts 1 none

def untilLast (p : Ladder) (attempt : ℕ) : ℚ :=
  p.backoffSeconds.seconds*(2^(p.maxAttempts-1)-2^(attempt-1))

def TooLong (p : Ladder) (attempt : ℕ) (retryAfter : Option PyFloat) : Prop :=
  ∃ wait, retryAfter = some wait ∧ wait.gt (untilLast p attempt) = true

def Breaks (base : Base) (attempt : ℕ) : Prop :=
  match base with
  | .int n => 2^1024-2^970 ≤ n*2^(attempt-1)
  | .float x => 1024 ≤ attempt-1 ∨ 2^1024 ≤ x.value*2^(attempt-1)

theorem pauseBeforeRetry_last (maxAttempts : ℕ) (base : Base) :
    pauseBeforeRetry maxAttempts maxAttempts base = .ok none := if_neg (Nat.lt_irrefl _)

theorem pauseBeforeRetry_ok {attempt maxAttempts : ℕ} {base : Base} (hlast : attempt < maxAttempts)
    (h : ¬Breaks base attempt) :
    pauseBeforeRetry attempt maxAttempts base = .ok (some (base.seconds*2^(attempt-1))) := by
  rw [pauseBeforeRetry, if_pos hlast]
  cases base with
  | int n =>
    rw [Breaks, Nat.not_le] at h
    simp [backoffDelay, asyncioSleep, h, Base.seconds, Except.mapError, bind, Except.bind, pure,
      Except.pure]
  | float x =>
    obtain ⟨hpower,hproduct⟩ := not_or.mp h
    rw [not_le] at hpower hproduct
    simp [backoffDelay, asyncioSleep, hpower, hproduct, Base.seconds, Except.mapError, bind,
      Except.bind, pure, Except.pure]

def Foreign (e : Raised) : Prop := ∀ own, e ≠ .llm own

theorem pauseBeforeRetry_breaks {attempt maxAttempts : ℕ} {base : Base}
    (hlast : attempt < maxAttempts) (h : Breaks base attempt) :
    ∃ e, pauseBeforeRetry attempt maxAttempts base = .error e ∧ Foreign e := by
  rw [pauseBeforeRetry, if_pos hlast]
  cases base with
  | int n =>
    have hlarge : ¬n*2^(attempt-1) < 2^1024-2^970 := Nat.not_lt.mpr h
    simp [backoffDelay, asyncioSleep, hlarge, Except.mapError, bind, Except.bind, Foreign]
  | float x =>
    by_cases hpower : attempt-1 < 1024
    · have hproduct : ¬x.value*2^(attempt-1) < 2^1024 := by
        rcases h with h | h
        · omega
        · exact not_lt.mpr h
      simp [backoffDelay, asyncioSleep, hpower, hproduct, Except.mapError, bind, Except.bind,
        Foreign]
    · simp [backoffDelay, hpower, Except.mapError, bind, Except.bind, Foreign]

theorem remainingBackoff_last (p : Ladder) :
    remainingBackoff p p.maxAttempts = .ok (.int 0) := by
  simp [remainingBackoff, pySum, bind, Except.bind, pure, Except.pure]

theorem mapM_isOk_iff {α β ε : Type} {f : α → Except ε β} (items : List α) :
    (∃ bs, items.mapM f = .ok bs) ↔ ∀ item ∈ items, ∃ b, f item = .ok b := by
  induction items with
  | nil => exact iff_of_true ⟨[],rfl⟩ fun _ h => absurd h List.not_mem_nil
  | cons item rest ih =>
    rw [List.forall_mem_cons, ← ih, List.mapM_cons]
    cases f item with
    | error e => exact iff_of_false nofun fun h => nomatch h.1
    | ok b => cases rest.mapM f with
      | error e => exact iff_of_false nofun fun h => nomatch h.2
      | ok bs => exact iff_of_true ⟨b::bs,rfl⟩ ⟨⟨b,rfl⟩,bs,rfl⟩

def Sums (p : Ladder) (attempt : ℕ) : Prop :=
  match p.backoffSeconds with
  | .int _ => True
  | .float _ => p.maxAttempts ≤ attempt ∨ p.maxAttempts ≤ 1025

theorem backoffDelay_float_iff (attempt : ℕ) (x : Double) :
    (∃ delay, backoffDelay attempt (.float x) = .ok delay) ↔ attempt-1 < 1024 := by
  rw [backoffDelay]
  split
  · rename_i hpower
    exact iff_of_true ⟨_,rfl⟩ hpower
  · rename_i hpower
    exact iff_of_false nofun hpower

theorem remainingBackoff_isOk_iff (p : Ladder) (attempt : ℕ) :
    (∃ budget, remainingBackoff p attempt = .ok budget) ↔ Sums p attempt := by
  have hsummed : (∃ budget, remainingBackoff p attempt = .ok budget) ↔
      ∃ delays, (List.range' attempt (p.maxAttempts-attempt)).mapM
        (fun later => backoffDelay later p.backoffSeconds) = .ok delays := by
    rw [remainingBackoff]
    cases (List.range' attempt (p.maxAttempts-attempt)).mapM
      (fun later => backoffDelay later p.backoffSeconds) with
    | error e => exact iff_of_false nofun nofun
    | ok delays => exact iff_of_true ⟨_,rfl⟩ ⟨_,rfl⟩
  rw [hsummed, mapM_isOk_iff, Sums]
  cases p.backoffSeconds with
  | int n => exact iff_of_true (fun later _ => ⟨_,rfl⟩) trivial
  | float x =>
    simp only [backoffDelay_float_iff, List.mem_range'_1]
    constructor
    · intro h
      by_contra hmany
      rw [not_or] at hmany
      have hlast := h (p.maxAttempts-1) (by omega)
      omega
    · intro h later hlater
      omega

/-- The pauses of the attempts behind each other double up to the next power. -/
theorem sum_doubled (n attempt count : ℕ) (hone : 1 ≤ attempt) :
    ((List.range' attempt count).map fun later => n*2^(later-1)).sum =
      n*(2^(attempt-1+count)-2^(attempt-1)) := by
  induction count generalizing attempt with
  | zero => simp
  | succ count ih =>
    have hgrows : 2^(attempt-1) ≤ 2^(attempt-1+count) := Nat.pow_le_pow_right (by omega) (by omega)
    have hpow : 2^(attempt-1+(count+1)) = 2^(attempt-1+count)*2 := by
      rw [← Nat.add_assoc, pow_succ]
    rw [List.range'_succ, List.map_cons, List.sum_cons, ih (attempt+1) (by omega),
      ← Nat.mul_add, show attempt+1-1 = attempt-1+1 by omega,
      show attempt-1+1+count = attempt-1+(count+1) by omega, hpow, pow_succ]
    congr 1
    omega

theorem mapM_int (n : ℕ) (laters : List ℕ) :
    laters.mapM (fun later => backoffDelay later (.int n)) =
      .ok (laters.map fun later => .int (n*2^(later-1))) := by
  induction laters with
  | nil => rfl
  | cons later laters ih =>
    rw [List.mapM_cons, ih]
    rfl

theorem pySum_int (sum : List PyFloat → PyFloat) (ns : List ℕ) :
    pySum sum (ns.map Seconds.int) = .int ns.sum := by
  have hall : (ns.map Seconds.int).mapM Seconds.int? = some ns := by
    induction ns with
    | nil => rfl
    | cons n ns ih =>
      rw [List.map_cons, List.mapM_cons, ih]
      rfl
  rw [pySum, hall]

/-- Integers are summed exactly, so a rate limit is held against the very pauses. -/
theorem remainingBackoff_int (p : Ladder) (n attempt : ℕ) (hbase : p.backoffSeconds = .int n)
    (hone : 1 ≤ attempt) (hlast : attempt ≤ p.maxAttempts) :
    ∃ budget : ℕ, remainingBackoff p attempt = .ok (.int budget) ∧
      (budget : ℚ) = untilLast p attempt := by
  have hsum := sum_doubled n attempt (p.maxAttempts-attempt) hone
  rw [show attempt-1+(p.maxAttempts-attempt) = p.maxAttempts-1 by omega] at hsum
  refine ⟨n*(2^(p.maxAttempts-1)-2^(attempt-1)),?_,?_⟩
  · have hints := pySum_int p.sum ((List.range' attempt (p.maxAttempts-attempt)).map
      fun later => n*2^(later-1))
    rw [List.map_map] at hints
    rw [remainingBackoff, hbase, mapM_int]
    exact congrArg Except.ok (hints.trans (congrArg Seconds.int hsum))
  · have hgrows : 2^(attempt-1) ≤ 2^(p.maxAttempts-1) :=
      Nat.pow_le_pow_right (by omega) (by omega)
    rw [untilLast, hbase, Base.seconds]
    push_cast [hgrows]
    rfl

section
variable {α : Type} (p : Ladder) (calls : ℕ → CallOutcome α)

def Waits (attempt : ℕ) (retryAfter : Option PyFloat) : Prop :=
  ∃ budget, remainingBackoff p attempt = .ok budget ∧
    ∀ wait, retryAfter = some wait → exceeds wait budget = false

def Retries (attempt : ℕ) : CallOutcome α → Prop
  | .success _ => False
  | .connectionError _ => True
  | .rateLimit _ retryAfter => Waits p attempt retryAfter
  | .status code _ => 500 ≤ code
  | .other _ => False

def GoesOn (attempt : ℕ) (outcome : CallOutcome α) : Prop :=
  Retries p attempt outcome ∧ ¬Breaks p.backoffSeconds attempt

def Judges (attempt : ℕ) : CallOutcome α → Prop
  | .rateLimit _ _ => Sums p attempt
  | _ => True

def Holds (attempt : ℕ) (outcome : CallOutcome α) : Prop :=
  Judges p attempt outcome ∧
    (Retries p attempt outcome → attempt < p.maxAttempts → ¬Breaks p.backoffSeconds attempt)

def Tells (n : ℕ) (result : Except Raised (α × ℕ)) : CallOutcome α → Prop
  | .success reply => result = .ok (reply,n)
  | .rateLimit _ retryAfter => ∃ text, result = .error (.llm (.quotaExceeded text retryAfter))
  | _ => ∃ text, result = .error (.llm (.unavailable text))

def pauses (trace : List Step) : List ℚ :=
  trace.filterMap fun
    | .call => none
    | .sleep seconds => some seconds

structure ClimbsTo (attempt : ℕ) (c : Climb α) (n : ℕ) : Prop where
  reached : attempt ≤ n ∧ n ≤ p.maxAttempts
  passed : ∀ k, attempt ≤ k → k < n → GoesOn p k (calls k)
  last : n < p.maxAttempts → ¬GoesOn p n (calls n)
  made : c.trace.count .call+attempt = n+1
  slept : (pauses c.trace).sum = p.backoffSeconds.seconds*(2^(n-1)-2^(attempt-1))
  ends : c.trace.getLast? = some .call
  told : Holds p n (calls n) → Tells n c.result (calls n)
  broke : ¬Holds p n (calls n) → ∃ e, c.result = .error e ∧ Foreign e

variable {p} in
theorem judges_of_retries {attempt : ℕ} {outcome : CallOutcome α}
    (h : Retries p attempt outcome) : Judges p attempt outcome := by
  cases outcome with
  | rateLimit text retryAfter =>
    obtain ⟨budget,hbudget,-⟩ := h
    exact (remainingBackoff_isOk_iff p attempt).mp ⟨budget,hbudget⟩
  | _ => trivial

variable {p} in
theorem holds_of_goesOn {attempt : ℕ} {outcome : CallOutcome α} (h : GoesOn p attempt outcome) :
    Holds p attempt outcome :=
  ⟨judges_of_retries h.1,fun _ _ => h.2⟩

/-- The limit is waited out, or refused, or its budget cannot be computed. -/
theorem checkRateLimit_cases (attempt : ℕ) (retryAfter : Option PyFloat) :
    (Waits p attempt retryAfter ∧ checkRateLimit p attempt retryAfter = .ok ()) ∨
    (¬Waits p attempt retryAfter ∧ Sums p attempt ∧
      ∃ text, checkRateLimit p attempt retryAfter =
        .error (.llm (.quotaExceeded text retryAfter))) ∨
    (¬Sums p attempt ∧ ∃ e, checkRateLimit p attempt retryAfter = .error (.python e)) := by
  rw [checkRateLimit, ← remainingBackoff_isOk_iff]
  cases hbudget : remainingBackoff p attempt with
  | error e => exact .inr (.inr ⟨by simp,e,rfl⟩)
  | ok budget =>
    cases retryAfter with
    | none => exact .inl ⟨⟨budget,hbudget,by simp⟩,rfl⟩
    | some wait =>
      cases hwait : exceeds wait budget with
      | false => exact .inl ⟨⟨budget,hbudget,by simp [hwait]⟩,if_neg (by simp [hwait])⟩
      | true =>
        refine .inr (.inl ⟨?_,⟨budget,rfl⟩,_,if_pos hwait⟩)
        rintro ⟨other,hother,hall⟩
        obtain rfl : budget = other := Except.ok.inj (hbudget.symm.trans hother)
        rw [hall wait rfl] at hwait
        cases hwait

/-- The handlers ask for another attempt, or settle the outcome, or fail. -/
theorem judged_cases (attempt : ℕ) (outcome : CallOutcome α) :
    (Retries p attempt outcome ∧ judged p attempt outcome = .ok none) ∨
    (¬Retries p attempt outcome ∧ Judges p attempt outcome ∧
      ((∃ reply, judged p attempt outcome = .ok (some reply) ∧
          Tells attempt (.ok (reply,attempt)) outcome) ∨
        ∃ e, judged p attempt outcome = .error e ∧ Tells attempt (.error e) outcome)) ∨
    (¬Judges p attempt outcome ∧ ∃ e, judged p attempt outcome = .error (.python e)) := by
  cases outcome with
  | success reply => exact .inr (.inl ⟨id,trivial,.inl ⟨reply,rfl,rfl⟩⟩)
  | connectionError text => exact .inl ⟨trivial,rfl⟩
  | rateLimit text retryAfter =>
    rcases checkRateLimit_cases p attempt retryAfter with
      ⟨hwaits,hok⟩ | ⟨hnot,hsums,text,hrefused⟩ | ⟨hnone,e,he⟩
    · exact .inl ⟨hwaits,by rw [judged, hok]; rfl⟩
    · exact .inr (.inl ⟨hnot,hsums,.inr ⟨_,by rw [judged, hrefused]; rfl,text,rfl⟩⟩)
    · exact .inr (.inr ⟨hnone,e,by rw [judged, he]; rfl⟩)
  | status code text =>
    by_cases hclient : code < 500
    · exact .inr (.inl ⟨Nat.not_le.mpr hclient,trivial,.inr ⟨_,if_pos hclient,_,rfl⟩⟩)
    · exact .inl ⟨Nat.not_lt.mp hclient,if_neg hclient⟩
  | other text => exact .inr (.inl ⟨id,trivial,.inr ⟨_,rfl,_,rfl⟩⟩)

theorem exhausted_tells {attempt : ℕ} (n : ℕ) {outcome : CallOutcome α}
    (h : Retries p attempt outcome) :
    Tells n (.error (.llm (exhausted p (some outcome)))) outcome := by
  cases outcome with
  | success reply => exact h.elim
  | other text => exact h.elim
  | _ => exact ⟨_,rfl⟩

theorem climb_goesOn (left attempt : ℕ) (lastError : Option (CallOutcome α))
    (hlast : attempt < p.maxAttempts) (h : GoesOn p attempt (calls attempt)) :
    climb p calls (left+1) attempt lastError =
      let rest := climb p calls left (attempt+1) (some (calls attempt))
      ⟨rest.result,.call::.sleep (p.backoffSeconds.seconds*2^(attempt-1))::rest.trace⟩ := by
  have hjudged : judged p attempt (calls attempt) = .ok none := by
    rcases judged_cases p attempt (calls attempt) with ⟨-,hnone⟩ | ⟨hnot,-⟩ | ⟨hnot,-⟩
    · exact hnone
    · exact absurd h.1 hnot
    · exact absurd (judges_of_retries h.1) hnot
  rw [climb, hjudged]
  dsimp only
  rw [pauseBeforeRetry_ok hlast h.2]
  rfl

theorem climb_ends (left attempt : ℕ) (lastError : Option (CallOutcome α))
    (h : attempt < p.maxAttempts ∧ ¬GoesOn p attempt (calls attempt) ∨
      attempt = p.maxAttempts ∧ left = 0) :
    ∃ result, climb p calls (left+1) attempt lastError = ⟨result,[.call]⟩ ∧
      (Holds p attempt (calls attempt) → Tells attempt result (calls attempt)) ∧
      (¬Holds p attempt (calls attempt) → ∃ e, result = .error e ∧ Foreign e) := by
  rw [climb]
  rcases judged_cases p attempt (calls attempt) with
    ⟨hretries,hnone⟩ | ⟨hnot,hjudges,⟨reply,hreply,htells⟩ | ⟨e,he,htells⟩⟩ | ⟨hnot,e,he⟩
  · rw [hnone]
    rcases h with ⟨hlast,hstops⟩ | ⟨rfl,rfl⟩
    · have hbreaks : Breaks p.backoffSeconds attempt := by
        by_contra hfinite
        exact hstops ⟨hretries,hfinite⟩
      obtain ⟨e,he,hforeign⟩ := pauseBeforeRetry_breaks hlast hbreaks
      dsimp only
      rw [he]
      exact ⟨_,rfl,fun hholds => absurd hbreaks (hholds.2 hretries hlast),fun _ => ⟨e,rfl,hforeign⟩⟩
    · dsimp only
      rw [pauseBeforeRetry_last]
      refine ⟨_,rfl,fun _ => exhausted_tells p _ hretries,fun hfails => ?_⟩
      exact absurd ⟨judges_of_retries hretries,fun _ hlast => absurd hlast (Nat.lt_irrefl _)⟩ hfails
  · rw [hreply]
    exact ⟨_,rfl,fun _ => htells,fun hfails =>
      absurd ⟨hjudges,fun hretries => absurd hretries hnot⟩ hfails⟩
  · rw [he]
    exact ⟨_,rfl,fun _ => htells,fun hfails =>
      absurd ⟨hjudges,fun hretries => absurd hretries hnot⟩ hfails⟩
  · rw [he]
    exact ⟨_,rfl,fun hholds => absurd hholds.1 hnot,fun _ => ⟨_,rfl,by simp [Foreign]⟩⟩

variable {p calls} in
theorem ClimbsTo.step {attempt n : ℕ} {rest : Climb α} (hone : 1 ≤ attempt)
    (hon : GoesOn p attempt (calls attempt)) (h : ClimbsTo p calls (attempt+1) rest n) :
    ClimbsTo p calls attempt
      ⟨rest.result,.call::.sleep (p.backoffSeconds.seconds*2^(attempt-1))::rest.trace⟩ n where
  reached := ⟨by have := h.reached.1; omega,h.reached.2⟩
  passed := fun k hk hk' => by
    by_cases hhere : k = attempt
    · rwa [hhere]
    · exact h.passed k (by omega) hk'
  last := h.last
  made := by
    have hmade := h.made
    simp only [List.count_cons_self, List.count_cons_of_ne, ne_eq, reduceCtorEq, not_false_eq_true]
    omega
  slept := by
    have hslept := h.slept
    rw [show attempt+1-1 = attempt-1+1 by omega] at hslept
    simp only [pauses, List.filterMap_cons, List.sum_cons] at hslept ⊢
    rw [hslept]
    ring
  ends := by
    have hends := h.ends
    cases htrace : rest.trace with
    | nil =>
      rw [htrace] at hends
      cases hends
    | cons step trace => simpa [htrace] using hends
  told := h.told
  broke := h.broke

theorem climbsTo_last (left attempt : ℕ) (lastError : Option (CallOutcome α))
    (h : attempt < p.maxAttempts ∧ ¬GoesOn p attempt (calls attempt) ∨
      attempt = p.maxAttempts ∧ left = 0) :
    ClimbsTo p calls attempt (climb p calls (left+1) attempt lastError) attempt := by
  obtain ⟨result,hclimb,htold,hbroke⟩ := climb_ends p calls left attempt lastError h
  rw [hclimb]
  refine ⟨⟨le_rfl,by omega⟩,fun k hk hk' => by omega,fun hmore => ?_,by simp [Nat.add_comm],
    by simp [pauses],rfl,htold,hbroke⟩
  rcases h with ⟨-,hstops⟩ | ⟨hmax,-⟩
  · exact hstops
  · omega

theorem climb_climbsTo (left attempt : ℕ) (lastError : Option (CallOutcome α)) (hone : 1 ≤ attempt)
    (hleft : attempt+left = p.maxAttempts) :
    ∃ n, ClimbsTo p calls attempt (climb p calls (left+1) attempt lastError) n := by
  induction left generalizing attempt lastError with
  | zero => exact ⟨attempt,climbsTo_last p calls 0 attempt lastError (.inr ⟨hleft,rfl⟩)⟩
  | succ left ih =>
    by_cases hon : GoesOn p attempt (calls attempt)
    · rw [climb_goesOn p calls (left+1) attempt lastError (by omega) hon]
      obtain ⟨n,hn⟩ := ih (attempt+1) (some (calls attempt)) (by omega) (by omega)
      exact ⟨n,hn.step hone hon⟩
    · exact ⟨attempt,climbsTo_last p calls (left+1) attempt lastError (.inl ⟨by omega,hon⟩)⟩

theorem run_climb :
    ∃ left, 1+left = p.maxAttempts ∧ run p calls = climb p calls (left+1) 1 none := by
  have hone := p.atLeastOne
  refine ⟨p.maxAttempts-1,by omega,?_⟩
  rw [run, show p.maxAttempts-1+1 = p.maxAttempts by omega]

theorem run_climbsTo : ∃ n, ClimbsTo p calls 1 (run p calls) n := by
  obtain ⟨left,hleft,hrun⟩ := run_climb p calls
  rw [hrun]
  exact climb_climbsTo p calls left 1 none le_rfl hleft

end
end Emma.RetryLadder

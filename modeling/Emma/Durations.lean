import Emma.Quotients
import Emma.ToolStateTools
import Emma.Library.Delimited

/-!
# Durations in words

The age of a heartbeat and the time since a tool was switched off are told by
two renderers of one kind. Only the first takes a whole minute for a minute.
-/

set_option autoImplicit false

namespace Emma.Durations
open Emma.Numbers Emma.DevelopmentTools Emma.ToolStateTools

inductive TimeUnit where
  | minute
  | hour
  | day
  deriving DecidableEq

def TimeUnit.seconds : TimeUnit → ℚ
  | minute => 60
  | hour => 3600
  | day => 86400

structure Wording where
  short : String
  one : TimeUnit → String
  many : TimeUnit → String

def Wording.phrase (w : Wording) (n : ℕ) (unit : TimeUnit) : String :=
  toString n ++ " " ++ if n = 1 then w.one unit else w.many unit

def ageWording : Wording where
  short := "meno di un minuto fa"
  one
    | .minute => "minuto fa"
    | .hour => "ora fa"
    | .day => "giorno fa"
  many
    | .minute => "minuti fa"
    | .hour => "ore fa"
    | .day => "giorni fa"

def inWordsWording : Wording where
  short := "meno di un minuto"
  one
    | .minute => "minuto"
    | .hour => "ora"
    | .day => "giorno"
  many
    | .minute => "minuti"
    | .hour => "ore"
    | .day => "giorni"

structure Truthful (w : Wording) (render : ℚ → String) (Duration : ℚ → Prop) (s : ℚ) : Prop where
  short : render s = w.short ↔ s < 60
  whole : 60 ≤ s → ∃ n unit, render s = w.phrase n unit ∧ |s/unit.seconds-n| ≤ 1/2
  grows : ∀ t n m unit longer, Duration t → s ≤ t → render s = w.phrase n unit →
    render t = w.phrase m longer → n*unit.seconds ≤ m*longer.seconds

def exactAge (seconds : ℚ) : String :=
  let minutes := seconds/60
  let hours := minutes/60
  if seconds < 60 then "meno di un minuto fa"
  else if minutes < 90 then counted "minuto fa" "minuti fa" (roundHalfEven minutes)
  else if hours < 36 then counted "ora fa" "ore fa" (roundHalfEven hours)
  else counted "giorno fa" "giorni fa" (roundHalfEven (hours/24))

def exactInWords (seconds : ℚ) : String :=
  let minutes := seconds/60
  if seconds < 90 then "meno di un minuto"
  else if minutes < 90 then counted "minuto" "minuti" (roundHalfEven minutes)
  else counted "ora" "ore" (roundHalfEven (minutes/60))

structure BothTruthful (age inWords : ℚ → String) (Duration : ℚ → Prop) (s : ℚ) : Prop where
  age : Truthful ageWording age Duration s
  inWords : Truthful inWordsWording inWords Duration s

structure FloatDuration (s : ℚ) : Prop where
  double : IsDouble s
  nonneg : 0 ≤ s
  bounded : s < 2^53

structure StandsFor (y q : ℚ) : Prop where
  double : IsDouble y
  sameSide : ∀ m : ℤ, SameSide y q (m/2)

theorem StandsFor.lt_iff {y q : ℚ} (h : StandsFor y q) (k : ℤ) : y < k ↔ q < k := by
  have hk := (h.sameSide (2*k)).1
  have hdouble : ((2*k : ℤ) : ℚ)/2 = k := by push_cast; ring
  rwa [hdouble] at hk

theorem StandsFor.rounded {y q : ℚ} (h : StandsFor y q) : roundHalfEven y = roundHalfEven q :=
  roundHalfEven_congr h.sameSide

/-- A rounded quotient of such a float stands for the exact quotient. -/
theorem StandsFor.div {y q : ℚ} (h : StandsFor y q) (c k : ℕ) (hone : 1 ≤ q) (hbound : q < 2^53)
    (hlow : 2^k ≤ c) (hhigh : c < 2^(k+1)) (hk : k ≤ 1000) (heven : 2 ∣ c) :
    StandsFor (nearestDouble (y/c)) (q/c) := by
  have hc : (0:ℚ) < c := by exact_mod_cast lt_of_lt_of_le (by positivity) hlow
  have hyone : 1 ≤ y := by
    have hlt := h.lt_iff 1
    push_cast at hlt
    exact not_lt.mp fun hy => absurd (hlt.mp hy) (by linarith)
  have hybound : y < 2^53 := by
    have hlt := h.lt_iff (2^53)
    push_cast at hlt
    exact hlt.mpr hbound
  constructor
  · exact isDouble_nearestDouble _
  · intro m
    have hown := quotient_sameSide y c k h.double hyone hybound hlow hhigh hk heven m
    obtain ⟨half,rfl⟩ := heven
    have hexact := h.sameSide (2*half*m)
    have hscaled : (((2*half*m : ℤ)) : ℚ)/2 = m/2*(2*half : ℕ) := by
      push_cast
      ring
    rw [hscaled, SameSide] at hexact
    constructor
    · rw [hown.1, div_lt_iff₀ hc, div_lt_iff₀ hc]
      exact hexact.1
    · rw [hown.2, lt_div_iff₀ hc, lt_div_iff₀ hc]
      exact hexact.2

theorem FloatDuration.minutes {s : ℚ} (h : FloatDuration s) (hs : 60 ≤ s) :
    StandsFor (nearestDouble (s/60)) (s/60) := by
  have hself : StandsFor s s := ⟨h.double,fun _ => ⟨Iff.rfl,Iff.rfl⟩⟩
  exact_mod_cast hself.div 60 5 (by linarith) h.bounded (by norm_num) (by norm_num) (by norm_num)
    (by norm_num)

theorem FloatDuration.hours {s : ℚ} (h : FloatDuration s) (hs : 60 ≤ s) :
    StandsFor (nearestDouble (nearestDouble (s/60)/60)) (s/60/60) := by
  have hbound := h.bounded
  exact_mod_cast (h.minutes hs).div 60 5 (by linarith) (by linarith) (by norm_num) (by norm_num)
    (by norm_num) (by norm_num)

theorem FloatDuration.days {s : ℚ} (h : FloatDuration s) (hs : 3600 ≤ s) :
    StandsFor (nearestDouble (nearestDouble (nearestDouble (s/60)/60)/24)) (s/60/60/24) := by
  have hbound := h.bounded
  exact_mod_cast (h.hours (by linarith)).div 24 4 (by linarith) (by linarith) (by norm_num)
    (by norm_num) (by norm_num) (by norm_num)

theorem describeAge_exact (s : ℚ) (h : FloatDuration s) : describeAge s = exactAge s := by
  unfold describeAge exactAge
  by_cases hshort : s < 60
  · simp only [if_pos hshort]
  have hs : 60 ≤ s := not_lt.mp hshort
  have hminutes := (h.minutes hs).lt_iff 90
  have hhours := (h.hours hs).lt_iff 36
  push_cast at hminutes hhours
  simp only [if_neg hshort, hminutes, hhours, (h.minutes hs).rounded, (h.hours hs).rounded]
  by_cases hlong : s/60/60 < 36
  · simp only [if_pos hlong]
  · rw [(h.days (by linarith)).rounded]

theorem inWords_exact (s : ℚ) (h : FloatDuration s) : inWords s = exactInWords s := by
  unfold inWords exactInWords
  by_cases hshort : s < 90
  · simp only [if_pos hshort]
  have hs : 60 ≤ s := by linarith
  have hminutes := (h.minutes hs).lt_iff 90
  push_cast at hminutes
  simp only [if_neg hshort, hminutes, (h.minutes hs).rounded, (h.hours hs).rounded]

structure Clear (w : Wording) : Prop where
  one : ∀ unit other, w.one unit = w.one other → unit = other
  many : ∀ unit other, w.many unit = w.many other → unit = other
  short : ∃ c back, w.short.toList = c::back ∧ c.isDigit = false

theorem age_clear : Clear ageWording where
  one unit other h := by cases unit <;> cases other <;> first | rfl | exact absurd h (by decide)
  many unit other h := by cases unit <;> cases other <;> first | rfl | exact absurd h (by decide)
  short := ⟨'m',_,rfl,rfl⟩

theorem inWords_clear : Clear inWordsWording where
  one unit other h := by cases unit <;> cases other <;> first | rfl | exact absurd h (by decide)
  many unit other h := by cases unit <;> cases other <;> first | rfl | exact absurd h (by decide)
  short := ⟨'m',_,rfl,rfl⟩

theorem phrase_toList (w : Wording) (n : ℕ) (unit : TimeUnit) : (w.phrase n unit).toList =
    Nat.toDigits 10 n ++ ' '::(if n = 1 then w.one unit else w.many unit).toList := by
  have hblank : " ".toList = [' '] := rfl
  simp only [Wording.phrase, String.toList_append, hblank, Nat.toString_eq_repr, Nat.toList_repr,
    List.append_assoc, List.cons_append, List.nil_append]

theorem phrase_injective {w : Wording} (hw : Clear w) {n m : ℕ} {unit other : TimeUnit}
    (h : w.phrase n unit = w.phrase m other) : n = m ∧ unit = other := by
  have hchars := congrArg String.toList h
  rw [phrase_toList, phrase_toList] at hchars
  obtain ⟨rfl,htail⟩ := Delimited.numeral_unique (Delimited.stops_cons _ ' ' _ rfl)
    (Delimited.stops_cons _ ' ' _ rfl) hchars
  have hword := String.toList_inj.mp (List.cons.inj htail).2
  split at hword
  · exact ⟨rfl,hw.one unit other hword⟩
  · exact ⟨rfl,hw.many unit other hword⟩

theorem phrase_ne_short {w : Wording} (hw : Clear w) (n : ℕ) (unit : TimeUnit) :
    w.phrase n unit ≠ w.short := by
  intro h
  obtain ⟨c,back,hshort,hc⟩ := hw.short
  have hchars := congrArg String.toList h
  rw [phrase_toList, hshort] at hchars
  obtain ⟨first,rest,hdigits⟩ := List.exists_cons_of_ne_nil (@Nat.toDigits_ne_nil n 10)
  have hfirst : first.isDigit = true := Delimited.digits_run n first (by simp [hdigits])
  rw [hdigits] at hchars
  rw [(List.cons.inj hchars).1, hc] at hfirst
  cases hfirst

/-- The whole number of a unit that is nearest to a duration. -/
def count (unit : TimeUnit) (s : ℚ) : ℕ := (roundHalfEven (s/unit.seconds)).toNat

theorem unit_pos (unit : TimeUnit) : 0 < unit.seconds := by
  cases unit <;> norm_num [TimeUnit.seconds]

theorem count_cast (unit : TimeUnit) (s : ℚ) (hs : 0 ≤ s) :
    (count unit s : ℤ) = roundHalfEven (s/unit.seconds) := by
  apply Int.toNat_of_nonneg
  rw [← roundHalfEven_intCast 0]
  exact roundHalfEven_mono (by push_cast; exact div_nonneg hs (unit_pos unit).le)

theorem count_near (unit : TimeUnit) (s : ℚ) (hs : 0 ≤ s) :
    |s/unit.seconds-count unit s| ≤ 1/2 := by
  have hnear := roundHalfEven_near (s/unit.seconds)
  rw [← count_cast unit s hs] at hnear
  exact_mod_cast hnear

def amount (unit : TimeUnit) (s : ℚ) : ℚ := count unit s*unit.seconds

theorem amount_mono (unit : TimeUnit) {s t : ℚ} (h : s ≤ t) : amount unit s ≤ amount unit t := by
  have hcount : count unit s ≤ count unit t := by
    apply Int.toNat_le_toNat
    exact roundHalfEven_mono (div_le_div_of_nonneg_right h (unit_pos unit).le)
  apply mul_le_mul_of_nonneg_right _ (unit_pos unit).le
  exact_mod_cast hcount

structure Renders (w : Wording) (render : ℚ → String) (floor : ℚ) (unit : ℚ → TimeUnit) : Prop where
  clear : Clear w
  sixty : 60 ≤ floor
  short : ∀ s, s < floor → render s = w.short
  phrase : ∀ s, floor ≤ s → render s = w.phrase (count (unit s) s) (unit s)
  grows : ∀ s t, s ≤ t → amount (unit s) s ≤ amount (unit t) t

theorem truthful_iff {w : Wording} {render : ℚ → String} {floor : ℚ} {unit : ℚ → TimeUnit}
    (h : Renders w render floor unit) (Duration : ℚ → Prop) (s : ℚ) :
    Truthful w render Duration s ↔ s < 60 ∨ floor ≤ s := by
  have hsixty := h.sixty
  constructor
  · intro htrue
    by_contra hno
    rw [not_or, not_lt, not_le] at hno
    have hlie := htrue.short.mp (h.short s hno.2)
    linarith
  · intro hs
    constructor
    · constructor
      · intro hshort
        rcases hs with hs | hs
        · exact hs
        · rw [h.phrase s hs] at hshort
          exact absurd hshort (phrase_ne_short h.clear _ _)
      · intro hlt
        exact h.short s (by linarith)
    · intro hge
      have hfloor : floor ≤ s := hs.resolve_left (by linarith)
      exact ⟨_,_,h.phrase s hfloor,count_near (unit s) s (by linarith)⟩
    · intro t n m here longer _ hle hn hm
      rcases hs with hs | hs
      · rw [h.short s (by linarith)] at hn
        exact absurd hn.symm (phrase_ne_short h.clear n here)
      · rw [h.phrase s hs] at hn
        rw [h.phrase t (hs.trans hle)] at hm
        obtain ⟨rfl,rfl⟩ := phrase_injective h.clear hn
        obtain ⟨rfl,rfl⟩ := phrase_injective h.clear hm
        exact h.grows s t hle

theorem amount_cross (unit other : TimeUnit) (limit : ℚ)
    (h : amount unit limit ≤ amount other limit) {s t : ℚ} (hs : s ≤ limit) (ht : limit ≤ t) :
    amount unit s ≤ amount other t :=
  (amount_mono unit hs).trans (h.trans (amount_mono other ht))

theorem minute_hour : amount .minute 5400 ≤ amount .hour 5400 := by decide +kernel

theorem hour_day : amount .hour 129600 ≤ amount .day 129600 := by decide +kernel

def inWordsUnit (s : ℚ) : TimeUnit := if s < 5400 then .minute else .hour

def ageUnit (s : ℚ) : TimeUnit := if s < 129600 then inWordsUnit s else .day

theorem inWordsUnit_grows (s t : ℚ) (h : s ≤ t) :
    amount (inWordsUnit s) s ≤ amount (inWordsUnit t) t := by
  unfold inWordsUnit
  split
  · rename_i hs
    split
    · exact amount_mono .minute h
    · rename_i ht
      exact amount_cross .minute .hour 5400 minute_hour hs.le (not_lt.mp ht)
  · rename_i hs
    rw [if_neg (not_lt.mpr ((not_lt.mp hs).trans h))]
    exact amount_mono .hour h

theorem ageUnit_grows (s t : ℚ) (h : s ≤ t) : amount (ageUnit s) s ≤ amount (ageUnit t) t := by
  unfold ageUnit
  split
  · rename_i hs
    split
    · exact inWordsUnit_grows s t h
    · rename_i ht
      have hlast : inWordsUnit 129600 = .hour := by decide +kernel
      have hupTo := inWordsUnit_grows s 129600 hs.le
      rw [hlast] at hupTo
      exact hupTo.trans (amount_cross .hour .day 129600 hour_day le_rfl (not_lt.mp ht))
  · rename_i hs
    rw [if_neg (not_lt.mpr ((not_lt.mp hs).trans h))]
    exact amount_mono .day h

theorem counted_phrase (w : Wording) (unit : TimeUnit) (s : ℚ) (hs : 0 ≤ s) :
    counted (w.one unit) (w.many unit) (roundHalfEven (s/unit.seconds)) =
      w.phrase (count unit s) unit := by
  rw [← count_cast unit s hs, counted, Wording.phrase]
  by_cases hone : count unit s = 1
  · rw [if_pos (by exact_mod_cast hone), if_pos hone, hone]
    rfl
  · rw [if_neg (by exact_mod_cast hone), if_neg hone]
    rfl

theorem inWords_renders : Renders inWordsWording exactInWords 90 inWordsUnit where
  clear := inWords_clear
  sixty := by norm_num
  short s hs := if_pos hs
  phrase s hs := by
    have hhours : s/60/60 = s/3600 := by ring
    rw [← counted_phrase _ _ _ (by linarith), exactInWords, if_neg (not_lt.mpr hs), inWordsUnit]
    by_cases hshort : s < 5400
    · rw [if_pos hshort, if_pos (by linarith)]
      rfl
    · rw [if_neg hshort, if_neg (by linarith), hhours]
      rfl
  grows := inWordsUnit_grows

theorem age_renders : Renders ageWording exactAge 60 ageUnit where
  clear := age_clear
  sixty := le_rfl
  short s hs := if_pos hs
  phrase s hs := by
    have hhours : s/60/60 = s/3600 := by ring
    have hdays : s/3600/24 = s/86400 := by ring
    rw [← counted_phrase _ _ _ (by linarith), exactAge, if_neg (not_lt.mpr hs), ageUnit,
      inWordsUnit, hhours, hdays]
    by_cases hshort : s < 5400
    · rw [if_pos (by linarith), if_pos hshort, if_pos (by linarith)]
      rfl
    · rw [if_neg hshort, if_neg (by linarith)]
      by_cases hlong : s < 129600
      · rw [if_pos hlong, if_pos (by linarith)]
        rfl
      · rw [if_neg hlong, if_neg (by linarith)]
        rfl
  grows := ageUnit_grows

/-- What a renderer says of the durations of a kind is all that counts for them. -/
theorem truthful_congr (w : Wording) (render other : ℚ → String) (Duration : ℚ → Prop)
    (h : ∀ s, Duration s → render s = other s) (s : ℚ) (hs : Duration s) :
    Truthful w render Duration s ↔ Truthful w other Duration s := by
  constructor
  · rintro ⟨hshort,hwhole,hgrows⟩
    rw [h s hs] at hshort hwhole hgrows
    refine ⟨hshort,hwhole,fun t n m unit longer ht hle hn hm => ?_⟩
    rw [← h t ht] at hm
    exact hgrows t n m unit longer ht hle hn hm
  · rintro ⟨hshort,hwhole,hgrows⟩
    rw [← h s hs] at hshort hwhole hgrows
    refine ⟨hshort,hwhole,fun t n m unit longer ht hle hn hm => ?_⟩
    rw [h t ht] at hm
    exact hgrows t n m unit longer ht hle hn hm

theorem bothTruthful_iff (Duration : ℚ → Prop) (s : ℚ) :
    BothTruthful exactAge exactInWords Duration s ↔ s < 60 ∨ 90 ≤ s := by
  constructor
  · intro h
    exact (truthful_iff inWords_renders Duration s).mp h.inWords
  · intro hs
    constructor
    · exact (truthful_iff age_renders Duration s).mpr (lt_or_ge s 60)
    · exact (truthful_iff inWords_renders Duration s).mpr hs

/-- Both renderers tell the truth of every duration but those from a minute up
to a minute and a half: of every number where quotients are exact, and of every
float where they are rounded. -/
theorem durations_truthful_iff (s : ℚ) :
    (BothTruthful exactAge exactInWords (0 ≤ ·) s ↔ s < 60 ∨ 90 ≤ s) ∧
    (FloatDuration s →
      (BothTruthful describeAge inWords FloatDuration s ↔ s < 60 ∨ 90 ≤ s)) := by
  constructor
  · exact bothTruthful_iff (0 ≤ ·) s
  · intro hs
    rw [← bothTruthful_iff FloatDuration s]
    constructor
    · rintro ⟨hage,hwords⟩
      exact ⟨(truthful_congr _ _ _ _ describeAge_exact s hs).mp hage,
        (truthful_congr _ _ _ _ inWords_exact s hs).mp hwords⟩
    · rintro ⟨hage,hwords⟩
      exact ⟨(truthful_congr _ _ _ _ describeAge_exact s hs).mpr hage,
        (truthful_congr _ _ _ _ inWords_exact s hs).mpr hwords⟩

theorem an_hour_is_told_truly :
    FloatDuration 3600 ∧ BothTruthful describeAge inWords FloatDuration 3600 := by
  have hfloat : FloatDuration 3600 := ⟨⟨3600,0,by norm_num,by norm_num,by norm_num⟩,by norm_num,
    by norm_num⟩
  exact ⟨hfloat,((durations_truthful_iff 3600).2 hfloat).mpr (.inr (by norm_num))⟩

/-- A minute and a quarter is told as less than a minute. -/
theorem more_than_a_minute_told_as_less : ¬∀ s : ℚ, 0 ≤ s →
    BothTruthful describeAge inWords (0 ≤ ·) s := by
  intro h
  have hlie := (h 75 (by norm_num)).inWords.short.mp rfl
  norm_num at hlie

end Emma.Durations

import Emma.Numbers
import Mathlib.Tactic.Linarith
import Mathlib.Tactic.NormNum
import Mathlib.Tactic.Ring
import Mathlib.Tactic.FieldSimp
import Mathlib.Tactic.Positivity
import Mathlib.Algebra.Order.Floor.Ring

/-!
# Quotients of floats beside exact quotients

A quotient is rounded to the nearest double, yet a double divided by a small
integer never lands on or across half an integer that the exact quotient misses:
the gap before it is wider than what rounding moves.
-/

set_option autoImplicit false

namespace Emma.Numbers

def spacing (q : ℚ) : ℚ := 2^max (Int.log 2 |q| - 52) (-1074)

def IsDouble (x : ℚ) : Prop := ∃ a e : ℤ, |a| ≤ 2^53 ∧ -1074 ≤ e ∧ x = a*2^e

def SameSide (q r t : ℚ) : Prop := (q < t ↔ r < t) ∧ (t < q ↔ t < r)

theorem nearestDouble_eq (q : ℚ) :
    nearestDouble q = roundHalfEven (q/spacing q)*spacing q := rfl

theorem spacing_pos (q : ℚ) : 0 < spacing q := zpow_pos (by norm_num) _

def Nearest (q : ℚ) (n : ℤ) : Prop :=
  (n-1/2 < q ∧ q < n+1/2) ∨ (n % 2 = 0 ∧ (q = n-1/2 ∨ q = n+1/2))

theorem Nearest.near {q : ℚ} {n : ℤ} (h : Nearest q n) : n-1/2 ≤ q ∧ q ≤ n+1/2 := by
  rcases h with ⟨hlow,hhigh⟩ | ⟨-,h | h⟩ <;> constructor <;> linarith

theorem Nearest.even {q : ℚ} {n : ℤ} (h : Nearest q n) (hq : q = n-1/2 ∨ q = n+1/2) :
    n % 2 = 0 := by
  rcases h with ⟨hlow,hhigh⟩ | ⟨heven,-⟩
  · rcases hq with hq | hq <;> linarith
  · exact heven

theorem Nearest.mono {q r : ℚ} {n m : ℤ} (hn : Nearest q n) (hm : Nearest r m) (h : q ≤ r) :
    n ≤ m := by
  by_contra hlt
  have hint : (m+1 : ℤ) ≤ n := by omega
  have hcast : (m : ℚ)+1 ≤ n := by exact_mod_cast hint
  have hleft := hn.near.1
  have hright := hm.near.2
  -- the two have a tie in common, and only one of two neighbours is even
  have heq : (n : ℚ) = m+1 := by linarith
  have hnext : n = m+1 := by exact_mod_cast heq
  have hneven := hn.even (.inl (by linarith))
  have hmeven := hm.even (.inr (by linarith))
  omega

theorem nearest_roundHalfEven (q : ℚ) : Nearest q (roundHalfEven q) := by
  have hfloor := Int.floor_le q
  have hceil := Int.lt_floor_add_one q
  unfold roundHalfEven
  split
  · left
    constructor <;> linarith
  · split
    · left
      push_cast
      constructor <;> linarith
    · right
      rcases Int.emod_two_eq_zero_or_one ⌊q⌋ with h | h
      · rw [h, add_zero]
        exact ⟨h,.inr (by linarith)⟩
      · rw [h]
        push_cast
        exact ⟨by omega,.inl (by linarith)⟩

theorem roundHalfEven_iff (q : ℚ) (n : ℤ) : roundHalfEven q = n ↔ Nearest q n := by
  constructor
  · rintro rfl
    exact nearest_roundHalfEven q
  · intro h
    have hown := nearest_roundHalfEven q
    exact le_antisymm (hown.mono h le_rfl) (h.mono hown le_rfl)

theorem roundHalfEven_mono {q r : ℚ} (h : q ≤ r) : roundHalfEven q ≤ roundHalfEven r :=
  (nearest_roundHalfEven q).mono (nearest_roundHalfEven r) h

theorem roundHalfEven_near (q : ℚ) : |q-roundHalfEven q| ≤ 1/2 := by
  have hnear := (nearest_roundHalfEven q).near
  rw [abs_le]
  constructor <;> linarith

@[simp] theorem roundHalfEven_intCast (n : ℤ) : roundHalfEven n = n := by
  rw [roundHalfEven_iff]
  left
  constructor <;> linarith

/-- Which integer is the nearest is told by the half integers alone. -/
theorem roundHalfEven_congr {q r : ℚ} (h : ∀ m : ℤ, SameSide q r (m/2)) :
    roundHalfEven q = roundHalfEven r := by
  rw [roundHalfEven_iff]
  have hlow := h (2*roundHalfEven r-1)
  have hhigh := h (2*roundHalfEven r+1)
  have hbelow : ((2*roundHalfEven r-1 : ℤ) : ℚ)/2 = roundHalfEven r-1/2 := by push_cast; ring
  have habove : ((2*roundHalfEven r+1 : ℤ) : ℚ)/2 = roundHalfEven r+1/2 := by push_cast; ring
  rw [hbelow, SameSide] at hlow
  rw [habove, SameSide] at hhigh
  rcases nearest_roundHalfEven r with ⟨hgt,hlt⟩ | ⟨heven,heq | heq⟩
  · exact .inl ⟨hlow.2.mpr hgt,hhigh.1.mpr hlt⟩
  · exact .inr ⟨heven,.inl (le_antisymm (not_lt.mp fun hc => absurd (hlow.2.mp hc) (by linarith))
      (not_lt.mp fun hc => absurd (hlow.1.mp hc) (by linarith)))⟩
  · exact .inr ⟨heven,.inr (le_antisymm (not_lt.mp fun hc => absurd (hhigh.2.mp hc) (by linarith))
      (not_lt.mp fun hc => absurd (hhigh.1.mp hc) (by linarith)))⟩

theorem nearestDouble_near (q : ℚ) : |q-nearestDouble q| ≤ spacing q/2 := by
  have hpos := spacing_pos q
  have hnear := roundHalfEven_near (q/spacing q)
  have hsplit : q-nearestDouble q = (q/spacing q-roundHalfEven (q/spacing q))*spacing q := by
    rw [nearestDouble_eq, sub_mul, div_mul_cancel₀ _ hpos.ne']
  rw [hsplit, abs_mul, abs_of_pos hpos]
  nlinarith

theorem nearestDouble_multiple (q : ℚ) (a : ℤ) (h : q = a*spacing q) : nearestDouble q = q := by
  have hpos := spacing_pos q
  have hdiv : q/spacing q = a := by
    rw [div_eq_iff hpos.ne']
    exact h
  rw [nearestDouble_eq, hdiv, roundHalfEven_intCast]
  exact h.symm

theorem abs_le_spacing (q : ℚ) : |q| ≤ 2^53*spacing q := by
  have hlog : |q| < 2^(Int.log 2 |q|+1) := Int.lt_zpow_succ_log_self (by norm_num) |q|
  have hexp : Int.log 2 |q|+1 ≤ 53+max (Int.log 2 |q| - 52) (-1074) := by omega
  calc |q| ≤ (2:ℚ)^(Int.log 2 |q|+1) := hlog.le
    _ ≤ 2^(53+max (Int.log 2 |q| - 52) (-1074)) := zpow_le_zpow_right₀ (by norm_num) hexp
    _ = 2^53*spacing q := by rw [zpow_add₀ (by norm_num), spacing]; norm_num

theorem isDouble_nearestDouble (q : ℚ) : IsDouble (nearestDouble q) := by
  have hpos := spacing_pos q
  have habs : |q/spacing q| ≤ 2^53 := by
    rw [abs_div, abs_of_pos hpos, div_le_iff₀ hpos]
    exact abs_le_spacing q
  obtain ⟨hlow,hhigh⟩ := abs_le.mp habs
  refine ⟨roundHalfEven (q/spacing q),max (Int.log 2 |q| - 52) (-1074),?_,le_max_right _ _,rfl⟩
  rw [abs_le]
  constructor
  · rw [← roundHalfEven_intCast (-2^53)]
    exact roundHalfEven_mono (by push_cast; exact hlow)
  · rw [← roundHalfEven_intCast (2^53)]
    exact roundHalfEven_mono (by push_cast; exact hhigh)

/-- The distance of neighbouring doubles from a positive double on. -/
def gap (x : ℚ) : ℚ := 2^(Int.log 2 x-52)

theorem gap_pos (x : ℚ) : 0 < gap x := zpow_pos (by norm_num) _

theorem double_on_grid (x : ℚ) (h : IsDouble x) (hx : 0 < x) : ∃ a : ℤ, x = a*gap x := by
  obtain ⟨a,e,ha,-,hae⟩ := h
  have he : (0:ℚ) < 2^e := zpow_pos (by norm_num) e
  have habound : (a : ℚ) ≤ 2^53 := by exact_mod_cast (abs_le.mp ha).2
  have hself : (2:ℚ)^Int.log 2 x ≤ a*2^e := by
    rw [← hae]
    exact Int.zpow_log_le_self (by norm_num) hx
  have hlog : Int.log 2 x ≤ 53+e := by
    have hle : (a:ℚ)*2^e ≤ 2^(53+e) := by
      rw [zpow_add₀ (by norm_num)]
      exact mul_le_mul_of_nonneg_right (by exact_mod_cast habound) he.le
    exact (zpow_le_zpow_iff_right₀ (by norm_num)).mp (hself.trans hle)
  by_cases htop : Int.log 2 x = 53+e
  · -- the largest coefficient, which the next exponent has as well
    have hge : (2:ℚ)^53 ≤ a := by
      rw [htop, zpow_add₀ (by norm_num)] at hself
      exact_mod_cast le_of_mul_le_mul_right hself he
    refine ⟨2^52,?_⟩
    rw [gap, htop, hae, le_antisymm habound hge, show 53+e-52 = e+1 by omega,
      zpow_add₀ (by norm_num)]
    push_cast
    ring
  · obtain ⟨s,hs⟩ := Int.eq_ofNat_of_zero_le (show 0 ≤ e-(Int.log 2 x-52) by omega)
    have hexp : (2:ℚ)^e = 2^s*2^(Int.log 2 x-52) := by
      rw [← zpow_natCast, ← zpow_add₀ (by norm_num)]
      congr 1
      omega
    refine ⟨a*2^s,?_⟩
    push_cast
    rw [gap, mul_assoc, ← hexp]
    exact hae

theorem int_on_grid (x : ℚ) (hx : 0 < x) (hbound : x < 2^53) (k : ℤ) : ∃ b : ℤ, (k:ℚ) = b*gap x := by
  have hlog : Int.log 2 x < 53 := by
    apply (Int.lt_zpow_iff_log_lt (by norm_num) hx).mp
    exact_mod_cast hbound
  obtain ⟨s,hs⟩ := Int.eq_ofNat_of_zero_le (show 0 ≤ 52-Int.log 2 x by omega)
  refine ⟨k*2^s,?_⟩
  rw [gap, show Int.log 2 x-52 = -(s:ℤ) by omega, zpow_neg, zpow_natCast]
  push_cast
  field_simp

theorem gap_le (x : ℚ) (h : IsDouble x) (hx : 0 < x) (hbound : x < 2^53) (k : ℤ) :
    (x < k → x+gap x ≤ k) ∧ ((k:ℚ) < x → k+gap x ≤ x) := by
  obtain ⟨a,ha⟩ := double_on_grid x h hx
  obtain ⟨b,hb⟩ := int_on_grid x hx hbound k
  have hpos := gap_pos x
  generalize gap x = g at ha hb hpos
  rw [ha, hb]
  constructor
  · intro hlt
    have hint : a < b := by exact_mod_cast lt_of_mul_lt_mul_right hlt hpos.le
    have hcast : (a:ℚ)+1 ≤ b := by exact_mod_cast hint
    nlinarith
  · intro hlt
    have hint : b < a := by exact_mod_cast lt_of_mul_lt_mul_right hlt hpos.le
    have hcast : (b:ℚ)+1 ≤ a := by exact_mod_cast hint
    nlinarith

theorem log_div_le (x : ℚ) (c k : ℕ) (hx : 0 < x) (hk : 2^k ≤ c) :
    Int.log 2 (x/c)+k ≤ Int.log 2 x := by
  have hc : (0:ℚ) < c := by exact_mod_cast lt_of_lt_of_le (by positivity) hk
  have hself : (2:ℚ)^Int.log 2 (x/c) ≤ x/c := Int.zpow_log_le_self (by norm_num) (div_pos hx hc)
  apply (Int.zpow_le_iff_le_log (by norm_num) hx).mp
  rw [Nat.cast_ofNat, zpow_add₀ (by norm_num), zpow_natCast]
  calc (2:ℚ)^Int.log 2 (x/c)*2^k ≤ x/c*c := by
        apply mul_le_mul hself (by exact_mod_cast hk) (by positivity) (by positivity)
    _ = x := div_mul_cancel₀ x hc.ne'

/-- What rounding moves a quotient is less than the gap before it, divided. -/
theorem rounded_quotient_near (x : ℚ) (c k : ℕ) (hx : 1 ≤ x) (hlow : 2^k ≤ c)
    (hhigh : c < 2^(k+1)) (hk : k ≤ 1000) :
    |x/c-nearestDouble (x/c)| < gap x/c := by
  have hpos : 0 < x := by linarith
  have hc : (0:ℚ) < c := by exact_mod_cast lt_of_lt_of_le (by positivity) hlow
  have hlog := log_div_le x c k hpos hlow
  have hzero : 0 ≤ Int.log 2 x := by
    apply (Int.zpow_le_iff_le_log (by norm_num) hpos).mp
    simpa using hx
  have hexp : max (Int.log 2 |x/c| - 52) (-1074) ≤ Int.log 2 x-52+(-k) := by
    rw [abs_of_pos (div_pos hpos hc)]
    omega
  have hspacing : spacing (x/c) ≤ gap x/2^k := by
    calc spacing (x/c) ≤ 2^(Int.log 2 x-52+(-k : ℤ)) := zpow_le_zpow_right₀ (by norm_num) hexp
      _ = gap x/2^k := by rw [zpow_add₀ (by norm_num), zpow_neg, zpow_natCast, gap, div_eq_mul_inv]
  calc |x/c-nearestDouble (x/c)| ≤ spacing (x/c)/2 := nearestDouble_near _
    _ ≤ gap x/2^k/2 := by linarith
    _ = gap x/2^(k+1) := by rw [div_div, pow_succ]
    _ < gap x/c := by
      apply div_lt_div_of_pos_left (gap_pos x) hc
      exact_mod_cast hhigh

theorem nearestDouble_half (m : ℤ) (hpos : (0:ℚ) < m/2) (hbound : (m/2 : ℚ) < 2^52) :
    nearestDouble (m/2) = m/2 := by
  have hlog : Int.log 2 ((m:ℚ)/2) < 52 := by
    apply (Int.lt_zpow_iff_log_lt (by norm_num) hpos).mp
    exact_mod_cast hbound
  obtain ⟨s,hs⟩ := Int.eq_ofNat_of_zero_le
    (show 0 ≤ -1-max (Int.log 2 |(m:ℚ)/2| - 52) (-1074) by rw [abs_of_pos hpos]; omega)
  apply nearestDouble_multiple _ (m*2^s)
  rw [spacing, show max (Int.log 2 |(m:ℚ)/2| - 52) (-1074) = -((s+1 : ℕ) : ℤ) by omega,
    zpow_neg, zpow_natCast, pow_succ]
  push_cast
  field_simp

/-- Rounding moves the quotient of a double neither onto half an integer nor
across it. -/
theorem quotient_sameSide (x : ℚ) (c k : ℕ) (h : IsDouble x) (hx : 1 ≤ x) (hbound : x < 2^53)
    (hlow : 2^k ≤ c) (hhigh : c < 2^(k+1)) (hk : k ≤ 1000) (heven : 2 ∣ c) (m : ℤ) :
    SameSide (nearestDouble (x/c)) (x/c) (m/2) := by
  have hpos : 0 < x := by linarith
  have hc : (0:ℚ) < c := by exact_mod_cast lt_of_lt_of_le (by positivity) hlow
  obtain ⟨half,rfl⟩ := heven
  have hgap := gap_le x h hpos hbound (half*m)
  have hmoved := abs_lt.mp (rounded_quotient_near x (2*half) k hx hlow hhigh hk)
  have hproduct : ((half*m : ℤ) : ℚ) = m/2*(2*half : ℕ) := by
    push_cast
    ring
  rw [hproduct] at hgap
  rcases lt_trichotomy (x/(2*half : ℕ)) (m/2) with hlt | heq | hgt
  · have hbelow := hgap.1 ((div_lt_iff₀ hc).mp hlt)
    have hquotient : x/(2*half : ℕ)+gap x/(2*half : ℕ) ≤ m/2 := by
      rw [← add_div]
      exact (div_le_iff₀ hc).mpr hbelow
    constructor <;> constructor <;> intro _ <;> linarith
  · have hsame : nearestDouble (x/(2*half : ℕ)) = x/(2*half : ℕ) := by
      rw [heq]
      apply nearestDouble_half m
      · rw [← heq]
        exact div_pos hpos hc
      · have hhalf : (1:ℚ) ≤ half := by
          have hne : half ≠ 0 := by
            rintro rfl
            exact hc.ne' (by norm_num)
          exact_mod_cast Nat.one_le_iff_ne_zero.mpr hne
        rw [← heq, div_lt_iff₀ hc]
        push_cast
        linarith
    rw [hsame]
    exact ⟨Iff.rfl,Iff.rfl⟩
  · have habove := hgap.2 ((lt_div_iff₀ hc).mp hgt)
    have hquotient : m/2+gap x/(2*half : ℕ) ≤ x/(2*half : ℕ) := by
      rw [le_div_iff₀ hc, add_mul, div_mul_cancel₀ _ hc.ne']
      exact habove
    constructor <;> constructor <;> intro _ <;> linarith

end Emma.Numbers

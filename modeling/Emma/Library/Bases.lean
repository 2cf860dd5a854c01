import Mathlib.Algebra.Order.Ring.Nat

/-!
# Digits in two bases

The same digits are more in the larger base, unless there is one digit only.
-/

set_option autoImplicit false

namespace Bases

theorem ofDigitChars_mono {b c : ℕ} (h : b ≤ c) (text : List Char) {m n : ℕ} (hle : m ≤ n) :
    Nat.ofDigitChars b text m ≤ Nat.ofDigitChars c text n := by
  induction text generalizing m n with
  | nil => simpa [Nat.ofDigitChars_nil] using hle
  | cons d text ih =>
    rw [Nat.ofDigitChars_cons, Nat.ofDigitChars_cons]
    exact ih (Nat.add_le_add_right (Nat.mul_le_mul h hle) _)

theorem ofDigitChars_eq_iff {b c : ℕ} (hpos : 0 < b) (h : b < c) (text : List Char)
    (hdigits : ∀ d ∈ text, d.toNat < '0'.toNat+b) :
    Nat.ofDigitChars b text 0 = Nat.ofDigitChars c text 0 ↔ Nat.ofDigitChars c text 0 < b := by
  rcases List.eq_nil_or_concat text with rfl | ⟨front,d,rfl⟩
  · simpa [Nat.ofDigitChars_nil] using hpos
  · have hlast := hdigits d (by simp)
    have hle := ofDigitChars_mono h.le front (le_refl 0)
    rw [List.concat_eq_append, Nat.ofDigitChars_append, Nat.ofDigitChars_append,
      Nat.ofDigitChars_cons, Nat.ofDigitChars_cons, Nat.ofDigitChars_nil, Nat.ofDigitChars_nil]
    rcases Nat.eq_zero_or_pos (Nat.ofDigitChars c front 0) with hzero | hsome
    · rw [hzero] at hle ⊢
      rw [Nat.le_zero.mp hle]
      omega
    · have hless : b*Nat.ofDigitChars b front 0 < c*Nat.ofDigitChars c front 0 :=
        (Nat.mul_le_mul_left b hle).trans_lt (Nat.mul_lt_mul_of_pos_right h hsome)
      have hmore : c ≤ c*Nat.ofDigitChars c front 0 := Nat.le_mul_of_pos_right c hsome
      omega

theorem le_ofDigitChars {b : ℕ} (hpos : 0 < b) (text : List Char) (n : ℕ) :
    n ≤ Nat.ofDigitChars b text n := by
  induction text generalizing n with
  | nil => exact (Nat.ofDigitChars_nil).ge
  | cons d text ih =>
    rw [Nat.ofDigitChars_cons]
    have hmore : n ≤ b*n+(d.toNat - '0'.toNat) :=
      (Nat.le_mul_of_pos_left n hpos).trans (Nat.le_add_right _ _)
    exact hmore.trans (ih _)

theorem digit_le {b : ℕ} (hpos : 0 < b) (text : List Char) (d : Char) (h : d ∈ text) :
    d.toNat - '0'.toNat ≤ Nat.ofDigitChars b text 0 := by
  obtain ⟨front,rest,rfl⟩ := List.append_of_mem h
  rw [Nat.ofDigitChars_append, Nat.ofDigitChars_cons]
  exact (Nat.le_add_left _ _).trans (le_ofDigitChars hpos rest _)

end Bases

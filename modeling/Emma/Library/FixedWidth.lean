import Mathlib.Algebra.Ring.Nat
import Mathlib.Data.List.Lex

/-!
# Numbers of one width

Fields of one length are ordered as lists the way they are ordered one after the
other, and a number that fits its width is ordered by its digits.
-/

set_option autoImplicit false

namespace FixedWidth

theorem append_lt_append_iff {α : Type*} [LT α] (a b x y : List α) (h : a.length = b.length) :
    a++x < b++y ↔ a < b ∨ a = b ∧ x < y := by
  induction a generalizing b with
  | nil =>
    obtain rfl := List.length_eq_zero_iff.mp h.symm
    simp
  | cons first a ih =>
    cases b with
    | nil => cases h
    | cons other b =>
      rw [List.cons_append, List.cons_append, List.cons_lt_cons_iff, List.cons_lt_cons_iff,
        ih b (Nat.succ.inj h), List.cons.injEq]
      tauto

def padded : ℕ → ℕ → List Char
  | 0, _ => []
  | width+1, n => padded width (n/10) ++ [Nat.digitChar (n%10)]

@[simp] theorem length_padded (width n : ℕ) : (padded width n).length = width := by
  induction width generalizing n with
  | zero => rfl
  | succ width ih => rw [padded, List.length_append, ih, List.length_singleton]

theorem padded_digit (width n : ℕ) (c : Char) (h : c ∈ padded width n) : c.isDigit = true := by
  induction width generalizing n with
  | zero => cases h
  | succ width ih =>
    rw [padded, List.mem_append, List.mem_singleton] at h
    rcases h with h | rfl
    · exact ih (n/10) h
    · have hall : ∀ d : Fin 10, (Nat.digitChar d).isDigit = true := by decide
      exact hall ⟨n%10,Nat.mod_lt n (by omega)⟩

theorem digitChar_lt_iff (a b : ℕ) (ha : a < 10) (hb : b < 10) :
    Nat.digitChar a < Nat.digitChar b ↔ a < b := by
  have hall : ∀ a b : Fin 10, Nat.digitChar a < Nat.digitChar b ↔ a < b := by decide
  exact hall ⟨a,ha⟩ ⟨b,hb⟩

theorem padded_lt_iff (width a b : ℕ) (ha : a < 10^width) (hb : b < 10^width) :
    padded width a < padded width b ↔ a < b := by
  induction width generalizing a b with
  | zero =>
    obtain rfl := Nat.lt_one_iff.mp ha
    obtain rfl := Nat.lt_one_iff.mp hb
    simp [padded]
  | succ width ih =>
    rw [Nat.pow_succ] at ha hb
    have ha' : a/10 < 10^width := by omega
    have hb' : b/10 < 10^width := by omega
    have heq : padded width (a/10) = padded width (b/10) ↔ a/10 = b/10 := by
      constructor
      · intro hsame
        have hab := (ih (a/10) (b/10) ha' hb').not.mp (hsame ▸ List.lt_irrefl _)
        have hba := (ih (b/10) (a/10) hb' ha').not.mp (hsame ▸ List.lt_irrefl _)
        omega
      · rintro hsame
        rw [hsame]
    rw [padded, padded, append_lt_append_iff _ _ _ _ (by simp), ih _ _ ha' hb', heq,
      List.cons_lt_cons_iff, digitChar_lt_iff _ _ (by omega) (by omega)]
    simp only [List.not_lt_nil, and_false, or_false]
    omega

theorem padded_inj (width a b : ℕ) (ha : a < 10^width) (hb : b < 10^width) :
    padded width a = padded width b ↔ a = b := by
  constructor
  · intro hsame
    have hab := (padded_lt_iff width a b ha hb).not.mp (hsame ▸ List.lt_irrefl _)
    have hba := (padded_lt_iff width b a hb ha).not.mp (hsame ▸ List.lt_irrefl _)
    omega
  · rintro rfl
    rfl

end FixedWidth

import Mathlib.Order.Basic
import Mathlib.Data.Nat.Notation

/-!
# Trying again until something comes of it

An attempt is told its number and either comes to a result or leaves a state for
the next one.
-/

set_option autoImplicit false

namespace Attempts

variable {σ ρ : Type*} (attempt : ℕ → σ → Option ρ × σ)

/-- At most so many attempts, from the one of this number on. -/
def run : ℕ → ℕ → σ → Option (ℕ × ρ) × σ
  | 0, _, s => (none,s)
  | fuel+1, n, s => match attempt n s with
    | (some result,s) => (some (n,result),s)
    | (none,s) => run fuel (n+1) s

/-- The state that is left after so many attempts that came to nothing. -/
def left (n : ℕ) (s : σ) : ℕ → σ
  | 0 => s
  | k+1 => (attempt (n+k) (left n s k)).2

theorem left_next (n k : ℕ) (s : σ) :
    left attempt n s (k+1) = left attempt (n+1) (attempt n s).2 k := by
  induction k with
  | zero => rfl
  | succ k ih =>
    have hnumber : n+(k+1) = n+1+k := by omega
    rw [left, ih, hnumber]
    rfl

theorem run_eq_iff (fuel n : ℕ) (s s' : σ) (m : ℕ) (result : ρ) :
    run attempt fuel n s = (some (m,result),s') ↔ ∃ k < fuel, m = n+k ∧
      attempt (n+k) (left attempt n s k) = (some result,s') ∧
      ∀ j < k, (attempt (n+j) (left attempt n s j)).1 = none := by
  induction fuel generalizing n s with
  | zero => simp [run]
  | succ fuel ih =>
    rw [run]
    rcases hattempt : attempt n s with ⟨found,s₁⟩
    cases found with
    | some first =>
      dsimp only
      constructor
      · intro h
        obtain ⟨hfirst,rfl⟩ := Prod.mk.inj h
        obtain ⟨rfl,rfl⟩ := Prod.mk.inj (Option.some.inj hfirst)
        exact ⟨0,Nat.succ_pos fuel,rfl,hattempt,fun j hj => absurd hj (Nat.not_lt_zero j)⟩
      · rintro ⟨k,-,rfl,hk,hbefore⟩
        cases k with
        | zero =>
          obtain ⟨hfirst,rfl⟩ := Prod.mk.inj (hattempt.symm.trans hk)
          rw [Option.some.inj hfirst]
          rfl
        | succ k =>
          have hnone : (attempt n s).1 = none := hbefore 0 (Nat.succ_pos k)
          rw [hattempt] at hnone
          cases hnone
    | none =>
      dsimp only
      rw [ih (n+1) s₁]
      have hleft : ∀ k, left attempt (n+1) s₁ k = left attempt n s (k+1) := by
        intro k
        rw [left_next, hattempt]
      have hnumber : ∀ k, n+1+k = n+(k+1) := fun k => by omega
      simp only [hleft, hnumber]
      constructor
      · rintro ⟨k,hk,rfl,hresult,hbefore⟩
        refine ⟨k+1,Nat.succ_lt_succ hk,rfl,hresult,?_⟩
        intro j hj
        cases j with
        | zero => exact congrArg Prod.fst hattempt
        | succ j => exact hbefore j (Nat.lt_of_succ_lt_succ hj)
      · rintro ⟨k,hk,rfl,hresult,hbefore⟩
        cases k with
        | zero =>
          have hsome := (congrArg Prod.fst hattempt).symm.trans (congrArg Prod.fst hresult)
          cases hsome
        | succ k =>
          exact ⟨k,Nat.lt_of_succ_lt_succ hk,rfl,hresult,
            fun j hj => hbefore (j+1) (Nat.succ_lt_succ hj)⟩

end Attempts

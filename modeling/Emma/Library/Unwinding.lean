import Emma.Library.FaultyProgram
import Mathlib.Data.List.Basic

/-!
# Opening one after the other, closing in the reverse order

Components are opened in turn, and each is registered once its opening returned.
When one of them raises, the registered ones are closed, the newest first; what
closing raises is only logged. So nobody asks the component that raised to give
back what it had taken before.
-/

set_option autoImplicit false

namespace Unwinding
open FaultyProgram

structure Opening (ε ρ : Type) where
  exit : Exit ε Unit
  acquired : List ρ

structure Report (ε ρ : Type) where
  exit : Exit ε Unit
  acquired : List ρ
  asked : List ρ

section
variable {κ ε ρ : Type} (opening : κ → Opening ε ρ) (closing : κ → List ρ)

def starting : List κ → List κ → Report ε ρ
  | started, [] => ⟨.returned (),[],started.flatMap closing⟩
  | started, next::rest => match (opening next).exit with
    | .returned () =>
      let report := starting (next::started) rest
      { report with acquired := (opening next).acquired ++ report.acquired }
    | .raised e => ⟨.raised e,(opening next).acquired,started.flatMap closing⟩
    | .killed => ⟨.killed,(opening next).acquired,[]⟩

/-- A start-up that raises does so at one component, the ones before it were
opened, and they alone are closed. -/
theorem starting_raised (components started : List κ) (e : ε)
    (h : (starting opening closing started components).exit = .raised e) :
    ∃ front failed back, components = front ++ failed::back ∧
      (∀ c ∈ front, (opening c).exit = .returned ()) ∧ (opening failed).exit = .raised e ∧
      (starting opening closing started components).acquired =
        (front.flatMap fun c => (opening c).acquired) ++ (opening failed).acquired ∧
      (starting opening closing started components).asked =
        (front.reverse ++ started).flatMap closing := by
  induction components generalizing started with
  | nil => cases h
  | cons next rest ih =>
    rw [starting] at h ⊢
    cases hexit : (opening next).exit with
    | killed =>
      rw [hexit] at h
      cases h
    | raised e' =>
      rw [hexit] at h
      cases h
      exact ⟨[],next,rest,rfl,by simp,hexit,rfl,rfl⟩
    | returned =>
      rw [hexit] at h
      obtain ⟨front,failed,back,rfl,hfront,hfailed,hacquired,hasked⟩ := ih _ h
      refine ⟨next::front,failed,back,rfl,?_,hfailed,?_,?_⟩
      · intro c hc
        rcases List.mem_cons.mp hc with rfl | hc
        · exact hexit
        · exact hfront c hc
      · dsimp only
        rw [hacquired, List.flatMap_cons, List.append_assoc]
      · dsimp only
        rw [hasked, List.reverse_cons, List.append_assoc]
        rfl

variable {opening closing}

/-- Components that ask for no more than they took ask for less in all, unless
each of them asks for all. -/
theorem closing_length (front : List κ)
    (h : ∀ c ∈ front, (closing c).Sublist (opening c).acquired.reverse) :
    (front.flatMap closing).length ≤ (front.flatMap fun c => (opening c).acquired).length ∧
      ((front.flatMap closing).length = (front.flatMap fun c => (opening c).acquired).length →
        ∀ c ∈ front, closing c = (opening c).acquired.reverse) := by
  induction front with
  | nil => simp
  | cons c front ih =>
    obtain ⟨hle,heq⟩ := ih fun other hother => h other (List.mem_cons_of_mem c hother)
    have hfirst := h c List.mem_cons_self
    have hlength := hfirst.length_le
    rw [List.length_reverse] at hlength
    rw [List.flatMap_cons, List.flatMap_cons, List.length_append, List.length_append]
    constructor
    · omega
    · intro hall other hother
      rcases List.mem_cons.mp hother with rfl | hother
      · apply hfirst.eq_of_length
        rw [List.length_reverse]
        omega
      · exact heq (by omega) other hother

/-- Everything acquired is asked to close, newest first and once, exactly when
the component that failed had acquired nothing and no other asks for less than
it took. -/
theorem unwound_iff (front : List κ) (failed : κ)
    (h : ∀ c ∈ front, (closing c).Sublist (opening c).acquired.reverse) :
    front.reverse.flatMap closing =
        ((front.flatMap fun c => (opening c).acquired) ++ (opening failed).acquired).reverse ↔
      (opening failed).acquired = [] ∧ ∀ c ∈ front, closing c = (opening c).acquired.reverse := by
  obtain ⟨hle,hequal⟩ := closing_length front h
  have hperm : (front.reverse.flatMap closing).length = (front.flatMap closing).length :=
    ((List.reverse_perm front).flatMap_right closing).length_eq
  constructor
  · intro hall
    have hlength := congrArg List.length hall
    rw [hperm, List.length_reverse, List.length_append] at hlength
    constructor
    · exact List.eq_nil_of_length_eq_zero (by omega)
    · exact hequal (by omega)
  · rintro ⟨hnone,hall⟩
    rw [hnone, List.append_nil, List.reverse_flatMap]
    apply List.flatMap_congr
    intro c hc
    exact hall c (List.mem_reverse.mp hc)

end
end Unwinding

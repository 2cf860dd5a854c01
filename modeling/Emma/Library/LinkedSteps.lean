import Mathlib.Data.List.Basic

/-!
# Steps that hang together

Every step leaves a state behind that the next one finds. What each step keeps
is kept from any state of the run to every later one.
-/

set_option autoImplicit false

namespace LinkedSteps

section
variable {σ ε : Type} (before after : ε → σ)

def Linked : σ → List ε → σ → Prop
  | s, [], t => s = t
  | s, e::es, t => before e = s ∧ Linked (after e) es t

variable {before after}

theorem linked_append {s t : σ} {xs ys : List ε} :
    Linked before after s (xs ++ ys) t ↔
      ∃ u, Linked before after s xs u ∧ Linked before after u ys t := by
  induction xs generalizing s with
  | nil => simp [Linked]
  | cons x xs ih => simp only [List.cons_append, Linked, ih, exists_and_left, and_assoc]

theorem Linked.keeps {s t : σ} {es : List ε} (p : σ → Prop)
    (h : Linked before after s es t) (hstep : ∀ e ∈ es, p (before e) → p (after e))
    (hs : p s) : p t := by
  induction es generalizing s with
  | nil => exact (show s = t from h) ▸ hs
  | cons e es ih =>
    obtain ⟨hbefore,hrest⟩ := h
    exact ih hrest (fun e he => hstep e (List.mem_cons_of_mem _ he))
      (hstep e (by simp) (hbefore ▸ hs))

/-- After a step that establishes the property, and as long as the steps keep
it, the next one finds it. -/
theorem Linked.keeps_between {s t : σ} {front between back : List ε} {first e : ε} (p : σ → Prop)
    (h : Linked before after s (front ++ first::(between ++ e::back)) t)
    (hfirst : p (after first)) (hstep : ∀ e ∈ between, p (before e) → p (after e)) :
    p (before e) := by
  obtain ⟨_,-,-,hrest⟩ := linked_append.mp h
  obtain ⟨u,hbetween,hbefore,-⟩ := linked_append.mp hrest
  exact hbefore ▸ hbetween.keeps p hstep hfirst

end
end LinkedSteps

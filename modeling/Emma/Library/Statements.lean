import Mathlib.Logic.Function.Iterate
import Mathlib.Tactic.Use

/-!
# Programs made of atomic statements

A program is its statements in order, each with what follows on its answer, and
every statement acts on the shared state at once. Between two of them anything
may happen. Where nothing does, what comes of the program is what its statements
come to one after the other.
-/

set_option autoImplicit false

namespace Statements

/-- The family lists the statements a program may contain, by the type of what
they answer. -/
inductive Script (S : Type → Type) (α : Type) : Type 1 where
  | done (result : α)
  | next {β : Type} (statement : S β) (rest : β → Script S α)

namespace Script
variable {S : Type → Type} {σ α : Type} (perform : ∀ β, S β → σ → β × σ)

def advance : Script S α → σ → Script S α × σ
  | .done result, s => (.done result,s)
  | .next statement rest, s =>
    let (answer,s) := perform _ statement s
    (rest answer,s)

def finish : Script S α → σ → α × σ
  | .done result, s => (result,s)
  | .next statement rest, s =>
    let (answer,s) := perform _ statement s
    (rest answer).finish s

/-- Whatever carries a program, as often as it takes and with nothing in between. -/
theorem iterate_carrier {τ : Type*} (carry : Script S α × σ → τ) (act : τ → τ)
    (hact : ∀ p, act (carry p) = carry (p.1.advance perform p.2)) (script : Script S α) (s : σ) :
    ∃ n, act^[n] (carry (script,s)) =
      carry (.done (script.finish perform s).1,(script.finish perform s).2) := by
  induction script generalizing s with
  | done result => exact ⟨0,rfl⟩
  | next statement rest ih =>
    obtain ⟨n,hn⟩ := ih (perform _ statement s).1 (perform _ statement s).2
    use n+1
    rw [Function.iterate_succ_apply, hact]
    exact hn

inductive Throughout (P : ∀ β, S β → Prop) : Script S α → Prop
  | done (result : α) : Throughout P (.done result)
  | next {β : Type} (statement : S β) (rest : β → Script S α) (first : P _ statement)
      (others : ∀ answer, Throughout P (rest answer)) : Throughout P (.next statement rest)

theorem Throughout.ite {P : ∀ β, S β → Prop} {c : Prop} [Decidable c] {a b : Script S α}
    (ha : a.Throughout P) (hb : b.Throughout P) : (if c then a else b).Throughout P := by
  split
  · exact ha
  · exact hb

theorem Throughout.advance {P : ∀ β, S β → Prop} {script : Script S α}
    (h : script.Throughout P) (s : σ) : (script.advance perform s).1.Throughout P := by
  cases h with
  | done result => exact .done result
  | next statement rest first others => exact others _

end Script
end Statements

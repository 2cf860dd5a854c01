import Mathlib.Tactic.TypeStar

/-!
# Programs whose operations may fail or never happen

A program is a sequence of named operations on a state. A plan decides the
fate of each: it runs, it raises, or the process dies before reaching it. A
raised error can be caught; a death cannot, and the state it leaves behind is
all that the next process finds. One plan covers a fault pattern and a crash
point at once, so nothing has to be said twice about the two.
-/

set_option autoImplicit false

namespace FaultyProgram

inductive Fate where
  | runs
  | fails (text : String)
  | dies
  deriving DecidableEq, Repr

inductive Exit (ε α : Type*) where
  | returned (value : α)
  | raised (error : ε)
  | killed
  deriving DecidableEq, Repr

abbrev Plan (ι : Type*) := ι → Fate

def smooth {ι : Type*} : Plan ι := fun _ => .runs

def dyingAt {ι : Type*} [DecidableEq ι] (site : ι) : Plan ι :=
  fun other => if other = site then .dies else .runs

def Program (ι σ ε α : Type) := Plan ι → σ → Exit ε α × σ

section
variable {ι σ ε α β : Type}

instance : Monad (Program ι σ ε) where
  pure a := fun _ s => (.returned a,s)
  bind p f := fun plan s => match p plan s with
    | (.returned a,t) => f a plan t
    | (.raised e,t) => (.raised e,t)
    | (.killed,t) => (.killed,t)

def raise (e : ε) : Program ι σ ε α := fun _ s => (.raised e,s)

def look (f : σ → α) : Program ι σ ε α := fun _ s => (.returned (f s),s)

def change (f : σ → σ) : Program ι σ ε Unit := fun _ s => (.returned (),f s)

def attempt (p : Program ι σ ε α) (handler : ε → Program ι σ ε α) : Program ι σ ε α :=
  fun plan s => match p plan s with
    | (.raised e,t) => handler e plan t
    | exit => exit

/-- One operation. A failing one raises before it has any effect. -/
def perform (site : ι) (error : String → ε) (effect : Program ι σ ε α) : Program ι σ ε α :=
  fun plan s => match plan site with
    | .runs => effect plan s
    | .fails text => (.raised (error text),s)
    | .dies => (.killed,s)

@[simp] theorem pure_apply (a : α) (plan : Plan ι) (s : σ) :
    (pure a : Program ι σ ε α) plan s = (.returned a,s) := rfl

@[simp] theorem raise_apply (e : ε) (plan : Plan ι) (s : σ) :
    (raise e : Program ι σ ε α) plan s = (.raised e,s) := rfl

@[simp] theorem look_apply (f : σ → α) (plan : Plan ι) (s : σ) :
    (look f : Program ι σ ε α) plan s = (.returned (f s),s) := rfl

@[simp] theorem change_apply (f : σ → σ) (plan : Plan ι) (s : σ) :
    (change f : Program ι σ ε Unit) plan s = (.returned (),f s) := rfl

theorem bind_apply (p : Program ι σ ε α) (f : α → Program ι σ ε β) (plan : Plan ι) (s : σ) :
    (p >>= f) plan s = match p plan s with
      | (.returned a,t) => f a plan t
      | (.raised e,t) => (.raised e,t)
      | (.killed,t) => (.killed,t) := rfl

theorem bind_returned {p : Program ι σ ε α} {f : α → Program ι σ ε β} {plan : Plan ι}
    {s t : σ} {a : α} (h : p plan s = (.returned a,t)) : (p >>= f) plan s = f a plan t := by
  rw [bind_apply, h]

theorem bind_raised {p : Program ι σ ε α} {f : α → Program ι σ ε β} {plan : Plan ι}
    {s t : σ} {e : ε} (h : p plan s = (.raised e,t)) : (p >>= f) plan s = (.raised e,t) := by
  rw [bind_apply, h]

theorem bind_killed {p : Program ι σ ε α} {f : α → Program ι σ ε β} {plan : Plan ι}
    {s t : σ} (h : p plan s = (.killed,t)) : (p >>= f) plan s = (.killed,t) := by
  rw [bind_apply, h]

theorem attempt_apply (p : Program ι σ ε α) (handler : ε → Program ι σ ε α)
    (plan : Plan ι) (s : σ) : attempt p handler plan s = match p plan s with
      | (.raised e,t) => handler e plan t
      | exit => exit := rfl

theorem attempt_raised {p : Program ι σ ε α} {handler : ε → Program ι σ ε α} {plan : Plan ι}
    {s : σ} {e : ε} (h : (p plan s).1 = .raised e) :
    attempt p handler plan s = handler e plan (p plan s).2 := by
  rcases hp : p plan s with ⟨exit,t⟩
  obtain rfl : exit = .raised e := by simpa [hp] using h
  rw [attempt_apply, hp]

theorem perform_apply (site : ι) (error : String → ε) (effect : Program ι σ ε α)
    (plan : Plan ι) (s : σ) : perform site error effect plan s = match plan site with
      | .runs => effect plan s
      | .fails text => (.raised (error text),s)
      | .dies => (.killed,s) := rfl

/-! What must have happened when a program returned. -/

theorem bind_eq_returned {p : Program ι σ ε α} {f : α → Program ι σ ε β} {plan : Plan ι}
    {s t : σ} {b : β} : (p >>= f) plan s = (.returned b,t) ↔
      ∃ a u, p plan s = (.returned a,u) ∧ f a plan u = (.returned b,t) := by
  rw [bind_apply]
  rcases hp : p plan s with ⟨_ | _ | _,u⟩ <;> simp [and_assoc]

theorem perform_eq_returned {site : ι} {error : String → ε} {effect : Program ι σ ε α}
    {plan : Plan ι} {s t : σ} {a : α} : perform site error effect plan s = (.returned a,t) ↔
      plan site = .runs ∧ effect plan s = (.returned a,t) := by
  rw [perform_apply]
  cases plan site <;> simp

theorem attempt_eq_returned {p : Program ι σ ε α} {handler : ε → Program ι σ ε α}
    {plan : Plan ι} {s t : σ} {a : α} : attempt p handler plan s = (.returned a,t) ↔
      p plan s = (.returned a,t) ∨
      ∃ e u, p plan s = (.raised e,u) ∧ handler e plan u = (.returned a,t) := by
  rw [attempt_apply]
  rcases hp : p plan s with ⟨_ | _ | _,u⟩ <;> simp [and_assoc]

@[simp] theorem perform_smooth (site : ι) (error : String → ε) (effect : Program ι σ ε α)
    (s : σ) : perform site error effect smooth s = effect smooth s := rfl

theorem perform_dyingAt [DecidableEq ι] (site dead : ι) (error : String → ε)
    (effect : Program ι σ ε α) (s : σ) : perform site error effect (dyingAt dead) s =
      if dead = site then (.killed,s) else effect (dyingAt dead) s := by
  rw [perform_apply, dyingAt]
  by_cases h : dead = site
  · simp [h]
  · simp [h, Ne.symm h]

end

section
variable {ι σ ε α β : Type}

def Keeps (I : σ → Prop) (p : Program ι σ ε α) : Prop :=
  ∀ plan s, I s → I (p plan s).2

variable {I : σ → Prop}

theorem keeps_pure (a : α) : Keeps I (pure a : Program ι σ ε α) := fun _ _ h => h

theorem keeps_raise (e : ε) : Keeps I (raise e : Program ι σ ε α) := fun _ _ h => h

theorem keeps_look (f : σ → α) : Keeps I (look f : Program ι σ ε α) := fun _ _ h => h

theorem keeps_change {f : σ → σ} (hf : ∀ s, I s → I (f s)) :
    Keeps I (change f : Program ι σ ε Unit) := fun _ s h => hf s h

theorem keeps_bind {p : Program ι σ ε α} {f : α → Program ι σ ε β}
    (hp : Keeps I p) (hf : ∀ a, Keeps I (f a)) : Keeps I (p >>= f) := by
  intro plan s hs
  have ht := hp plan s hs
  rw [bind_apply]
  cases hrun : p plan s with
  | mk exit t =>
    rw [hrun] at ht
    cases exit with
    | returned a => exact hf a plan t ht
    | raised e => exact ht
    | killed => exact ht

theorem keeps_attempt {p : Program ι σ ε α} {handler : ε → Program ι σ ε α}
    (hp : Keeps I p) (hh : ∀ e, Keeps I (handler e)) : Keeps I (attempt p handler) := by
  intro plan s hs
  have ht := hp plan s hs
  rw [attempt_apply]
  cases hrun : p plan s with
  | mk exit t =>
    rw [hrun] at ht
    cases exit with
    | returned a => exact ht
    | raised e => exact hh e plan t ht
    | killed => exact ht

theorem keeps_perform {site : ι} {error : String → ε} {effect : Program ι σ ε α}
    (h : Keeps I effect) : Keeps I (perform site error effect) := by
  intro plan s hs
  rw [perform_apply]
  cases plan site with
  | runs => exact h plan s hs
  | fails text => exact hs
  | dies => exact hs

end

section
variable {ι σ ε α β : Type} [DecidableEq ι]

def DiesOrFinishes (p : Program ι σ ε α) : Prop :=
  ∀ site s, (p (dyingAt site) s).1 = .killed ∨ p (dyingAt site) s = p smooth s

theorem finishes_pure (a : α) : DiesOrFinishes (pure a : Program ι σ ε α) :=
  fun _ _ => .inr rfl

theorem finishes_raise (e : ε) : DiesOrFinishes (raise e : Program ι σ ε α) :=
  fun _ _ => .inr rfl

theorem finishes_look (f : σ → α) : DiesOrFinishes (look f : Program ι σ ε α) :=
  fun _ _ => .inr rfl

theorem finishes_change (f : σ → σ) : DiesOrFinishes (change f : Program ι σ ε Unit) :=
  fun _ _ => .inr rfl

theorem finishes_bind {p : Program ι σ ε α} {f : α → Program ι σ ε β}
    (hp : DiesOrFinishes p) (hf : ∀ a, DiesOrFinishes (f a)) : DiesOrFinishes (p >>= f) := by
  intro site s
  rw [bind_apply, bind_apply]
  rcases hp site s with h | h
  · rcases hr : p (dyingAt site) s with ⟨exit,t⟩
    rw [hr] at h
    subst h
    exact .inl rfl
  · rw [h]
    rcases p smooth s with ⟨a | e | _,t⟩
    · exact hf a site t
    · exact .inr rfl
    · exact .inr rfl

theorem finishes_attempt {p : Program ι σ ε α} {handler : ε → Program ι σ ε α}
    (hp : DiesOrFinishes p) (hh : ∀ e, DiesOrFinishes (handler e)) :
    DiesOrFinishes (attempt p handler) := by
  intro site s
  rw [attempt_apply, attempt_apply]
  rcases hp site s with h | h
  · rcases hr : p (dyingAt site) s with ⟨exit,t⟩
    rw [hr] at h
    subst h
    exact .inl rfl
  · rw [h]
    rcases p smooth s with ⟨a | e | _,t⟩
    · exact .inr rfl
    · exact hh e site t
    · exact .inr rfl

theorem finishes_perform {site : ι} {error : String → ε} {effect : Program ι σ ε α}
    (h : DiesOrFinishes effect) : DiesOrFinishes (perform site error effect) := by
  intro dead s
  rw [perform_dyingAt, perform_smooth]
  split
  · exact .inl rfl
  · exact h dead s

end

/-! Runs of calls, each with the operations that raise in it. -/

/-- The operations that raise, with what they say. Nobody dies. -/
abbrev Faults (ι : Type) := ι → Option String

def failing {ι : Type} (faults : Faults ι) : Plan ι := fun site => match faults site with
  | none => .runs
  | some text => .fails text

section
variable {ι σ ε Op R : Type} (method : Op → Program ι σ ε R)

def after (calls : List (Op × Faults ι)) (s : σ) : σ :=
  calls.foldl (fun s call => (method call.1 (failing call.2) s).2) s

def answers : List (Op × Faults ι) → σ → List (Exit ε R)
  | [], _ => []
  | call::rest, s =>
    let (exit,t) := method call.1 (failing call.2) s
    exit::answers rest t

end
end FaultyProgram

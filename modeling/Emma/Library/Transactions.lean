import Emma.Library.FaultyProgram
import Mathlib.Data.Nat.Notation

/-!
# A store behind one long-lived connection

Every method takes the one connection, runs its statements and commits. A
transaction opens before a statement that changes something, also where the
statement then fails, and nothing takes a change back when a later call of the
method raises: the connection goes on seeing it, and whoever commits next makes
it permanent. So a method with one changing statement that raises has either
done nothing but open a transaction, or all it does but its commit.
-/

set_option autoImplicit false

namespace Transactions
open FaultyProgram

/-- What is on the disk, what the connection sees of it while it is open, and
whether it is in a transaction. -/
structure Connection (σ : Type) where
  committed : σ
  session : Option σ
  writing : Bool
  deriving DecidableEq

inductive Site where
  | mkdir
  | connect
  | journalMode
  | schema
  | commitSchema
  | select (n : ℕ)
  | execute
  | commit
  | close
  deriving DecidableEq, Repr

abbrev Action (σ ε α : Type) := Program Site (Connection σ) ε α

section
variable {σ ε α β : Type} (broken : String → ε)

def Connection.opened (s : Connection σ) : Connection σ := ⟨s.committed,some s.committed,false⟩

def Connection.closed (s : Connection σ) : Connection σ := ⟨s.committed,none,false⟩

def Connection.begun (s : Connection σ) : Connection σ := { s with writing := s.session.isSome }

def Connection.settled (s : Connection σ) : Connection σ :=
  match s.session with
  | some view => ⟨view,some view,false⟩
  | none => s

def Connection.rows (s : Connection σ) : σ × Option σ := (s.committed,s.session)

def requireOpen (closed : ε) : Action σ ε Unit := do
  if ← look fun s => s.session.isSome then pure () else raise closed

/-- What the connection sees; a closed one has nothing to show. -/
def view : Action σ ε σ := do
  match ← look Connection.session with
  | some seen => pure seen
  | none => raise (broken "Cannot operate on a closed database.")

def select (n : ℕ) (f : σ → α) : Action σ ε α :=
  perform (.select n) broken do
    let seen ← view broken
    return f seen

def execute (f : σ → Except ε (α × σ)) : Action σ ε α := do
  change Connection.begun
  perform .execute broken do
    let seen ← view broken
    match f seen with
    | .error e => raise e
    | .ok (a,changed) =>
      change fun s => { s with session := some changed }
      return a

def commit : Action σ ε Unit := perform .commit broken (change Connection.settled)

def write (f : σ → Except ε (α × σ)) : Action σ ε α := do
  let a ← execute broken f
  commit broken
  return a

end

section
variable {σ ε α β : Type} {broken : String → ε}

theorem view_apply (plan : Plan Site) (s : Connection σ) :
    view broken plan s = match s.session with
      | some seen => (.returned seen,s)
      | none => (.raised (broken "Cannot operate on a closed database."),s) := by
  rcases s with ⟨committed,_ | seen,_⟩ <;> rfl

theorem select_apply (n : ℕ) (f : σ → α) (plan : Plan Site) (s : Connection σ) :
    select broken n f plan s = match plan (.select n) with
      | .runs => match s.session with
        | some seen => (.returned (f seen),s)
        | none => (.raised (broken "Cannot operate on a closed database."),s)
      | .fails text => (.raised (broken text),s)
      | .dies => (.killed,s) := by
  rcases s with ⟨committed,_ | seen,_⟩ <;> rfl

theorem execute_apply (f : σ → Except ε (α × σ)) (plan : Plan Site) (s : Connection σ) :
    execute broken f plan s = match plan .execute with
      | .runs => match s.session with
        | some seen => match f seen with
          | .error e => (.raised e,s.begun)
          | .ok (a,changed) => (.returned a,⟨s.committed,some changed,true⟩)
        | none => (.raised (broken "Cannot operate on a closed database."),s.begun)
      | .fails text => (.raised (broken text),s.begun)
      | .dies => (.killed,s.begun) := by
  have hbegin : (change Connection.begun : Action σ ε Unit) plan s = (.returned (),s.begun) := rfl
  rw [execute, bind_returned hbegin, perform_apply]
  rcases s with ⟨committed,_ | seen,_⟩
  · rfl
  · rw [bind_apply, view_apply]
    dsimp only [Connection.begun, Option.isSome_some]
    rcases f seen with _ | ⟨a,changed⟩ <;> rfl

theorem requireOpen_apply (closed : ε) (plan : Plan Site) (s : Connection σ) :
    requireOpen closed plan s = match s.session with
      | some _ => (.returned (),s)
      | none => (.raised closed,s) := by
  rcases s with ⟨committed,_ | seen,_⟩ <;> rfl

/-! Whether a transaction is open shows in no answer. -/

def Unseen (p : Action σ ε α) : Prop :=
  ∀ plan s t, s.rows = t.rows →
    (p plan s).1 = (p plan t).1 ∧ (p plan s).2.rows = (p plan t).2.rows

theorem unseen_pure (a : α) : Unseen (pure a : Action σ ε α) := fun _ _ _ h => ⟨rfl,h⟩

theorem unseen_bind {p : Action σ ε α} {f : α → Action σ ε β} (hp : Unseen p)
    (hf : ∀ a, Unseen (f a)) : Unseen (p >>= f) := by
  intro plan s t h
  obtain ⟨hexit,hrows⟩ := hp plan s t h
  rw [bind_apply, bind_apply]
  rcases hs : p plan s with ⟨exit,s'⟩
  rcases ht : p plan t with ⟨exit',t'⟩
  rw [hs, ht] at hexit hrows
  obtain rfl : exit = exit' := hexit
  cases exit with
  | raised e => exact ⟨rfl,hrows⟩
  | killed => exact ⟨rfl,hrows⟩
  | returned a => exact hf a plan s' t' hrows

theorem unseen_perform {site : Site} {error : String → ε} {effect : Action σ ε α}
    (h : Unseen effect) : Unseen (perform site error effect) := by
  intro plan s t hst
  rw [perform_apply, perform_apply]
  cases plan site with
  | runs => exact h plan s t hst
  | fails text => exact ⟨rfl,hst⟩
  | dies => exact ⟨rfl,hst⟩

theorem unseen_change {g : Connection σ → Connection σ}
    (h : ∀ s t, s.rows = t.rows → (g s).rows = (g t).rows) :
    Unseen (change g : Action σ ε Unit) := fun _ s t hst => ⟨rfl,h s t hst⟩

theorem unseen_look {g : Connection σ → α} (h : ∀ s t, s.rows = t.rows → g s = g t) :
    Unseen (look g : Action σ ε α) := by
  intro _ s t hst
  rw [look_apply, look_apply, h s t hst]
  exact ⟨rfl,hst⟩

theorem opened_rows {s t : Connection σ} (h : s.rows = t.rows) :
    s.opened.rows = t.opened.rows := by
  obtain ⟨hcommitted,-⟩ := Prod.mk.inj h
  rw [Connection.opened, Connection.opened, hcommitted]

theorem closed_rows {s t : Connection σ} (h : s.rows = t.rows) :
    s.closed.rows = t.closed.rows := by
  obtain ⟨hcommitted,-⟩ := Prod.mk.inj h
  rw [Connection.closed, Connection.closed, hcommitted]

theorem settled_rows {s t : Connection σ} (h : s.rows = t.rows) :
    s.settled.rows = t.settled.rows := by
  obtain ⟨-,hsession⟩ := Prod.mk.inj h
  rw [Connection.settled, Connection.settled, hsession]
  cases t.session with
  | none => exact h
  | some seen => rfl

/-! Connections that see the same. -/

def Blind (p : Action σ ε α) : Prop :=
  ∀ plan s t, s.session = t.session →
    (p plan s).1 = (p plan t).1 ∧ (p plan s).2.session = (p plan t).2.session ∧
    ((p plan s).2 = (p plan t).2 ∨
      (p plan s).2.committed = s.committed ∧ (p plan t).2.committed = t.committed)

theorem blind_pure (a : α) : Blind (pure a : Action σ ε α) :=
  fun _ _ _ h => ⟨rfl,h,.inr ⟨rfl,rfl⟩⟩

theorem blind_raise (e : ε) : Blind (raise e : Action σ ε α) :=
  fun _ _ _ h => ⟨rfl,h,.inr ⟨rfl,rfl⟩⟩

theorem blind_bind {p : Action σ ε α} {f : α → Action σ ε β} (hp : Blind p)
    (hf : ∀ a, Blind (f a)) : Blind (p >>= f) := by
  intro plan s t h
  obtain ⟨hexit,hsession,hdisk⟩ := hp plan s t h
  rw [bind_apply, bind_apply]
  rcases hs : p plan s with ⟨exit,s'⟩
  rcases ht : p plan t with ⟨exit',t'⟩
  rw [hs, ht] at hexit hsession hdisk
  obtain rfl : exit = exit' := hexit
  cases exit with
  | raised e => exact ⟨rfl,hsession,hdisk⟩
  | killed => exact ⟨rfl,hsession,hdisk⟩
  | returned a =>
    obtain ⟨hexit',hsession',hdisk'⟩ := hf a plan s' t' hsession
    refine ⟨hexit',hsession',?_⟩
    rcases hdisk with hsame | ⟨hkept,hkept'⟩
    · obtain rfl : s' = t' := hsame
      exact .inl rfl
    · rcases hdisk' with hsame | ⟨hlast,hlast'⟩
      · exact .inl hsame
      · exact .inr ⟨hlast.trans hkept,hlast'.trans hkept'⟩

theorem blind_requireOpen (closed : ε) : Blind (requireOpen closed : Action σ ε Unit) := by
  intro plan s t h
  rw [requireOpen_apply, requireOpen_apply, ← h]
  cases s.session <;> exact ⟨rfl,h,.inr ⟨rfl,rfl⟩⟩

theorem blind_select (n : ℕ) (f : σ → α) : Blind (select broken n f) := by
  intro plan s t h
  rw [select_apply, select_apply, ← h]
  cases plan (.select n) with
  | runs => cases s.session <;> exact ⟨rfl,h,.inr ⟨rfl,rfl⟩⟩
  | fails text => exact ⟨rfl,h,.inr ⟨rfl,rfl⟩⟩
  | dies => exact ⟨rfl,h,.inr ⟨rfl,rfl⟩⟩

theorem blind_write (f : σ → Except ε (α × σ)) : Blind (write broken f) := by
  refine blind_bind ?_ fun a => blind_bind ?_ fun _ => blind_pure a
  · intro plan s t h
    rw [execute_apply, execute_apply, ← h]
    cases plan .execute with
    | fails text => exact ⟨rfl,h,.inr ⟨rfl,rfl⟩⟩
    | dies => exact ⟨rfl,h,.inr ⟨rfl,rfl⟩⟩
    | runs =>
      cases s.session with
      | none => exact ⟨rfl,h,.inr ⟨rfl,rfl⟩⟩
      | some seen =>
        dsimp only
        rcases f seen with e | ⟨a,changed⟩
        · exact ⟨rfl,h,.inr ⟨rfl,rfl⟩⟩
        · exact ⟨rfl,rfl,.inr ⟨rfl,rfl⟩⟩
  · intro plan s t h
    rw [commit, perform_apply, perform_apply]
    cases plan .commit with
    | fails text => exact ⟨rfl,h,.inr ⟨rfl,rfl⟩⟩
    | dies => exact ⟨rfl,h,.inr ⟨rfl,rfl⟩⟩
    | runs =>
      rcases s with ⟨committed,_ | seen,_⟩ <;> rcases t with ⟨committed',_ | seen',_⟩ <;>
        simp_all [Connection.settled]

/-- What cannot tell one disk from another cannot tell an open transaction. -/
theorem unseen_blind {p : Action σ ε α} (h : Blind p) : Unseen p := by
  intro plan s t hst
  obtain ⟨hcommitted,hsession⟩ := Prod.mk.inj hst
  obtain ⟨hexit,hsession',hdisk⟩ := h plan s t hsession
  refine ⟨hexit,?_⟩
  rcases hdisk with hsame | ⟨hkept,hkept'⟩
  · rw [hsame]
  · exact Prod.ext (hkept.trans (hcommitted.trans hkept'.symm)) hsession'

/-! Methods that change something once. -/

def WritesOnce (p : Action σ ε α) : Prop :=
  ∀ faults s e s', p (failing faults) s = (.raised e,s') →
    s'.rows = s.rows ∨ faults .execute = none ∧ s'.committed = s.committed ∧
      ∃ a, p smooth s = (.returned a,s'.settled) ∧ s'.session.isSome = true

theorem writesOnce_pure (a : α) : WritesOnce (pure a : Action σ ε α) := by
  intro faults s e s' h
  cases h

theorem writesOnce_raise (e : ε) : WritesOnce (raise e : Action σ ε α) := by
  intro faults s e' s' h
  cases h
  exact .inl rfl

/-- A method may read, or check that it is open, before it writes. -/
theorem writesOnce_bind {p : Action σ ε α} {f : α → Action σ ε β}
    (hp : ∀ faults s, (∃ e, p (failing faults) s = (.raised e,s)) ∨
      ∃ a, p (failing faults) s = (.returned a,s) ∧ p smooth s = (.returned a,s))
    (hf : ∀ a, WritesOnce (f a)) : WritesOnce (p >>= f) := by
  intro faults s e s' h
  rcases hp faults s with ⟨e',hraised⟩ | ⟨a,hreturned,hsmooth⟩
  · rw [bind_raised hraised] at h
    cases h
    exact .inl rfl
  · rw [bind_returned hreturned] at h
    rw [bind_returned hsmooth]
    exact hf a faults s e s' h

theorem writesOnce_map {p : Action σ ε α} (hp : WritesOnce p) (g : α → β) :
    WritesOnce (do let a ← p; return g a) := by
  intro faults s e s' h
  rw [bind_apply] at h
  rcases hrun : p (failing faults) s with ⟨a | e' | _,t⟩
  · rw [hrun] at h
    cases h
  · rw [hrun] at h
    cases h
    rcases hp faults s e s' hrun with hsame | ⟨hran,hdisk,a,hall,hopen⟩
    · exact .inl hsame
    · exact .inr ⟨hran,hdisk,g a,bind_returned hall,hopen⟩
  · rw [hrun] at h
    cases h

theorem writesOnce_requireOpen {closed : ε} {p : Action σ ε α} (h : WritesOnce p) :
    WritesOnce (do requireOpen closed; p) := by
  refine writesOnce_bind (fun faults s => ?_) fun _ => h
  rw [requireOpen_apply, requireOpen_apply]
  cases s.session with
  | none => exact .inl ⟨_,rfl⟩
  | some seen => exact .inr ⟨_,rfl,rfl⟩

theorem writesOnce_select_bind {n : ℕ} {g : σ → α} {f : α → Action σ ε β}
    (h : ∀ a, WritesOnce (f a)) : WritesOnce (select broken n g >>= f) := by
  refine writesOnce_bind (fun faults s => ?_) h
  rw [select_apply, select_apply, failing]
  cases hfault : faults (.select n) with
  | some text => exact .inl ⟨_,rfl⟩
  | none =>
    cases s.session with
    | none => exact .inl ⟨_,rfl⟩
    | some seen => exact .inr ⟨_,rfl,rfl⟩

theorem writesOnce_select (n : ℕ) (g : σ → α) : WritesOnce (select broken n g) := by
  intro faults s e s' h
  rw [select_apply] at h
  left
  rcases hsession : s.session with _ | seen <;> rcases hplan : failing faults (.select n) <;>
    rw [hsession, hplan] at h <;> cases h <;> rfl

theorem writesOnce_write (f : σ → Except ε (α × σ)) : WritesOnce (write broken f) := by
  intro faults s e s' h
  rw [write, bind_apply, execute_apply, failing] at h
  rw [write, bind_apply, execute_apply]
  cases hfault : faults .execute with
  | some text =>
    rw [hfault] at h
    cases h
    exact .inl rfl
  | none =>
    rw [hfault] at h
    rcases hs : s.session with _ | seen
    · rw [hs] at h
      cases h
      exact .inl rfl
    · rw [hs] at h
      dsimp only at h ⊢
      rcases hf : f seen with e' | ⟨a,changed⟩
      · rw [hf] at h
        cases h
        exact .inl rfl
      · -- the statement ran, so it was the commit that raised
        rw [hf] at h
        dsimp only at h
        right
        refine ⟨rfl,?_⟩
        rw [bind_apply, commit, perform_apply, failing] at h
        cases hcommit : faults .commit with
        | none =>
          rw [hcommit] at h
          cases h
        | some text =>
          rw [hcommit] at h
          cases h
          exact ⟨rfl,a,rfl,rfl⟩

/-! Both at once, for the methods of a store. -/

structure Plain (p : Action σ ε α) : Prop where
  blind : Blind p
  once : WritesOnce p

theorem plain_pure (a : α) : Plain (pure a : Action σ ε α) := ⟨blind_pure a,writesOnce_pure a⟩

theorem plain_raise (e : ε) : Plain (raise e : Action σ ε α) := ⟨blind_raise e,writesOnce_raise e⟩

theorem plain_requireOpen {closed : ε} {p : Action σ ε α} (h : Plain p) :
    Plain (do requireOpen closed; p) where
  blind := blind_bind (blind_requireOpen closed) fun _ => h.blind
  once := writesOnce_requireOpen h.once

theorem plain_select (n : ℕ) (g : σ → α) : Plain (select broken n g) :=
  ⟨blind_select n g,writesOnce_select n g⟩

theorem plain_select_bind {n : ℕ} {g : σ → α} {f : α → Action σ ε β} (h : ∀ a, Plain (f a)) :
    Plain (select broken n g >>= f) where
  blind := blind_bind (blind_select n g) fun a => (h a).blind
  once := writesOnce_select_bind fun a => (h a).once

theorem plain_write (f : σ → Except ε (α × σ)) : Plain (write broken f) :=
  ⟨blind_write f,writesOnce_write f⟩

theorem plain_map {p : Action σ ε α} (h : Plain p) (g : α → β) :
    Plain (do let a ← p; return g a) where
  blind := blind_bind h.blind fun a => blind_pure (g a)
  once := writesOnce_map h.once g

end

section
variable {σ ε Op R : Type} (method : Op → Action σ ε R)

/-- Where a method raises, either nothing that comes later can tell that it was
called, or nothing can tell that it did not succeed, as long as the connection
stays open until the next commit. The former is the case where the changing
statement did not run, or would change nothing. -/
structure NothingOrAll (keepsOpen : Op → Prop) : Prop where
  nothing : ∀ op, keepsOpen op → ∀ faults s e s', method op (failing faults) s = (.raised e,s') →
    faults .execute ≠ none ∨ (method op smooth s).2.session = s.session →
    ∀ later, answers method later s' = answers method later s
  nothingOrAll : ∀ op, keepsOpen op → ∀ faults s e s',
    method op (failing faults) s = (.raised e,s') →
    (∀ later, answers method later s' = answers method later s) ∨
    ∀ later, (∀ call ∈ later, keepsOpen call.1) →
      answers method later s' = answers method later (method op smooth s).2 ∧
      (after method later s' = after method later (method op smooth s).2 ∨
        (after method later s').committed = s.committed)

variable {method}

theorem answers_blind (calls : List (Op × Faults Site)) (h : ∀ call ∈ calls, Blind (method call.1))
    (s t : Connection σ) (hst : s.session = t.session) :
    answers method calls s = answers method calls t ∧
      (after method calls s = after method calls t ∨
        (after method calls s).committed = s.committed) := by
  induction calls generalizing s t with
  | nil => exact ⟨rfl,.inr rfl⟩
  | cons call rest ih =>
    obtain ⟨hexit,hsession,hdisk⟩ := h call List.mem_cons_self (failing call.2) s t hst
    obtain ⟨hrest,hlast⟩ := ih (fun other hother => h other (List.mem_cons_of_mem _ hother)) _ _
      hsession
    constructor
    · simp only [answers]
      rw [hexit, hrest]
    · rcases hdisk with hsame | ⟨hkept,-⟩
      · left
        exact congrArg (after method rest) hsame
      · rcases hlast with hsame | hkept'
        · exact .inl hsame
        · exact .inr (hkept'.trans hkept)

theorem answers_unseen (h : ∀ op, Unseen (method op)) (calls : List (Op × Faults Site))
    (s t : Connection σ) (hst : s.rows = t.rows) :
    answers method calls s = answers method calls t := by
  induction calls generalizing s t with
  | nil => rfl
  | cons call rest ih =>
    obtain ⟨hexit,hrows⟩ := h call.1 (failing call.2) s t hst
    simp only [answers]
    rw [hexit, ih _ _ hrows]

theorem nothingOrAll {keepsOpen : Op → Prop} (hplain : ∀ op, keepsOpen op → Plain (method op))
    (hunseen : ∀ op, ¬keepsOpen op → Unseen (method op)) : NothingOrAll method keepsOpen := by
  have hall : ∀ op, Unseen (method op) := by
    intro op
    by_cases hop : keepsOpen op
    · exact unseen_blind (hplain op hop).blind
    · exact hunseen op hop
  constructor
  · intro op hop faults s e s' h hnothing later
    refine answers_unseen hall later s' s ?_
    rcases (hplain op hop).once faults s e s' h with hsame | ⟨hran,hdisk,a,hdone,hopen⟩
    · exact hsame
    · rcases hnothing with hfault | hsession
      · exact absurd hran hfault
      · obtain ⟨seen,hseen⟩ := Option.isSome_iff_exists.mp hopen
        rw [hdone] at hsession
        simp only [Connection.settled, hseen] at hsession
        exact Prod.ext hdisk (hseen.trans hsession)
  · intro op hop faults s e s' h
    rcases (hplain op hop).once faults s e s' h with hsame | ⟨-,hdisk,a,hdone,hopen⟩
    · exact .inl fun later => answers_unseen hall later s' s hsame
    · right
      intro later hlater
      obtain ⟨seen,hseen⟩ := Option.isSome_iff_exists.mp hopen
      have hsession : s'.session = (method op smooth s).2.session := by
        simp only [hdone, Connection.settled, hseen]
      rw [← hdisk]
      exact answers_blind later (fun call hcall => (hplain _ (hlater call hcall)).blind) _ _ hsession

end
end Transactions

import Mathlib.Data.List.Induction

/-!
# Runs of a deterministic machine

A run is a list of moves, each taken in the state the ones before it left. What
is said of every move of a run is said of the move and of the state it meets.
-/

set_option autoImplicit false

namespace Runs

variable {σ μ : Type*} (step : σ → μ → σ)

def after (moves : List μ) (s : σ) : σ := moves.foldl step s

@[simp] theorem after_nil (s : σ) : after step [] s = s := rfl

@[simp] theorem after_cons (move : μ) (moves : List μ) (s : σ) :
    after step (move::moves) s = after step moves (step s move) := rfl

@[simp] theorem after_append (front back : List μ) (s : σ) :
    after step (front ++ back) s = after step back (after step front s) := List.foldl_append

def Throughout (P : σ → μ → Prop) (moves : List μ) (s : σ) : Prop :=
  ∀ front move back, moves = front ++ move::back → P (after step front s) move

variable {step} {P Q : σ → μ → Prop}

@[simp] theorem throughout_nil (s : σ) : Throughout step P [] s := by
  intro front move back h
  simp at h

theorem throughout_cons (move : μ) (moves : List μ) (s : σ) :
    Throughout step P (move::moves) s ↔ P s move ∧ Throughout step P moves (step s move) := by
  constructor
  · intro h
    constructor
    · exact h [] move moves rfl
    · intro front other back hmoves
      exact h (move::front) other back (by rw [hmoves]; rfl)
  · rintro ⟨hfirst,hrest⟩ front other back hmoves
    cases front with
    | nil =>
      obtain ⟨rfl,-⟩ := List.cons.inj hmoves
      exact hfirst
    | cons first front =>
      obtain ⟨rfl,htail⟩ := List.cons.inj hmoves
      exact hrest front other back htail

theorem throughout_append (front back : List μ) (s : σ) : Throughout step P (front ++ back) s ↔
    Throughout step P front s ∧ Throughout step P back (after step front s) := by
  induction front generalizing s with
  | nil => simp
  | cons move front ih =>
    rw [List.cons_append, throughout_cons, throughout_cons, ih, and_assoc]
    rfl

theorem Throughout.mono {moves : List μ} {s : σ} (h : Throughout step P moves s)
    (hPQ : ∀ s move, P s move → Q s move) : Throughout step Q moves s :=
  fun front move back hmoves => hPQ _ _ (h front move back hmoves)

theorem Throughout.and {moves : List μ} {s : σ} (hP : Throughout step P moves s)
    (hQ : Throughout step Q moves s) : Throughout step (fun s move => P s move ∧ Q s move) moves s :=
  fun front move back hmoves => ⟨hP front move back hmoves,hQ front move back hmoves⟩

/-- Where not every move is of another kind, one is of this kind. -/
theorem meets_one {moves : List μ} {s : σ}
    (h : ¬Throughout step (fun s move => ¬P s move) moves s) :
    ∃ early move late, moves = early ++ move::late ∧ P (after step early s) move := by
  by_contra hnever
  exact h fun early move late hmoves hmove => hnever ⟨early,move,late,hmoves,hmove⟩

theorem Throughout.keeps {moves : List μ} {s : σ} (h : Throughout step P moves s)
    (I : σ → Prop) (hstep : ∀ s move, I s → P s move → I (step s move)) (hs : I s) :
    I (after step moves s) := by
  induction moves generalizing s with
  | nil => exact hs
  | cons move moves ih =>
    obtain ⟨hfirst,hrest⟩ := (throughout_cons move moves s).mp h
    exact ih hrest (hstep s move hs hfirst)

theorem after_keeps (I : σ → Prop) (hstep : ∀ s move, I s → I (step s move)) (moves : List μ)
    (s : σ) (hs : I s) : I (after step moves s) := by
  induction moves generalizing s with
  | nil => exact hs
  | cons move moves ih => exact ih (step s move) (hstep s move hs)

theorem throughout_invariant (I : σ → Prop) (hstep : ∀ s move, I s → I (step s move))
    (moves : List μ) (s : σ) (hs : I s) : Throughout step (fun s _ => I s) moves s :=
  fun front _ _ _ => after_keeps I hstep front s hs

/-- Two machines that move together stay related, where every move keeps the
relation. -/
theorem after_related {τ ν : Type*} {step' : τ → ν → τ} (image : μ → ν) (R : σ → τ → Prop)
    (hstep : ∀ s t move, R s t → R (step s move) (step' t (image move))) (moves : List μ) (s : σ)
    (t : τ) (h : R s t) : R (after step moves s) (after step' (moves.map image) t) := by
  induction moves generalizing s t with
  | nil => exact h
  | cons move moves ih => exact ih _ _ (hstep s t move h)

def Always (step : σ → μ → σ) (I : σ → Prop) (moves : List μ) (s : σ) : Prop :=
  ∀ front back, moves = front ++ back → I (after step front s)

theorem always_cons (I : σ → Prop) (move : μ) (moves : List μ) (s : σ) :
    Always step I (move::moves) s ↔ I s ∧ Always step I moves (step s move) := by
  constructor
  · intro h
    constructor
    · exact h [] (move::moves) rfl
    · intro front back hmoves
      exact h (move::front) back (by rw [hmoves]; rfl)
  · rintro ⟨hfirst,hrest⟩ front back hmoves
    cases front with
    | nil => exact hfirst
    | cons first front =>
      obtain ⟨rfl,htail⟩ := List.cons.inj hmoves
      exact hrest front back htail

theorem always_concat (I : σ → Prop) (moves : List μ) (move : μ) (s : σ) :
    Always step I (moves ++ [move]) s ↔
      Always step I moves s ∧ I (after step (moves ++ [move]) s) := by
  induction moves generalizing s with
  | nil =>
    rw [List.nil_append, always_cons, and_comm, and_comm (a := Always step I [] s)]
    simp [Always]
  | cons first moves ih =>
    rw [List.cons_append, always_cons, always_cons, ih, and_assoc]
    rfl

/-- What a move keeps exactly where it meets a state as it should holds all along
the runs whose moves all do. -/
theorem always_iff (I : σ → Prop) (hstep : ∀ s move, I s → (I (step s move) ↔ P s move))
    (moves : List μ) (s : σ) (hs : I s) : Always step I moves s ↔ Throughout step P moves s := by
  induction moves generalizing s with
  | nil =>
    constructor
    · exact fun _ => throughout_nil s
    · intro _ front back hmoves
      obtain ⟨rfl,-⟩ := List.append_eq_nil_iff.mp hmoves.symm
      exact hs
  | cons move moves ih =>
    rw [always_cons, throughout_cons]
    constructor
    · rintro ⟨-,hrest⟩
      have hnext : I (step s move) := hrest [] moves rfl
      exact ⟨(hstep s move hs).mp hnext,(ih _ hnext).mp hrest⟩
    · rintro ⟨hfirst,hrest⟩
      exact ⟨hs,(ih _ ((hstep s move hs).mpr hfirst)).mpr hrest⟩

/-- A consequence of an invariant holds all along the runs that keep the invariant,
where no move that breaks the one spares the other. -/
theorem always_congr {I J : σ → Prop} (hIJ : ∀ s, I s → J s)
    (hstep : ∀ s move, I s → J (step s move) → I (step s move)) (moves : List μ) (s : σ)
    (hs : I s) : Always step I moves s ↔ Always step J moves s := by
  induction moves generalizing s with
  | nil =>
    constructor
    · exact fun h front back hmoves => hIJ _ (h front back hmoves)
    · intro _ front back hmoves
      obtain ⟨rfl,-⟩ := List.append_eq_nil_iff.mp hmoves.symm
      exact hs
  | cons move moves ih =>
    rw [always_cons, always_cons]
    constructor
    · rintro ⟨-,hrest⟩
      have hnext : I (step s move) := hrest [] moves rfl
      exact ⟨hIJ s hs,(ih _ hnext).mp hrest⟩
    · rintro ⟨-,hrest⟩
      have hnext := hstep s move hs (hrest [] moves rfl)
      exact ⟨hs,(ih _ hnext).mpr hrest⟩

/-- Under an invariant two demands on the moves that come to the same may be
exchanged. -/
theorem throughout_congr (I : σ → Prop) (hstep : ∀ s move, I s → I (step s move))
    (hPQ : ∀ s move, I s → (P s move ↔ Q s move)) (moves : List μ) (s : σ) (hs : I s) :
    Throughout step P moves s ↔ Throughout step Q moves s := by
  have hI : Throughout step (fun s _ => I s) moves s := throughout_invariant I hstep moves s hs
  constructor
  · intro h
    exact (hI.and h).mono fun s move hboth => (hPQ s move hboth.1).mp hboth.2
  · intro h
    exact (hI.and h).mono fun s move hboth => (hPQ s move hboth.1).mpr hboth.2

/-- Either no move of a run is of a kind, or there is a last one. -/
theorem last_or_none (P : σ → μ → Prop) (moves : List μ) (s : σ) :
    Throughout step (fun s move => ¬P s move) moves s ∨
      ∃ front move back, moves = front ++ move::back ∧ P (after step front s) move ∧
        Throughout step (fun s move => ¬P s move) back (step (after step front s) move) := by
  induction moves using List.reverseRecOn with
  | nil => exact .inl (throughout_nil s)
  | append_singleton moves move ih =>
    by_cases hlast : P (after step moves s) move
    · exact .inr ⟨moves,move,[],rfl,hlast,throughout_nil _⟩
    rcases ih with hnone | ⟨front,found,back,rfl,hfound,hback⟩
    · left
      rw [throughout_append, throughout_cons]
      exact ⟨hnone,hlast,throughout_nil _⟩
    · right
      refine ⟨front,found,back ++ [move],by simp,hfound,?_⟩
      rw [throughout_append, throughout_cons]
      refine ⟨hback,?_,throughout_nil _⟩
      simpa using hlast

/-- What one kind of moves switches off and another on is off at the end of a run
exactly when something switched it off and nothing after that on again. -/
theorem switched_off_iff (E I : σ → Prop) {Off On : σ → μ → Prop}
    (hkept : ∀ s move, E s → E (step s move))
    (hstep : ∀ s move, E s → (I (step s move) ↔ On s move ∨ ¬Off s move ∧ I s))
    (hapart : ∀ s move, Off s move → ¬On s move) (moves : List μ) (s : σ) (hs : E s) (hI : I s) :
    ¬I (after step moves s) ↔ ∃ early move late, moves = early ++ move::late ∧
      Off (after step early s) move ∧
      Throughout step (fun s move => ¬On s move) late (after step (early ++ [move]) s) := by
  induction moves using List.reverseRecOn with
  | nil => simp [hI]
  | append_singleton moves last ih =>
    rw [after_append, after_cons, after_nil, hstep _ last (after_keeps E hkept moves s hs),
      not_or]
    constructor
    · rintro ⟨hon,hoff⟩
      by_cases hlast : Off (after step moves s) last
      · exact ⟨moves,last,[],rfl,hlast,throughout_nil _⟩
      obtain ⟨early,move,late,rfl,hmove,hlate⟩ := ih.mp fun h => hoff ⟨hlast,h⟩
      refine ⟨early,move,late ++ [last],by simp,hmove,?_⟩
      rw [throughout_append, throughout_cons]
      refine ⟨hlate,?_,throughout_nil _⟩
      simpa using hon
    · rintro ⟨early,move,late,hmoves,hmove,hlate⟩
      cases late using List.reverseRecOn with
      | nil =>
        obtain ⟨rfl,hlast⟩ := List.append_inj' hmoves rfl
        obtain rfl := List.singleton_inj.mp hlast
        exact ⟨hapart _ _ hmove,fun h => h.1 hmove⟩
      | append_singleton late other =>
        have hmoves' : moves ++ [last] = (early ++ move::late) ++ [other] := by
          rw [hmoves, List.append_assoc, List.cons_append]
        obtain ⟨rfl,hlast⟩ := List.append_inj' hmoves' rfl
        obtain rfl := List.singleton_inj.mp hlast
        rw [throughout_append, throughout_cons] at hlate
        constructor
        · simpa using hlate.2.1
        · intro h
          exact ih.mpr ⟨early,move,late,rfl,hmove,hlate.1⟩ h.2

def Since (step : σ → μ → σ) (P : σ → μ → Prop) (I : σ → Prop) (moves : List μ) (s : σ) : Prop :=
  ∃ front move back, moves = front ++ move::back ∧ P (after step front s) move ∧
    Always step I back (step (after step front s) move)

theorem Since.concat {I : σ → Prop} {moves : List μ} {s : σ} (h : Since step P I moves s)
    (move : μ) (hnext : I (after step (moves ++ [move]) s)) :
    Since step P I (moves ++ [move]) s := by
  obtain ⟨front,first,back,rfl,hfirst,hback⟩ := h
  refine ⟨front,first,back ++ [move],by simp,hfirst,?_⟩
  rw [always_concat]
  refine ⟨hback,?_⟩
  simpa using hnext

theorem since_last {I : σ → Prop} {moves : List μ} {s : σ} {move : μ}
    (hmove : P (after step moves s) move) (hnext : I (after step (moves ++ [move]) s)) :
    Since step P I (moves ++ [move]) s := by
  refine ⟨moves,move,[],rfl,hmove,?_⟩
  intro front back hnil
  obtain ⟨rfl,-⟩ := List.append_eq_nil_iff.mp hnil.symm
  simpa using hnext

theorem Since.mono {I J : σ → Prop} {moves : List μ} {s : σ} (h : Since step P I moves s)
    (hIJ : ∀ s, I s → J s) : Since step P J moves s := by
  obtain ⟨front,move,back,hmoves,hmove,hback⟩ := h
  exact ⟨front,move,back,hmoves,hmove,fun early late hlate => hIJ _ (hback early late hlate)⟩

end Runs

import Mathlib.Data.List.Nodup
import Mathlib.Data.List.Infix

/-!
# A log that is cut to its newest entries

The newest entry comes first. A round may add an entry, and may then keep some
number of the first ones; it takes the others away from the newest to the oldest
and can be interrupted there. The number to keep can change from round to round.
-/

set_option autoImplicit false

namespace Retention

variable {α : Type*}

inductive Round (α : Type*) where
  | idle
  | adds (entry : α)
  | trims (entry : α) (keep : ℕ) (cut : Option ℕ)

def Round.entry : Round α → Option α
  | .idle => none
  | .adds entry => some entry
  | .trims entry _ _ => some entry

def Round.Uncut : Round α → Prop
  | .trims _ _ cut => cut = none
  | _ => True

def trim (log : List α) (keep : ℕ) (cut : Option ℕ) : List α :=
  log.take keep ++ cut.elim [] fun n => (log.drop keep).drop n

def step (log : List α) : Round α → List α
  | .idle => log
  | .adds entry => entry::log
  | .trims entry keep cut => trim (entry::log) keep cut

def entries (rounds : List (Round α)) : List α := rounds.filterMap Round.entry

def Displaced : ℕ → List (Round α) → Prop
  | _, [] => False
  | newer, .idle::rest => Displaced newer rest
  | newer, .adds _::rest => Displaced (newer+1) rest
  | newer, .trims _ keep _::rest => keep ≤ newer+1 ∨ Displaced (newer+1) rest

theorem displaced_trims (newer : ℕ) (rounds : List (Round α)) (h : Displaced newer rounds) :
    ∃ entry keep cut, Round.trims entry keep cut ∈ rounds := by
  induction rounds generalizing newer with
  | nil => cases h
  | cons round rest ih =>
    cases round with
    | idle =>
      obtain ⟨entry,keep,cut,hmem⟩ := ih newer h
      exact ⟨entry,keep,cut,List.mem_cons_of_mem _ hmem⟩
    | adds added =>
      obtain ⟨entry,keep,cut,hmem⟩ := ih (newer+1) h
      exact ⟨entry,keep,cut,List.mem_cons_of_mem _ hmem⟩
    | trims entry keep cut => exact ⟨entry,keep,cut,List.mem_cons_self⟩

theorem trim_sublist (log : List α) (keep : ℕ) (cut : Option ℕ) :
    (trim log keep cut).Sublist log := by
  conv_rhs => rw [← List.take_append_drop keep log]
  cases cut with
  | none => exact (List.Sublist.refl _).append (List.nil_sublist _)
  | some n => exact (List.Sublist.refl _).append (List.drop_sublist n _)

theorem step_sublist (log : List α) (round : Round α) :
    (step log round).Sublist (round.entry.toList ++ log) := by
  cases round with
  | idle => exact List.Sublist.refl _
  | adds entry => exact List.Sublist.refl _
  | trims entry keep cut => exact trim_sublist (entry::log) keep cut

theorem entries_cons (round : Round α) (rest : List (Round α)) :
    entries (round::rest) = round.entry.toList ++ entries rest := by
  cases round <;> rfl

theorem run_sublist (log : List α) (rounds : List (Round α)) :
    (rounds.foldl step log).Sublist ((entries rounds).reverse ++ log) := by
  induction rounds generalizing log with
  | nil => exact List.Sublist.refl _
  | cons round rest ih =>
    have hone : round.entry.toList.reverse = round.entry.toList := by cases round.entry <;> rfl
    rw [List.foldl_cons, entries_cons, List.reverse_append, hone, List.append_assoc]
    exact (ih (step log round)).trans ((List.Sublist.refl _).append (step_sublist log round))

theorem trim_stays (front back : List α) (a : α) (keep : ℕ) (cut : Option ℕ)
    (h : front.length < keep) : ∃ back', trim (front ++ a::back) keep cut = front ++ a::back' := by
  obtain ⟨more,rfl⟩ := Nat.exists_eq_add_of_lt h
  have htake : (front ++ a::back).take (front.length+more+1) = front ++ a::back.take more := by
    rw [Nat.add_assoc, List.take_length_add_append, List.take_succ_cons]
  rw [trim, htake, List.append_assoc, List.cons_append]
  exact ⟨_,rfl⟩

/-- An entry with no more than so many before it stays as long as it is not displaced. -/
theorem stays (front back : List α) (a : α) (newer : ℕ) (rounds : List (Round α))
    (hfront : front.length ≤ newer) (h : ¬Displaced newer rounds) :
    a ∈ rounds.foldl step (front ++ a::back) := by
  induction rounds generalizing front back newer with
  | nil => simp
  | cons round rest ih =>
    rw [List.foldl_cons]
    cases round with
    | idle => exact ih front back newer hfront h
    | adds entry => exact ih (entry::front) back (newer+1) (Nat.succ_le_succ hfront) h
    | trims entry keep cut =>
      obtain ⟨hkeep,hrest⟩ := not_or.mp h
      have hfits : (entry::front).length < keep := by
        rw [List.length_cons]
        omega
      obtain ⟨back',htrim⟩ := trim_stays (entry::front) back a keep cut hfits
      change a ∈ rest.foldl step (trim (entry::front ++ a::back) keep cut)
      rw [htrim]
      exact ih (entry::front) back' (newer+1) (Nat.succ_le_succ hfront) hrest

/-- Where no round is interrupted, what is displaced is gone with all that is older. -/
theorem displaced_gone (front back : List α) (rounds : List (Round α))
    (huncut : ∀ round ∈ rounds, round.Uncut) (h : Displaced front.length rounds) :
    (rounds.foldl step (front++back)).Sublist ((entries rounds).reverse ++ front) := by
  induction rounds generalizing front back with
  | nil => cases h
  | cons round rest ih =>
    have hrest := fun r hr => huncut r (List.mem_cons_of_mem _ hr)
    rw [List.foldl_cons, entries_cons, List.reverse_append, List.append_assoc]
    cases round with
    | idle => exact ih front back hrest h
    | adds entry => exact ih (entry::front) back hrest h
    | trims entry keep cut =>
      obtain rfl : cut = none := huncut _ List.mem_cons_self
      have htrim : step (front++back) (.trims entry keep none) =
          (entry::front ++ back).take keep := List.append_nil _
      rw [htrim, List.take_append]
      by_cases hkeep : keep ≤ front.length+1
      · rw [show keep - (entry::front).length = 0 by rw [List.length_cons]; omega, List.take_zero,
          List.append_nil]
        exact (run_sublist _ rest).trans
          ((List.Sublist.refl _).append (List.take_sublist keep (entry::front)))
      · rw [List.take_of_length_le (by rw [List.length_cons]; omega)]
        exact ih (entry::front) _ hrest (h.resolve_left hkeep)

/-- What is left of a run that nothing interrupts, where no entry comes twice. -/
theorem mem_run_iff (front back : List α) (a : α) (rounds : List (Round α))
    (huncut : ∀ round ∈ rounds, round.Uncut)
    (honce : ((entries rounds).reverse ++ front ++ a::back).Nodup) :
    a ∈ rounds.foldl step (front ++ a::back) ↔ ¬Displaced front.length rounds := by
  constructor
  · intro hmem hgone
    have hold := (displaced_gone front (a::back) rounds huncut hgone).subset hmem
    exact (List.nodup_append.mp honce).2.2 a hold a List.mem_cons_self rfl
  · exact stays front back a front.length rounds le_rfl

end Retention

import Mathlib.Algebra.BigOperators.Group.Finset.Basic
import Mathlib.Data.List.Count
import Mathlib.Logic.Function.Iterate

/-!
# Processes over a shared state

Any number of processes take turns at one state, in an order somebody else
decides. Where the state falls into parts and each process acts on its own part
alone, no order can be told from another: a process does what it would do alone,
as often as it is scheduled.
-/

set_option autoImplicit false

namespace Interleaving

variable {ι σ α τ : Type*} [DecidableEq ι]

/-- One act of a process is an act on what it remembers and on the shared state. -/
def step (act : ι → α × σ → α × σ) (s : (ι → α) × σ) (i : ι) : (ι → α) × σ :=
  let (a,shared) := act i (s.1 i,s.2)
  (Function.update s.1 i a,shared)

def run (act : ι → α × σ → α × σ) (schedule : List ι) (s : (ι → α) × σ) : (ι → α) × σ :=
  schedule.foldl (step act) s

/-- The shared state is made of parts, as `Parts` says, and every act is one on
the part of its own process. -/
def Separate (act : ι → α × σ → α × σ) (Parts : σ → (ι → τ) → Prop)
    (own : ι → α × τ → α × τ) : Prop :=
  ∀ i a shared parts, Parts shared parts →
    (act i (a,shared)).1 = (own i (a,parts i)).1 ∧
      Parts (act i (a,shared)).2 (Function.update parts i (own i (a,parts i)).2)

section
variable {act : ι → α × σ → α × σ} {Parts : σ → (ι → τ) → Prop} {own : ι → α × τ → α × τ}

/-- Under any schedule a process has come as far as its own acts take it. -/
theorem run_own (h : Separate act Parts own) (schedule : List ι) (locals : ι → α) (shared : σ)
    (parts : ι → τ) (hparts : Parts shared parts) :
    ∃ parts', Parts (run act schedule (locals,shared)).2 parts' ∧ ∀ i,
      ((run act schedule (locals,shared)).1 i,parts' i) =
        (own i)^[schedule.count i] (locals i,parts i) := by
  induction schedule generalizing locals shared parts with
  | nil => exact ⟨parts,hparts,fun i => rfl⟩
  | cons j rest ih =>
    obtain ⟨hlocal,hparts'⟩ := h j (locals j) shared parts hparts
    obtain ⟨last,hlast,hcount⟩ :=
      ih (Function.update locals j (act j (locals j,shared)).1) _ _ hparts'
    refine ⟨last,hlast,fun i => (hcount i).trans ?_⟩
    by_cases hi : i = j
    · subst hi
      rw [List.count_cons_self, Function.iterate_succ_apply, Function.update_self,
        Function.update_self, hlocal]
    · rw [List.count_cons_of_ne (Ne.symm hi), Function.update_of_ne hi, Function.update_of_ne hi]

/-- A process cannot tell two runs apart in which it begins alike and acts as
often, whatever the others are and do in either. -/
theorem run_agree (h : Separate act Parts own) (i : ι) (schedule schedule' : List ι)
    (hcount : schedule.count i = schedule'.count i) (locals locals' : ι → α)
    (hlocal : locals i = locals' i) (shared shared' : σ) (parts parts' : ι → τ)
    (hparts : Parts shared parts) (hparts' : Parts shared' parts') (hpart : parts i = parts' i) :
    (run act schedule (locals,shared)).1 i = (run act schedule' (locals',shared')).1 i ∧
      ∃ last last', Parts (run act schedule (locals,shared)).2 last ∧
        Parts (run act schedule' (locals',shared')).2 last' ∧ last i = last' i := by
  obtain ⟨last,hlast,hown⟩ := run_own h schedule locals shared parts hparts
  obtain ⟨last',hlast',hown'⟩ := run_own h schedule' locals' shared' parts' hparts'
  have hboth := (hown i).trans ((congrArg₂ (fun n x => (own i)^[n] x) hcount
    (by rw [hlocal, hpart])).trans (hown' i).symm)
  exact ⟨congrArg Prod.fst hboth,last,last',hlast,hlast',congrArg Prod.snd hboth⟩

end

theorem run_replicate (act : ι → α × σ → α × σ) (i : ι) (n : ℕ) (locals : ι → α) (shared : σ) :
    run act (List.replicate n i) (locals,shared) =
      (Function.update locals i ((act i)^[n] (locals i,shared)).1,
        ((act i)^[n] (locals i,shared)).2) := by
  induction n generalizing locals shared with
  | zero => simp [run]
  | succ n ih =>
    rw [List.replicate_succ, Function.iterate_succ_apply]
    refine (ih _ _).trans ?_
    simp

theorem sum_share_update {γ : Type*} (share : γ → α → ℕ) (S : Finset ι) (i : ι) (hi : i ∈ S)
    (ghosts : ι → γ) (locals : ι → α) (g : γ) (a : α) :
    ∑ j ∈ S, share (Function.update ghosts i g j) (Function.update locals i a j) +
        share (ghosts i) (locals i) = ∑ j ∈ S, share (ghosts j) (locals j)+share g a := by
  have hothers : ∑ j ∈ S.erase i, share (Function.update ghosts i g j)
      (Function.update locals i a j) = ∑ j ∈ S.erase i, share (ghosts j) (locals j) := by
    apply Finset.sum_congr rfl
    intro j hj
    rw [Function.update_of_ne (Finset.ne_of_mem_erase hj),
      Function.update_of_ne (Finset.ne_of_mem_erase hj)]
  rw [← Finset.add_sum_erase S _ hi, ← Finset.add_sum_erase S (fun j => share (ghosts j) (locals j))
    hi, hothers, Function.update_self, Function.update_self]
  omega

/-- Where every act moves a shared total by what it changes of its own share, the
total moves by what all the shares changed. A ghost tells more of a local state
than is in it. -/
theorem run_sum {γ : Type*} {act : ι → α × σ → α × σ} (total : σ → ℕ) (share : γ → α → ℕ)
    (I : γ → α → Prop)
    (hact : ∀ i g a s, I g a → ∃ g', I g' (act i (a,s)).1 ∧
      total (act i (a,s)).2+share g a = total s+share g' (act i (a,s)).1)
    (S : Finset ι) (schedule : List ι) (hS : ∀ i ∈ schedule, i ∈ S) (locals : ι → α) (shared : σ)
    (ghosts : ι → γ) (hI : ∀ i, I (ghosts i) (locals i)) :
    ∃ ghosts' : ι → γ, (∀ i, I (ghosts' i) ((run act schedule (locals,shared)).1 i)) ∧
      total (run act schedule (locals,shared)).2+∑ i ∈ S, share (ghosts i) (locals i) =
        total shared+∑ i ∈ S, share (ghosts' i) ((run act schedule (locals,shared)).1 i) := by
  induction schedule generalizing locals shared ghosts with
  | nil => exact ⟨ghosts,hI,rfl⟩
  | cons i schedule ih =>
    obtain ⟨g,hg,hmoved⟩ := hact i (ghosts i) (locals i) shared (hI i)
    have hnext : ∀ j, I (Function.update ghosts i g j)
        (Function.update locals i (act i (locals i,shared)).1 j) := by
      intro j
      by_cases hj : j = i
      · subst hj
        simpa using hg
      · simpa [hj] using hI j
    obtain ⟨ghosts',hI',hrest⟩ := ih (fun j hj => hS j (List.mem_cons_of_mem i hj)) _
      (act i (locals i,shared)).2 _ hnext
    refine ⟨ghosts',hI',?_⟩
    have hupdate := sum_share_update share S i (hS i List.mem_cons_self) ghosts locals g
      (act i (locals i,shared)).1
    have hrun : run act (i::schedule) (locals,shared) = run act schedule
        (Function.update locals i (act i (locals i,shared)).1,(act i (locals i,shared)).2) := rfl
    rw [hrun]
    omega

theorem stuck_stays {β : Type*} (f : β → β) (x : β) (m n : ℕ) (hm : f (f^[m] x) = f^[m] x)
    (hle : m ≤ n) : f^[n] x = f^[m] x := by
  obtain ⟨k,rfl⟩ := Nat.exists_eq_add_of_le' hle
  rw [Function.iterate_add_apply]
  exact Function.iterate_fixed hm k

/-- Two stages of one process at which it has nothing left to do are the same. -/
theorem stuck_unique {β : Type*} (f : β → β) (x : β) (m n : ℕ)
    (hm : f (f^[m] x) = f^[m] x) (hn : f (f^[n] x) = f^[n] x) : f^[m] x = f^[n] x := by
  wlog hle : m ≤ n generalizing m n
  · exact (this n m hn hm (by omega)).symm
  · exact (stuck_stays f x m n hm hle).symm

end Interleaving

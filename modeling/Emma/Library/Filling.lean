import Mathlib.Data.List.Basic

/-!
# Filling a space in order

Items are taken one after another. One that does not fit behind those taken so
far is left out, and the next is tried.
-/

set_option autoImplicit false

namespace Filling

variable {α : Type*} (capacity : ℕ) (size : α → ℕ)

def total : List α → ℕ
  | [] => 0
  | item::items => size item+total items

def fill : ℕ → List α → List α
  | _, [] => []
  | used, item::items =>
    if capacity < used+size item then fill used items
    else item::fill (used+size item) items

theorem total_cons (item : α) (items : List α) :
    total size (item::items) = size item+total size items := rfl

theorem fill_append (used : ℕ) (front back : List α) :
    fill capacity size used (front ++ back) = fill capacity size used front ++
      fill capacity size (used+total size (fill capacity size used front)) back := by
  induction front generalizing used with
  | nil => rfl
  | cons item front ih =>
    rw [List.cons_append, fill, fill]
    by_cases hfull : capacity < used+size item
    · rw [if_pos hfull, if_pos hfull, ih]
    · rw [if_neg hfull, if_neg hfull, ih, total_cons, List.cons_append, Nat.add_assoc]

theorem fill_sublist (used : ℕ) (items : List α) :
    (fill capacity size used items).Sublist items := by
  induction items generalizing used with
  | nil => exact List.Sublist.refl _
  | cons item items ih =>
    rw [fill]
    split
    · exact (ih used).cons item
    · exact (ih _).cons_cons item

theorem fill_total (used : ℕ) (items : List α) (h : used ≤ capacity) :
    used+total size (fill capacity size used items) ≤ capacity := by
  induction items generalizing used with
  | nil => simpa [fill, total] using h
  | cons item items ih =>
    rw [fill]
    by_cases hfull : capacity < used+size item
    · rw [if_pos hfull]
      exact ih used h
    · rw [if_neg hfull, total_cons, ← Nat.add_assoc]
      exact ih _ (by omega)

/-- What is left out does not fit behind what was taken before it. -/
theorem fill_left {used : ℕ} {items : List α} {item : α} (hmem : item ∈ items)
    (hleft : item ∉ fill capacity size used items) :
    ∃ front back, items = front ++ item::back ∧
      capacity < used+total size (fill capacity size used front)+size item := by
  obtain ⟨front,back,rfl⟩ := List.append_of_mem hmem
  use front, back, rfl
  by_contra hfits
  apply hleft
  rw [fill_append, fill, if_neg hfits]
  simp

theorem fill_all (used : ℕ) (items : List α) (h : used+total size items ≤ capacity) :
    fill capacity size used items = items := by
  induction items generalizing used with
  | nil => rfl
  | cons item items ih =>
    rw [total_cons] at h
    rw [fill, if_neg (by omega), ih _ (by omega)]

end Filling

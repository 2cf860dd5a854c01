import Mathlib.Data.List.Sort
import Mathlib.Data.List.Count

/-!
# Places in a sorted list

Sorted from the greatest down, what comes behind the first places is what has
more entries at or above it than there are places. Equal entries are at each
other's height.
-/

set_option autoImplicit false

namespace Ranking

variable {α : Type*} (le : α → α → Bool)

def sortDown (l : List α) : List α := l.insertionSort fun a b => le b a = true

theorem perm_sortDown (l : List α) : (sortDown le l).Perm l := l.perm_insertionSort _

theorem mem_drop_sorted (hrefl : ∀ a, le a a = true)
    (hanti : ∀ a b, le a b = true → le b a = true → a = b) (l : List α)
    (hsorted : l.Pairwise fun a b => le b a = true) (k : ℕ) (x : α) :
    x ∈ l.drop k ↔ x ∈ l ∧ k < l.countP (le x) := by
  induction l generalizing k with
  | nil => simp
  | cons a l ih =>
    obtain ⟨hfirst,hrest⟩ := List.pairwise_cons.mp hsorted
    cases k with
    | zero =>
      rw [List.drop_zero, List.countP_pos_iff]
      exact ⟨fun h => ⟨h,x,h,hrefl x⟩,And.left⟩
    | succ k =>
      rw [List.drop_succ_cons, ih hrest]
      by_cases hxa : le x a = true
      · rw [List.countP_cons_of_pos hxa]
        constructor
        · rintro ⟨hx,hk⟩
          exact ⟨List.mem_cons_of_mem a hx,by omega⟩
        · rintro ⟨hx,hk⟩
          have hcount : k < l.countP (le x) := by omega
          rcases List.mem_cons.mp hx with rfl | hx
          · obtain ⟨y,hy,hxy⟩ := List.countP_pos_iff.mp (Nat.zero_lt_of_lt hcount)
            obtain rfl := hanti x y hxy (hfirst y hy)
            exact ⟨hy,hcount⟩
          · exact ⟨hx,hcount⟩
      · rw [List.countP_cons_of_neg hxa]
        have hgone : x ∉ l := fun hx => hxa (hfirst x hx)
        apply iff_of_false
        · exact fun h => hgone h.1
        · rintro ⟨hx,-⟩
          rcases List.mem_cons.mp hx with rfl | hx
          · exact hxa (hrefl x)
          · exact hgone hx

theorem mem_drop_sortDown (htrans : ∀ a b c, le a b = true → le b c = true → le a c = true)
    (htotal : ∀ a b, le a b = true ∨ le b a = true)
    (hanti : ∀ a b, le a b = true → le b a = true → a = b) (l : List α) (k : ℕ) (x : α) :
    x ∈ (sortDown le l).drop k ↔ x ∈ l ∧ k < l.countP (le x) := by
  have : Std.Total fun a b => le b a = true := ⟨fun a b => htotal b a⟩
  have : IsTrans α fun a b => le b a = true := ⟨fun a b c hab hbc => htrans c b a hbc hab⟩
  have hrefl : ∀ a, le a a = true := fun a => or_self_iff.mp (htotal a a)
  have hsorted := List.pairwise_insertionSort (fun a b => le b a = true) l
  have hperm := perm_sortDown le l
  rw [mem_drop_sorted le hrefl hanti (sortDown le l) hsorted, hperm.mem_iff, hperm.countP_eq]

end Ranking

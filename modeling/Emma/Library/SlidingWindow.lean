import Mathlib.Data.List.DropRight

/-!
# Sliding windows over a log

A log is cut to its last records and then loses the leading ones that may not
open it. Cutting after every append and cutting the whole log once give the
same window, so a store may forget records as it goes without ever having to
look at what it forgot.
-/

set_option autoImplicit false

namespace SlidingWindow

variable {α : Type*} (opens : α → Bool) (n : ℕ)

def window (log : List α) : List α :=
  (log.rtake n).dropWhile (fun x => !opens x)

@[simp] theorem window_nil : window opens n [] = [] := by
  simp [window]

theorem rtake_append (front back : List α) :
    (front++back).rtake n = front.drop (front.length+back.length-n) ++ back.rtake n := by
  rw [List.rtake, List.drop_append, List.length_append, List.rtake]
  congr 2
  omega

theorem rtake_of_length_le (log : List α) (h : log.length ≤ n) : log.rtake n = log := by
  simp [List.rtake, Nat.sub_eq_zero_of_le h]

/-- Whatever is left of a log starts on a record that may open it. -/
theorem window_head (log : List α) (x : α) (hx : (window opens n log).head? = some x) :
    opens x = true := by
  have h := List.head?_dropWhile_not (fun x => !opens x) (log.rtake n)
  rw [show (log.rtake n).dropWhile (fun x => !opens x) = window opens n log from rfl, hx] at h
  simpa using h

/-- A prefix that may not open the log does not matter to its window. -/
theorem window_drop_closed (front back : List α) (h : ∀ x ∈ front, opens x = false) :
    window opens n (front++back) = window opens n back := by
  rw [window, rtake_append]
  exact List.dropWhile_append_of_pos (fun x hx => by simp [h x (List.mem_of_mem_drop hx)])

theorem rtake_rtake_append (log more : List α) :
    (log.rtake n ++ more).rtake n = (log++more).rtake n := by
  have hsplit : log = log.take (log.length-n) ++ log.rtake n := (List.take_append_drop _ _).symm
  conv_rhs => rw [hsplit, List.append_assoc, rtake_append]
  have hgone : (log.take (log.length-n)).drop
      ((log.take (log.length-n)).length+(log.rtake n ++ more).length-n) = [] := by
    apply List.drop_eq_nil_of_le
    simp only [List.rtake, List.length_take, List.length_append, List.length_drop]
    omega
  rw [hgone, List.nil_append]

theorem window_window_append (log more : List α) :
    window opens n (window opens n log ++ more) = window opens n (log++more) := by
  have hfull : window opens n (log.rtake n ++ more) = window opens n (log++more) := by
    rw [window, window, rtake_rtake_append]
  have hsplit : log.rtake n = (log.rtake n).takeWhile (fun x => !opens x) ++ window opens n log :=
    (List.takeWhile_append_dropWhile).symm
  rw [← hfull, hsplit, List.append_assoc]
  refine (window_drop_closed opens n _ _ fun x hx => ?_).symm
  simpa using List.mem_takeWhile_imp hx

@[simp] theorem window_window (log : List α) :
    window opens n (window opens n log) = window opens n log := by
  simpa using window_window_append opens n log []

/-- A window can be taken before or after its records are read off. -/
theorem window_map {β : Type*} (f : β → α) (log : List β) :
    window opens n (log.map f) = (window (fun x => opens (f x)) n log).map f := by
  simp only [window, List.rtake, List.length_map, ← List.map_drop, List.dropWhile_map]
  rfl

/-- A stretch at the end of the log that may open it, and fits, is kept. -/
theorem window_keeps (log back : List α) (x : α) (hx : opens x = true)
    (hfits : (x::back).length ≤ n) : x::back <:+ window opens n (log ++ x::back) := by
  have hstretch : (x::back).dropWhile (fun y => !opens y) = x::back := by simp [hx]
  rw [window, rtake_append, rtake_of_length_le n _ hfits, List.dropWhile_append]
  split
  · exact ⟨[],by rw [hstretch, List.nil_append]⟩
  · exact List.suffix_append _ _

/-- A window of one record has nothing in it where the last record may not open it. -/
theorem window_one (log : List α) (x : α) (hx : opens x = false) :
    window opens 1 (log ++ [x]) = [] := by
  have hlast : (log ++ [x]).rtake 1 = [x] := by
    rw [rtake_append, rtake_of_length_le 1 [x] (by simp), List.drop_eq_nil_of_le (by simp),
      List.nil_append]
  simp [window, hlast, hx]

/-- Where a log is made of stretches that may be opened at their first record
only, a window of it is made of the last of them, each whole. -/
theorem window_flatMap {β : Type*} (stretch : β → List α)
    (hfirst : ∀ b, ∀ x ∈ (stretch b).head?, opens x = true)
    (hrest : ∀ b, ∀ x ∈ (stretch b).tail, opens x = false) (items : List β) :
    ∃ recent, recent <:+ items ∧
      window opens n (items.flatMap stretch) = recent.flatMap stretch := by
  induction items with
  | nil => exact ⟨[],List.suffix_rfl,by simp⟩
  | cons b items ih =>
    obtain ⟨recent,hrecent,hwindow⟩ := ih
    rw [List.flatMap_cons]
    by_cases hfits : (stretch b ++ items.flatMap stretch).length ≤ n
    · cases hb : stretch b with
      | nil =>
        use recent, hrecent.trans (List.suffix_cons b items)
        rw [List.nil_append, hwindow]
      | cons x back =>
        use b::items, List.suffix_rfl
        have hx : opens x = true := hfirst b x (by simp [hb])
        rw [window, rtake_of_length_le n _ (hb ▸ hfits), List.flatMap_cons, hb]
        simp [hx]
    · -- the cut falls behind the first record, so what is left of this stretch goes too
      use recent, hrecent.trans (List.suffix_cons b items)
      rw [← hwindow, window, rtake_append]
      apply List.dropWhile_append_of_pos
      intro x hx
      rw [List.length_append] at hfits
      have htail : x ∈ (stretch b).tail := by
        rw [← List.drop_one]
        exact (List.drop_sublist_drop_left _ (by omega)).subset hx
      simp [hrest b x htail]

end SlidingWindow

import Emma.Library.Delimited

/-!
# A text of keyed lines

Each line is a key, a mark and a value. Of a text that was written only in part, the
fields whose mark has come are read, the last of them with what has come of its value.
-/

set_option autoImplicit false

namespace KeyedLines

variable {α : Type*}

def arrived : List (List α × List α) → ℕ → List (List α × List α)
  | [], _ => []
  | field::rest, n =>
    if n ≤ field.1.length then []
    else (field.1,field.2.take (n-(field.1.length+1)))::
      arrived rest (n-(field.1.length+field.2.length+2))

theorem arrived_zero (fields : List (List α × List α)) : arrived fields 0 = [] := by
  cases fields with
  | nil => rfl
  | cons field rest => rw [arrived, if_pos (Nat.zero_le _)]

theorem arrived_keys (fields : List (List α × List α)) (n : ℕ) :
    (arrived fields n).map Prod.fst <+: fields.map Prod.fst := by
  induction fields generalizing n with
  | nil => exact List.prefix_refl _
  | cons field rest ih =>
    rw [arrived]
    split
    · exact List.nil_prefix
    · exact (List.prefix_cons_inj _).mpr (ih _)

variable [DecidableEq α] (p : α → Bool) (mark stop : α)

def cut (line : List α) : Option (List α × List α) :=
  if mark ∈ line then some (line.takeWhile (· ≠ mark),(line.dropWhile (· ≠ mark)).tail) else none

def pairs (text : List α) : List (List α × List α) := (text.splitOnP p).filterMap (cut mark)

def render (fields : List (List α × List α)) : List α :=
  fields.flatMap fun field => field.1 ++ mark::(field.2 ++ [stop])

structure Plain (field : List α × List α) : Prop where
  key : ∀ a ∈ field.1, p a = false ∧ a ≠ mark
  value : ∀ a ∈ field.2, p a = false

variable {p mark stop}

theorem cut_line (key value : List α) (h : mark ∉ key) :
    cut mark (key ++ mark::value) = some (key,value) := by
  have hkey : ∀ a ∈ key, decide (a ≠ mark) = true :=
    fun a ha => decide_eq_true fun hsame => h (hsame ▸ ha)
  rw [cut, if_pos (by simp), List.takeWhile_append_of_pos hkey, List.dropWhile_append_of_pos hkey]
  simp

theorem cut_none (line : List α) (h : mark ∉ line) : cut mark line = none := if_neg h

theorem pairs_take (hmark : p mark = false) (hstop : p stop = true)
    (fields : List (List α × List α)) (hfields : ∀ field ∈ fields, Plain p mark field) (n : ℕ) :
    pairs p mark ((render mark stop fields).take n) = arrived fields n := by
  induction fields generalizing n with
  | nil => simp [render, pairs, arrived, cut]
  | cons field rest ih =>
    obtain ⟨hkey,hvalue⟩ := hfields field List.mem_cons_self
    have hnone : mark ∉ field.1 := fun hin => (hkey mark hin).2 rfl
    have htext : render mark stop (field::rest) =
        field.1 ++ mark::(field.2 ++ stop::render mark stop rest) := by
      simp [render]
    rw [htext, arrived]
    split
    · rename_i hshort
      have hline : ∀ a ∈ field.1.take n, p a = false :=
        fun a ha => (hkey a (List.mem_of_mem_take ha)).1
      rw [List.take_append_of_le_length hshort, pairs, List.splitOnP_eq_singleton hline,
        List.filterMap_cons_none (cut_none _ fun hin => hnone (List.mem_of_mem_take hin))]
      rfl
    · rename_i hlong
      obtain ⟨m,rfl⟩ := Nat.exists_eq_add_of_lt (Nat.lt_of_not_le hlong)
      rw [Nat.add_assoc, List.take_length_add_append, List.take_succ_cons]
      by_cases hvalued : m ≤ field.2.length
      · have hline : ∀ a ∈ field.1 ++ mark::field.2.take m, p a = false := by
          intro a ha
          rw [List.mem_append, List.mem_cons] at ha
          rcases ha with ha | rfl | ha
          · exact (hkey a ha).1
          · exact hmark
          · exact hvalue a (List.mem_of_mem_take ha)
        rw [List.take_append_of_le_length hvalued, pairs, List.splitOnP_eq_singleton hline,
          List.filterMap_cons_some (cut_line _ _ hnone), List.filterMap_nil]
        rw [show field.1.length+(m+1)-(field.1.length+1) = m by omega,
          show field.1.length+(m+1)-(field.1.length+field.2.length+2) = 0 by omega, arrived_zero]
      · obtain ⟨j,rfl⟩ := Nat.exists_eq_add_of_lt (Nat.lt_of_not_le hvalued)
        have hline : ∀ a ∈ field.1 ++ mark::field.2, p a = false := by
          intro a ha
          rw [List.mem_append, List.mem_cons] at ha
          rcases ha with ha | rfl | ha
          · exact (hkey a ha).1
          · exact hmark
          · exact hvalue a ha
        have hrest := ih (fun f hf => hfields f (List.mem_cons_of_mem _ hf)) j
        rw [Nat.add_assoc, List.take_length_add_append, List.take_succ_cons, ← List.cons_append,
          ← List.append_assoc, pairs, List.splitOnP_append_cons _ _ hstop,
          List.splitOnP_eq_singleton hline, List.singleton_append,
          List.filterMap_cons_some (cut_line _ _ hnone), ← pairs, hrest,
          List.take_of_length_le (by omega)]
        congr 2
        omega

def offset : List (List α × List α) → List α → ℕ
  | [], key => key.length+1
  | field::front, key => field.1.length+field.2.length+2+offset front key

theorem lookup_arrived (front back : List (List α × List α)) (key value : List α)
    (hfirst : key ∉ front.map Prod.fst) (n : ℕ) :
    ((arrived (front ++ (key,value)::back) n).lookup key).getD [] =
      value.take (n-offset front key) := by
  induction front generalizing n with
  | nil =>
    rw [List.nil_append, arrived]
    split
    · rename_i hshort
      have hshort' : n ≤ key.length := hshort
      rw [show n-offset [] key = 0 by simp [offset]; omega]
      rfl
    · simp [offset]
  | cons field front ih =>
    rw [List.map_cons, List.mem_cons, not_or] at hfirst
    rw [List.cons_append, arrived]
    split
    · rename_i hshort
      rw [show n-offset (field::front) key = 0 by simp [offset]; omega]
      rfl
    · rw [List.lookup_cons, beq_false_of_ne hfirst.1, ih hfirst.2]
      congr 1
      simp [offset]
      omega

end KeyedLines

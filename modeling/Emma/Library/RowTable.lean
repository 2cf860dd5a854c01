import Mathlib.Data.List.Nodup
import Mathlib.Data.List.Basic

/-!
# Tables keyed by an autoincrement id

A table keeps its rows in the order of their ids and remembers the largest id
it ever handed out, so an id is never given twice, not even after its row is
gone. Selecting needs no sort: the storage order is the id order.
-/

set_option autoImplicit false

@[ext] structure RowTable (ρ : Type*) where
  rows : List (ℕ × ρ)
  seq : ℕ
  ordered : (rows.map Prod.fst).Pairwise (· < ·)
  bounded : ∀ row ∈ rows, row.1 ≤ seq
  deriving DecidableEq

namespace RowTable

variable {ρ : Type*}

instance : EmptyCollection (RowTable ρ) := ⟨⟨[],0,by simp,by simp⟩⟩

theorem ids_nodup (t : RowTable ρ) : (t.rows.map Prod.fst).Nodup :=
  t.ordered.imp (fun h => Nat.ne_of_lt h)

/-- `INSERT`: the new row gets the next id, which is also its position. -/
def insert (t : RowTable ρ) (content : ρ) : RowTable ρ where
  rows := t.rows ++ [(t.seq+1,content)]
  seq := t.seq+1
  ordered := by
    rw [List.map_append, List.pairwise_append]
    refine ⟨t.ordered,by simp,?_⟩
    intro a ha b hb
    obtain ⟨row,hrow,rfl⟩ := List.mem_map.mp ha
    have := t.bounded row hrow
    simp only [List.map_cons, List.map_nil, List.mem_singleton] at hb
    omega
  bounded := by
    intro row hrow
    rcases List.mem_append.mp hrow with h | h
    · exact Nat.le_succ_of_le (t.bounded row h)
    · simp only [List.mem_singleton] at h
      simp [h]

/-- `DELETE ... WHERE`. -/
def delete (t : RowTable ρ) (p : ℕ × ρ → Bool) : RowTable ρ where
  rows := t.rows.filter (fun row => !p row)
  seq := t.seq
  ordered := t.ordered.sublist (List.filter_sublist.map _)
  bounded := fun row h => t.bounded row (List.mem_of_mem_filter h)

/-- `UPDATE ... SET ... WHERE`: contents change, ids do not. -/
def update (t : RowTable ρ) (p : ℕ × ρ → Bool) (f : ρ → ρ) : RowTable ρ where
  rows := t.rows.map (fun row => if p row then (row.1,f row.2) else row)
  seq := t.seq
  ordered := by
    rw [List.map_map, show Prod.fst ∘ (fun row => if p row then (row.1,f row.2) else row) =
      (Prod.fst : ℕ × ρ → ℕ) from funext fun row => by simp only [Function.comp]; split <;> rfl]
    exact t.ordered
  bounded := by
    intro row hrow
    obtain ⟨old,hold,rfl⟩ := List.mem_map.mp hrow
    have := t.bounded old hold
    split <;> exact this

/-- `SELECT ... WHERE ... ORDER BY id`. -/
def select (t : RowTable ρ) (p : ℕ × ρ → Bool) : List (ℕ × ρ) := t.rows.filter p

@[simp] theorem insert_rows (t : RowTable ρ) (content : ρ) :
    (insert t content).rows = t.rows ++ [(t.seq+1,content)] := rfl

@[simp] theorem insert_seq (t : RowTable ρ) (content : ρ) :
    (insert t content).seq = t.seq+1 := rfl

theorem select_insert (t : RowTable ρ) (content : ρ) (p : ℕ × ρ → Bool) :
    select (insert t content) p =
      select t p ++ if p (t.seq+1,content) then [(t.seq+1,content)] else [] := by
  rw [select, select, insert_rows, List.filter_append]
  congr 1
  cases h : p (t.seq+1,content) <;> simp [h]

theorem select_delete (t : RowTable ρ) (p q : ℕ × ρ → Bool) :
    select (delete t q) p = (select t p).filter (fun row => !q row) := by
  simp only [select, delete, List.filter_filter, Bool.and_comm]

theorem select_delete_other (t : RowTable ρ) (p q : ℕ × ρ → Bool)
    (h : ∀ row ∈ select t p, q row = false) : select (delete t q) p = select t p := by
  rw [select_delete]
  exact List.filter_eq_self.mpr (fun row hrow => by simp [h row hrow])

theorem select_ids_nodup (t : RowTable ρ) (p : ℕ × ρ → Bool) :
    ((select t p).map Prod.fst).Nodup :=
  (ids_nodup t).sublist (List.filter_sublist.map _)

/-- Deleting by id the first rows a query returns drops exactly them. -/
theorem select_delete_first (t : RowTable ρ) (p : ℕ × ρ → Bool) (k : ℕ) :
    select (delete t fun row => decide (row.1 ∈ ((select t p).take k).map Prod.fst)) p =
      (select t p).drop k := by
  have hnodup := select_ids_nodup t p
  rw [select_delete]
  generalize select t p = found at hnodup
  rw [← List.take_append_drop k found, List.map_append, List.nodup_append] at hnodup
  conv_lhs => rw [← List.take_append_drop k found]
  rw [List.filter_append, List.take_append_drop]
  have hgone : (found.take k).filter
      (fun row => !decide (row.1 ∈ (found.take k).map Prod.fst)) = [] := by
    apply List.filter_eq_nil_iff.mpr
    intro row hrow
    have hold : row.1 ∈ (found.take k).map Prod.fst := List.mem_map_of_mem hrow
    rw [decide_eq_true hold]
    decide
  have hkept : (found.drop k).filter
      (fun row => !decide (row.1 ∈ (found.take k).map Prod.fst)) = found.drop k := by
    apply List.filter_eq_self.mpr
    intro row hrow
    have hfresh : row.1 ∉ (found.take k).map Prod.fst := fun hold =>
      hnodup.2.2 _ hold _ (List.mem_map_of_mem hrow) rfl
    simpa using hfresh
  rw [hgone, hkept, List.nil_append]

def find (t : RowTable ρ) (id : ℕ) : Option ρ := t.rows.lookup id

theorem lookup_iff (rows : List (ℕ × ρ)) (h : (rows.map Prod.fst).Nodup) (id : ℕ) (content : ρ) :
    rows.lookup id = some content ↔ (id,content) ∈ rows := by
  induction rows with
  | nil => simp
  | cons row rows ih =>
    obtain ⟨first,other⟩ := row
    rw [List.map_cons, List.nodup_cons] at h
    by_cases hid : id = first
    · subst hid
      have hgone : (id,content) ∉ rows := fun hmem => h.1 (List.mem_map.mpr ⟨_,hmem,rfl⟩)
      simp [hgone, eq_comm]
    · have hne : (id == first) = false := by simpa using hid
      simp [List.lookup_cons, hne, ih h.2, hid]

theorem find_iff (t : RowTable ρ) (id : ℕ) (content : ρ) :
    t.find id = some content ↔ (id,content) ∈ t.rows :=
  lookup_iff t.rows (ids_nodup t) id content

theorem find_bounded (t : RowTable ρ) (id : ℕ) (content : ρ) (h : t.find id = some content) :
    id ≤ t.seq :=
  t.bounded _ ((find_iff t id content).mp h)

theorem find_insert (t : RowTable ρ) (content : ρ) (id : ℕ) :
    (t.insert content).find id = if id = t.seq+1 then some content else t.find id := by
  ext found
  rw [find_iff, insert_rows, List.mem_append, List.mem_singleton]
  split
  · rename_i hid
    subst hid
    have hfresh : (t.seq+1,found) ∉ t.rows := fun hmem => by
      have hbound := t.bounded _ hmem
      omega
    simp [hfresh, eq_comm]
  · rename_i hid
    simp [hid, find_iff]

theorem find_update (t : RowTable ρ) (p : ℕ × ρ → Bool) (f : ρ → ρ) (id : ℕ) :
    (t.update p f).find id = (t.find id).map fun content =>
      if p (id,content) then f content else content := by
  ext found
  rw [find_iff, Option.map_eq_some_iff]
  simp only [find_iff, update, List.mem_map]
  constructor
  · rintro ⟨⟨old,content⟩,hmem,hrow⟩
    dsimp only at hrow
    split at hrow
    · rename_i hp
      obtain ⟨rfl,rfl⟩ := Prod.mk.inj hrow
      exact ⟨content,hmem,if_pos hp⟩
    · rename_i hp
      obtain ⟨rfl,rfl⟩ := Prod.mk.inj hrow
      exact ⟨content,hmem,if_neg hp⟩
  · rintro ⟨content,hmem,rfl⟩
    refine ⟨(id,content),hmem,?_⟩
    dsimp only
    split <;> rfl

theorem merge_cons (row : ℕ × ρ) (front back : List (ℕ × ρ)) (h : ∀ other ∈ back, row.1 < other.1) :
    List.merge (row::front) back (fun a b => decide (a.1 ≤ b.1)) =
      row::List.merge front back (fun a b => decide (a.1 ≤ b.1)) := by
  cases back with
  | nil => simp
  | cons other back =>
    have hfirst := h other List.mem_cons_self
    rw [List.cons_merge_cons_pos]
    simpa using Nat.le_of_lt hfirst

theorem merge_cons_right (row : ℕ × ρ) (front back : List (ℕ × ρ))
    (h : ∀ other ∈ front, row.1 < other.1) :
    List.merge front (row::back) (fun a b => decide (a.1 ≤ b.1)) =
      row::List.merge front back (fun a b => decide (a.1 ≤ b.1)) := by
  cases front with
  | nil => simp
  | cons other front =>
    have hfirst := h other List.mem_cons_self
    rw [List.cons_merge_cons_neg]
    simpa using hfirst

/-- Two disjoint queries, merged by id, are the query for either. -/
theorem select_merge (t : RowTable ρ) (p q : ℕ × ρ → Bool)
    (h : ∀ row, p row = true → q row = false) :
    List.merge (t.select p) (t.select q) (fun a b => decide (a.1 ≤ b.1)) =
      t.select fun row => p row || q row := by
  have hordered := t.ordered
  unfold select
  generalize t.rows = rows at hordered
  induction rows with
  | nil => simp
  | cons row rows ih =>
    rw [List.map_cons, List.pairwise_cons] at hordered
    have hless : ∀ p : ℕ × ρ → Bool, ∀ other ∈ rows.filter p, row.1 < other.1 := fun p other hmem =>
      hordered.1 _ (List.mem_map_of_mem (List.mem_of_mem_filter hmem))
    have hrest := ih hordered.2
    cases hp : p row with
    | true =>
      have hq := h row hp
      rw [List.filter_cons_of_pos hp, List.filter_cons_of_neg (by simp [hq]),
        List.filter_cons_of_pos (by simp [hp]), merge_cons row _ _ (hless q), hrest]
    | false =>
      cases hq : q row with
      | true =>
        rw [List.filter_cons_of_neg (by simp [hp]), List.filter_cons_of_pos hq,
          List.filter_cons_of_pos (by simp [hq]), merge_cons_right row _ _ (hless p), hrest]
      | false =>
        rw [List.filter_cons_of_neg (by simp [hp]), List.filter_cons_of_neg (by simp [hq]),
          List.filter_cons_of_neg (by simp [hp, hq]), hrest]

theorem update_none (t : RowTable ρ) (p : ℕ × ρ → Bool) (f : ρ → ρ)
    (h : ∀ row ∈ t.rows, p row = false) : t.update p f = t := by
  have hrows : (t.update p f).rows = t.rows := by
    apply (List.map_congr_left fun row hrow => ?_).trans (List.map_id t.rows)
    simp [h row hrow]
  exact RowTable.ext hrows rfl

/-- Rows that an update takes out of a query are missing from it afterwards, the
others are as they were. -/
theorem select_update_out (t : RowTable ρ) (p q : ℕ × ρ → Bool) (f : ρ → ρ)
    (h : ∀ row ∈ t.rows, q row = true → p (row.1,f row.2) = false) :
    (t.update q f).select p = (t.select p).filter fun row => !q row := by
  simp only [select, update, List.filter_map, List.filter_filter]
  generalize t.rows = rows at h
  induction rows with
  | nil => rfl
  | cons row rows ih =>
    have hrest := ih fun other hmem => h other (List.mem_cons_of_mem row hmem)
    have hrow := h row List.mem_cons_self
    cases hq : q row with
    | true => simp [hq, hrow hq, hrest]
    | false => cases hp : p row <;> simp [hq, hp, hrest]

theorem row_unique (t : RowTable ρ) (a b : ℕ × ρ) (ha : a ∈ t.rows) (hb : b ∈ t.rows)
    (h : a.1 = b.1) : a = b :=
  List.inj_on_of_nodup_map (ids_nodup t) ha hb h

end RowTable

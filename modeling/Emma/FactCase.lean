import Emma.FactRuns
import Emma.Library.SimpleCase

/-!
# Facts that differ in case alone

The check for a fact that is already there is made by SQLite, which folds the
ASCII letters and no others, while the texts are written with accents.
-/

set_option autoImplicit false

namespace Emma.FactCase
open Emma.Python Emma.Facts Emma.FactRuns Runs SimpleCase

def caseless (t : FactTable) : List String := (active t).map fun row => lower row.2.text

def OneCase (s : FactStore) : Prop := (caseless s.table).Nodup

/-- The call lets in a text of which SQLite finds no other spelling, while there
is one. -/
def Overlooks (s : FactStore) : Operation → Prop
  | .remember text _ => s.connected = true ∧ admits text = true ∧
      (active s.table).length < maxActiveFacts ∧
      (∀ row ∈ active s.table, sqlLower row.2.text ≠ sqlLower (joinWords text)) ∧
      lower (joinWords text) ∈ caseless s.table
  | _ => False

theorem caseless_insert (t : FactTable) (text : String) (now : ℚ) (h : Admissible text) :
    caseless (t.insert ⟨text,now,none,h⟩) = caseless t ++ [lower text] := by
  have hactive : active (t.insert ⟨text,now,none,h⟩) = active t ++ [(t.seq+1,⟨text,now,none,h⟩)] :=
    RowTable.select_insert t _ _
  rw [caseless, hactive, List.map_append]
  rfl

theorem caseless_stamp (t : FactTable) (factId : ℤ) (now : ℚ) :
    (caseless (stamp t factId now)).Sublist (caseless t) := (active_stamp t factId now).map _

theorem admissible_of_admits (text : String) (h : admits text = true) :
    Admissible (joinWords text) := by
  simp only [admits, ne_eq, decide_not, Bool.and_eq_true, Bool.not_eq_eq_eq_not, Bool.not_true,
    decide_eq_false_iff_not, decide_eq_true_eq] at h
  exact admissible_joinWords text h.1 (by omega)

theorem remember_new (t : FactTable) (text : String) (now : ℚ) (h : Admissible (joinWords text))
    (hnew : ∀ row ∈ active t, sqlLower row.2.text ≠ sqlLower (joinWords text))
    (hroom : (active t).length < maxActiveFacts) :
    (remember t text now).2 = t.insert ⟨joinWords text,now,none,h⟩ := by
  have hshort := h.short
  have hnone : (active t).find? (fun row => sqlLower row.2.text = sqlLower (joinWords text)) =
      none := by
    rw [List.find?_eq_none]
    intro row hrow
    simpa using hnew row hrow
  unfold remember
  dsimp only
  rw [dif_neg h.written, dif_neg (by omega), hnone]
  dsimp only
  rw [if_neg (by omega)]

theorem one_case_insert (s : FactStore) (text : String) (now : ℚ) (h : Admissible text)
    (hs : OneCase s) : (caseless (s.table.insert ⟨text,now,none,h⟩)).Nodup ↔
      lower text ∉ caseless s.table := by
  rw [caseless_insert, List.nodup_append_comm, List.singleton_append, List.nodup_cons]
  exact and_iff_left hs

/-- A call breaks the rule exactly where it overlooks a spelling. -/
theorem step_one_case (s : FactStore) (op : Operation) (hs : OneCase s) :
    OneCase (op.step s) ↔ ¬Overlooks s op := by
  cases op with
  | remember text now =>
    constructor
    · rintro h ⟨hconnected,hadmits,hroom,hnew,hthere⟩
      have hadmissible := admissible_of_admits text hadmits
      dsimp only [Operation.step, Operation.perform, Operation.remembered] at h
      rw [if_pos (.inl hconnected), OneCase,
        remember_new s.table text now hadmissible hnew hroom] at h
      exact (one_case_insert s _ now hadmissible hs).mp h hthere
    · intro hno
      dsimp only [Operation.step, Operation.perform, Operation.remembered]
      split
      · rename_i hlet
        have hcases := remembers s.table text now
        generalize remember s.table text now = result at hcases
        cases hcases with
        | refused reason hnone => exact hs
        | existing row reason hreason hmem hsame => exact hs
        | inserted hadmissible hnew hroom =>
          have hadmits := admits_of_admissible text hadmissible
          have hconnected : s.connected = true := by simpa [hadmits] using hlet
          apply (one_case_insert s _ now hadmissible hs).mpr
          exact fun hthere => hno ⟨hconnected,hadmits,hroom,hnew,hthere⟩
      · exact hs
  | forget factId now =>
    apply iff_of_true _ id
    rcases forgotten_table s factId now with hsame | hstamp
    · rw [OneCase, hsame]
      exact hs
    · rw [OneCase, hstamp]
      exact hs.sublist (caseless_stamp s.table factId now)
  | active => exact iff_of_true hs id
  | close => exact iff_of_true hs id
  | «open» => exact iff_of_true hs id

/-- Over every run from an empty store no two active facts are the same but for
case, exactly when no call overlooks a spelling. -/
theorem one_case_iff (ops : List Operation) : Always Operation.step OneCase ops empty ↔
    Throughout Operation.step (fun s op => ¬Overlooks s op) ops empty :=
  always_iff OneCase step_one_case ops empty List.nodup_nil

def twoSpellings : List Operation := [.open,.remember "È nata Sara" 0,.remember "è nata Sara" 1]

theorem accent_makes_another_fact : ¬Always Operation.step OneCase twoSpellings empty := by
  intro h
  have hend : ¬OneCase (after Operation.step twoSpellings empty) := by
    unfold OneCase
    decide +kernel
  exact hend (h twoSpellings [] rfl)

def Ascii (text : String) : Prop := ∀ c ∈ text.toList, c.toNat < 128

/-- What is asked to be remembered is in ASCII, as it is stored. -/
def Plain : Operation → Prop
  | .remember text _ => Ascii (joinWords text)
  | _ => True

theorem lower_ascii (text : String) (h : Ascii text) : lower text = sqlLower text := by
  rw [lower, sqlLower, List.map_congr_left fun c hc => lowerChar_ascii c (h c hc)]

theorem plain_overlooks_nothing (s : FactStore) (op : Operation)
    (hs : ∀ row ∈ active s.table, Ascii row.2.text) (hop : Plain op) :
    ¬Overlooks s op := by
  cases op with
  | remember text now =>
    rintro ⟨-,-,-,hnew,hthere⟩
    obtain ⟨row,hrow,hsame⟩ := List.mem_map.mp hthere
    apply hnew row hrow
    rw [← lower_ascii row.2.text (hs row hrow), ← lower_ascii _ hop]
    exact hsame
  | forget factId now => exact id
  | active => exact id
  | close => exact id
  | «open» => exact id

theorem step_ascii (s : FactStore) (op : Operation)
    (hs : ∀ row ∈ active s.table, Ascii row.2.text) (hop : Plain op) :
    ∀ row ∈ active (op.step s).table, Ascii row.2.text := by
  cases op with
  | remember text now =>
    dsimp only [Operation.step, Operation.perform, Operation.remembered]
    split
    · have hcases := remembers s.table text now
      generalize remember s.table text now = result at hcases
      cases hcases with
      | refused reason hnone => exact hs
      | existing row reason hreason hmem hsame => exact hs
      | inserted hadmissible hnew hroom =>
        intro row hrow
        have hactive : active (s.table.insert ⟨joinWords text,now,none,hadmissible⟩) =
            active s.table ++ [_] := RowTable.select_insert s.table _ _
        simp only [hactive, List.mem_append, List.mem_singleton] at hrow
        rcases hrow with hrow | rfl
        · exact hs row hrow
        · exact hop
    · exact hs
  | forget factId now =>
    rcases forgotten_table s factId now with hsame | hstamp
    · rwa [hsame]
    · rw [hstamp]
      exact fun row hrow => hs row ((active_stamp s.table factId now).subset hrow)
  | active => exact hs
  | close => exact hs
  | «open» => exact hs

/-- Among texts in ASCII the check of SQLite is the one that is wanted. -/
theorem plain_one_case (ops : List Operation)
    (h : Throughout Operation.step (fun _ op => Plain op) ops empty) :
    Always Operation.step OneCase ops empty := by
  apply (always_iff OneCase step_one_case ops empty List.nodup_nil).mpr
  intro front op back hops
  apply plain_overlooks_nothing _ _ _ (h front op back hops)
  rw [hops, throughout_append] at h
  apply h.1.keeps (fun s => ∀ row ∈ active s.table, Ascii row.2.text) step_ascii
  intro row hrow
  cases hrow

end Emma.FactCase

import Emma.Python
import Mathlib.Data.Rat.Defs
import Mathlib.Data.List.Nodup

/-!
# Which tools are switched off

One row for each tool that is off, under its name. Switching off inserts a row
unless there is one, so the time in it is the time of the call that turned the
tool off; switching on deletes it.
-/

set_option autoImplicit false

namespace Emma.ToolState
open Emma.Python

def protectedNames : List String := ["list_tools","enable_tool"]

def minTimeOffSeconds : ℚ := 3600

structure SwitchedOff where
  name : String
  since : ℚ
  reason : String
  deriving DecidableEq

/-- The table `tool_state`, whose primary key is the name. -/
structure ToolStateTable where
  rows : List SwitchedOff
  keyed : (rows.map SwitchedOff.name).Nodup

instance : EmptyCollection ToolStateTable := ⟨⟨[],List.nodup_nil⟩⟩

namespace ToolStateTable

def disabled (t : ToolStateTable) : List String := t.rows.map SwitchedOff.name

def disabledSince (t : ToolStateTable) (name : String) : Option ℚ :=
  (t.rows.find? fun row => row.name = name).map SwitchedOff.since

/-- `INSERT OR IGNORE`: whether a row was inserted, and the table after it. -/
def disable (t : ToolStateTable) (name reason : String) (now : ℚ) : Bool × ToolStateTable :=
  if name ∈ protectedNames then (false,t)
  else if h : name ∈ t.disabled then (false,t)
  else (true,⟨t.rows ++ [⟨name,now,strip reason⟩],by
    rw [List.map_append, List.nodup_append]
    refine ⟨t.keyed,by simp,?_⟩
    intro a ha b hb
    obtain rfl : b = name := by simpa using hb
    rintro rfl
    exact h ha⟩)

/-- `DELETE`: whether a row was deleted, and the table after it. -/
def enable (t : ToolStateTable) (name : String) : Bool × ToolStateTable :=
  (name ∈ t.disabled,
    ⟨t.rows.filter fun row => row.name ≠ name,t.keyed.sublist (List.filter_sublist.map _)⟩)

theorem disable_rows (t : ToolStateTable) (name reason : String) (now : ℚ) :
    ((t.disable name reason now).2 = t ∧ (t.disable name reason now).1 = false ∧
      (name ∈ protectedNames ∨ name ∈ t.disabled)) ∨
    ((t.disable name reason now).2.rows = t.rows ++ [⟨name,now,strip reason⟩] ∧
      (t.disable name reason now).1 = true ∧ name ∉ t.disabled) := by
  unfold disable
  split
  · exact .inl ⟨rfl,rfl,.inl ‹_›⟩
  · split
    · exact .inl ⟨rfl,rfl,.inr ‹_›⟩
    · exact .inr ⟨rfl,rfl,‹_›⟩

@[simp] theorem enable_rows (t : ToolStateTable) (name : String) :
    (t.enable name).2.rows = t.rows.filter fun row => row.name ≠ name := rfl

theorem mem_disabled {t : ToolStateTable} {name : String} :
    name ∈ t.disabled ↔ ∃ row ∈ t.rows, row.name = name := by
  simp [disabled]

theorem enable_disabled (t : ToolStateTable) (name other : String) :
    other ∈ (t.enable name).2.disabled ↔ other ∈ t.disabled ∧ other ≠ name := by
  simp only [mem_disabled, enable_rows, List.mem_filter, decide_eq_true_eq]
  constructor
  · rintro ⟨row,⟨hrow,hne⟩,rfl⟩
    exact ⟨⟨row,hrow,rfl⟩,hne⟩
  · rintro ⟨⟨row,hrow,rfl⟩,hne⟩
    exact ⟨row,⟨hrow,hne⟩,rfl⟩

theorem disabledSince_eq_some {t : ToolStateTable} {name : String} {since : ℚ}
    (h : t.disabledSince name = some since) :
    ∃ row ∈ t.rows, row.name = name ∧ row.since = since := by
  obtain ⟨row,hfind,rfl⟩ := Option.map_eq_some_iff.mp h
  exact ⟨row,List.mem_of_find?_eq_some hfind,by simpa using List.find?_some hfind,rfl⟩

theorem disabledSince_isSome {t : ToolStateTable} {name : String} (h : name ∈ t.disabled) :
    ∃ since, t.disabledSince name = some since := by
  obtain ⟨row,hrow,hname⟩ := mem_disabled.mp h
  cases hfind : t.rows.find? fun row => row.name = name with
  | none => exact absurd hname (by simpa using List.find?_eq_none.mp hfind row hrow)
  | some found => exact ⟨found.since,by simp [disabledSince, hfind]⟩

end ToolStateTable
end Emma.ToolState

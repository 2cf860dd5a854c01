import Emma.Facts
import Emma.Library.Runs

/-!
# What holds of the facts over a run

A fact is let in by its normal form, by no active fact being the same but for
case, and by the room that is left. Forgetting stamps a row once and for all.
-/

set_option autoImplicit false

namespace Emma.FactRuns
open Emma.Python Emma.Facts Runs

structure FactStore where
  table : FactTable
  connected : Bool

def empty : FactStore := ⟨∅,false⟩

def unopened : PyError := .runtimeError "call open() on the fact store before using it"

def admits (text : String) : Bool :=
  joinWords text ≠ "" && (joinWords text).length ≤ maxFactLength

inductive Operation where
  | remember (text : String) (now : ℚ)
  | forget (factId : ℤ) (now : ℚ)
  | active
  | close
  | open

inductive Returned where
  | remembered (r : Except PyError (Option ℕ × String))
  | forgotten (r : Except PyError Bool)
  | facts (r : Except PyError (List (ℕ × Fact)))
  | none

namespace Operation

def remembered (s : FactStore) (text : String) (now : ℚ) :
    Except PyError (Option ℕ × String) × FactStore :=
  if s.connected = true ∨ admits text = false then
    (.ok (Facts.remember s.table text now).1,{ s with table := (Facts.remember s.table text now).2 })
  else (.error unopened,s)

def forgotten (s : FactStore) (factId : ℤ) (now : ℚ) : Except PyError Bool × FactStore :=
  if s.connected then
    match Facts.forget s.table factId now with
    | .ok (found,table) => (.ok found,{ s with table := table })
    | .error e => (.error e,s)
  else (.error unopened,s)

def listed (s : FactStore) : Except PyError (List (ℕ × Fact)) :=
  if s.connected then .ok (Facts.active s.table) else .error unopened

/-- `open` creates the table where it is missing and leaves it where it is not. -/
def perform (s : FactStore) : Operation → Returned × FactStore
  | remember text now => (.remembered (remembered s text now).1,(remembered s text now).2)
  | forget factId now => (.forgotten (forgotten s factId now).1,(forgotten s factId now).2)
  | active => (.facts (listed s),s)
  | close => (.none,{ s with connected := false })
  | «open» => (.none,{ s with connected := true })

def step (s : FactStore) (op : Operation) : FactStore := (op.perform s).2

end Operation

structure Sound (t : FactTable) : Prop where
  capped : (active t).length ≤ maxActiveFacts
  written : ∀ id fact, t.find id = some fact → fact.text ≠ ""
  short : ∀ id fact, t.find id = some fact → fact.text.length ≤ maxFactLength
  joined : ∀ id fact, t.find id = some fact → joinWords fact.text = fact.text
  oneLine : ∀ id fact, t.find id = some fact → ∀ c ∈ fact.text.toList, isSpace c = true → c = ' '
  distinct : ∀ row ∈ active t, ∀ other ∈ active t,
    sqlLower row.2.text = sqlLower other.2.text → row = other

/-- What `remember` says of what it did. -/
structure RememberTells (s s' : FactStore) (text : String) (now : ℚ)
    (r : Except PyError (Option ℕ × String)) : Prop where
  new : ∀ id, r = .ok (some id,"") ↔ ∃ fact, s'.table.rows = s.table.rows ++ [(id,fact)]
  content : ∀ id fact, s'.table.rows = s.table.rows ++ [(id,fact)] →
    fact.text = joinWords text ∧ fact.createdAt = now ∧ fact.forgottenAt = none
  existing : ∀ id, (∃ reason, reason ≠ "" ∧ r = .ok (some id,reason)) ↔
    s.connected = true ∧ ∃ fact, s.table.find id = some fact ∧ fact.forgottenAt = none ∧
      sqlLower fact.text = sqlLower (joinWords text)
  unchanged : (∀ id, r ≠ .ok (some id,"")) → s' = s

/-- What `forget` says of what it did. -/
structure ForgetTells (s s' : FactStore) (factId : ℤ) (now : ℚ) (r : Except PyError Bool) :
    Prop where
  deactivated : r = .ok true ↔ ∃ (id : ℕ) (fact : Fact), (id : ℤ) = factId ∧ s.table.find id = some fact ∧
    fact.forgottenAt = none ∧ s'.table.find id = some { fact with forgottenAt := some now } ∧
    ∀ other, other ≠ id → s'.table.find other = s.table.find other
  unchanged : r ≠ .ok true → s' = s

/-- What `active` lists, of an open store. -/
structure ActiveTells (s : FactStore) (r : Except PyError (List (ℕ × Fact))) : Prop where
  unopened : s.connected = false → r = .error unopened
  listed : s.connected = true → ∃ rows, r = .ok rows ∧ (rows.map Prod.fst).Pairwise (· < ·) ∧
    ∀ id fact, (id,fact) ∈ rows ↔ s.table.find id = some fact ∧ fact.forgottenAt = none

def Told (s : FactStore) : Operation → Prop
  | .remember text now => ∃ r, ((Operation.remember text now).perform s).1 = .remembered r ∧
      RememberTells s ((Operation.remember text now).step s) text now r
  | .forget factId now => ∃ r, ((Operation.forget factId now).perform s).1 = .forgotten r ∧
      ForgetTells s ((Operation.forget factId now).step s) factId now r
  | .active => ∃ r, (Operation.active.perform s).1 = .facts r ∧ ActiveTells s r
  | .close => True
  | .open => True

/-- What holds at each point of a run, and between its points. -/
structure Lasting (ops : List Operation) (s : FactStore) : Prop where
  sound : ∀ front back, ops = front ++ back → Sound (after Operation.step front s).table
  kept : ∀ front later back, ops = front ++ later ++ back →
    ∀ id fact, (after Operation.step front s).table.find id = some fact →
      ∃ fact', (after Operation.step (front ++ later) s).table.find id = some fact' ∧
        fact'.text = fact.text ∧ fact'.createdAt = fact.createdAt ∧
        ∀ stamp, fact.forgottenAt = some stamp → fact'.forgottenAt = some stamp
  fresh : ∀ front later op back, ops = front ++ later ++ op::back →
    ∀ old new, ((after Operation.step front s).table.find old).isSome = true →
      (after Operation.step (front ++ later) s).table.find new = none →
      ((after Operation.step (front ++ later ++ [op]) s).table.find new).isSome = true → old < new
  told : Throughout Operation.step Told ops s

theorem mem_active (t : FactTable) (row : ℕ × Fact) :
    row ∈ active t ↔ t.find row.1 = some row.2 ∧ row.2.forgottenAt = none := by
  rw [RowTable.find_iff, active, RowTable.select, List.mem_filter, Option.isNone_iff_eq_none]

theorem sqlLower_length (text : String) : (sqlLower text).length = text.length := by
  simp [sqlLower, String.length_toList]

/-- A text that equals an active fact but for case passes the checks on it. -/
theorem admissible_of_same (fact : Fact) (text : String)
    (h : sqlLower fact.text = sqlLower (joinWords text)) : Admissible (joinWords text) := by
  have hlength : fact.text.length = (joinWords text).length := by
    rw [← sqlLower_length fact.text, h, sqlLower_length]
  constructor
  · exact joinWords_joinWords text
  · intro hempty
    rw [hempty] at hlength
    have hnone : fact.text.length = 0 := hlength
    exact fact.admissible.written (String.length_eq_zero_iff.mp hnone)
  · rw [← hlength]
    exact fact.admissible.short

theorem admits_of_admissible (text : String) (h : Admissible (joinWords text)) :
    admits text = true := by
  simp [admits, h.written, h.short]

/-- What `remember` does to the table, with what it returns. -/
inductive Remembers (t : FactTable) (text : String) (now : ℚ) :
    (Option ℕ × String) × FactTable → Prop
  | refused (reason : String)
      (h : Admissible (joinWords text) → ∀ row ∈ active t,
        sqlLower row.2.text ≠ sqlLower (joinWords text)) :
      Remembers t text now ((none,reason),t)
  | existing (row : ℕ × Fact) (reason : String) (hreason : reason ≠ "") (h : row ∈ active t)
      (hsame : sqlLower row.2.text = sqlLower (joinWords text)) :
      Remembers t text now ((some row.1,reason),t)
  | inserted (hadmissible : Admissible (joinWords text))
      (hnew : ∀ row ∈ active t, sqlLower row.2.text ≠ sqlLower (joinWords text))
      (hroom : (active t).length < maxActiveFacts) :
      Remembers t text now ((some (t.seq+1),""),t.insert ⟨joinWords text,now,none,hadmissible⟩)

theorem remembers (t : FactTable) (text : String) (now : ℚ) :
    Remembers t text now (remember t text now) := by
  unfold remember
  dsimp only
  split
  · rename_i hempty
    exact .refused _ fun h => absurd hempty h.written
  · rename_i hwritten
    split
    · rename_i hlong
      exact .refused _ fun h => absurd h.short (by omega)
    · rename_i hshort
      split
      · rename_i row hfound
        refine .existing row _ (by decide) (List.mem_of_find?_eq_some hfound) ?_
        simpa using List.find?_some hfound
      · rename_i hnone
        have hnew : ∀ row ∈ active t, sqlLower row.2.text ≠ sqlLower (joinWords text) := by
          simpa using List.find?_eq_none.mp hnone
        split
        · exact .refused _ fun _ => hnew
        · rename_i hroom
          exact .inserted (admissible_joinWords text hwritten hshort) hnew (by omega)

/-- `forget` stamps the active fact of that number. -/
def stamp (t : FactTable) (factId : ℤ) (now : ℚ) : FactTable :=
  t.update (fun row => row.1 = factId && row.2.forgottenAt.isNone)
    fun fact => { fact with forgottenAt := some now }

/-- What `forget` does to the table, with what it returns. -/
theorem forget_cases (t : FactTable) (factId : ℤ) (now : ℚ) :
    (∃ e, forget t factId now = .error e) ∨ forget t factId now = .ok (false,t) ∨
      ∃ (id : ℕ) (fact : Fact), (id : ℤ) = factId ∧ t.find id = some fact ∧ fact.forgottenAt = none ∧
        forget t factId now = .ok (true,stamp t factId now) := by
  unfold forget
  cases hbound : Tasks.bound factId with
  | error e => exact .inl ⟨e,rfl⟩
  | ok n =>
    obtain rfl : n = factId := by
      unfold Tasks.bound at hbound
      split at hbound
      · exact (Except.ok.inj hbound).symm
      · cases hbound
    right
    dsimp only [bind, Except.bind, pure, Except.pure]
    cases hany : t.rows.any fun row => row.1 = n && row.2.forgottenAt.isNone with
    | false =>
      left
      rw [RowTable.update_none]
      intro row hrow
      exact Bool.eq_false_iff.mpr (List.any_eq_false.mp hany row hrow)
    | true =>
      right
      obtain ⟨⟨id,fact⟩,hrow,hfound⟩ := List.any_eq_true.mp hany
      simp only [Bool.and_eq_true, decide_eq_true_eq, Option.isNone_iff_eq_none] at hfound
      exact ⟨id,fact,hfound.1,(t.find_iff id fact).mpr hrow,hfound.2,rfl⟩

theorem find_stamp (t : FactTable) (factId : ℤ) (now : ℚ) (id : ℕ) :
    (stamp t factId now).find id = (t.find id).map fun fact =>
      if (id : ℤ) = factId ∧ fact.forgottenAt = none then { fact with forgottenAt := some now }
      else fact := by
  rw [stamp, RowTable.find_update]
  congr 1
  funext fact
  simp

/-- Fewer facts are active after one was forgotten, and no others. -/
theorem active_stamp (t : FactTable) (factId : ℤ) (now : ℚ) :
    (active (stamp t factId now)).Sublist (active t) := by
  rw [active, stamp, RowTable.select_update_out]
  · exact List.filter_sublist
  · intro row _ _
    rfl

theorem sound_empty : Sound ∅ where
  capped := Nat.zero_le _
  written := fun _ _ h => by cases h
  short := fun _ _ h => by cases h
  joined := fun _ _ h => by cases h
  oneLine := fun _ _ h => by cases h
  distinct := fun _ h => by cases h

/-- A row carries what its text was checked for; the rest is about the active
facts. -/
theorem sound_of_active (t : FactTable) (capped : (active t).length ≤ maxActiveFacts)
    (distinct : ∀ row ∈ active t, ∀ other ∈ active t,
      sqlLower row.2.text = sqlLower other.2.text → row = other) : Sound t where
  capped := capped
  written := fun _ fact _ => fact.admissible.written
  short := fun _ fact _ => fact.admissible.short
  joined := fun _ fact _ => fact.admissible.joined
  oneLine := by
    intro id fact _ c hc hspace
    rw [← fact.admissible.joined] at hc
    rcases mem_joinWords fact.text c hc with hnot | hblank
    · rw [hspace] at hnot
      cases hnot
    · exact hblank
  distinct := distinct

theorem remember_sound (t : FactTable) (text : String) (now : ℚ) (h : Sound t) :
    Sound (remember t text now).2 := by
  have hcases := remembers t text now
  generalize remember t text now = result at hcases
  cases hcases with
  | refused reason hnone => exact h
  | existing row reason hreason hmem hsame => exact h
  | inserted hadmissible hnew hroom =>
    have hactive : active (t.insert ⟨joinWords text,now,none,hadmissible⟩) =
        active t ++ [(t.seq+1,⟨joinWords text,now,none,hadmissible⟩)] := RowTable.select_insert t _ _
    apply sound_of_active
    · rw [hactive, List.length_append, List.length_singleton]
      omega
    · rw [hactive]
      intro row hrow other hother hsame
      rw [List.mem_append, List.mem_singleton] at hrow hother
      rcases hrow with hrow | rfl <;> rcases hother with hother | rfl
      · exact h.distinct row hrow other hother hsame
      · exact absurd hsame (hnew row hrow)
      · exact absurd hsame.symm (hnew other hother)
      · rfl

theorem stamp_sound (t : FactTable) (factId : ℤ) (now : ℚ) (h : Sound t) :
    Sound (stamp t factId now) := by
  have hfewer := active_stamp t factId now
  apply sound_of_active
  · exact hfewer.length_le.trans h.capped
  · intro row hrow other hother
    exact h.distinct row (hfewer.subset hrow) other (hfewer.subset hother)

theorem forgotten_table (s : FactStore) (factId : ℤ) (now : ℚ) :
    ((Operation.forget factId now).step s).table = s.table ∨
      ((Operation.forget factId now).step s).table = stamp s.table factId now := by
  dsimp only [Operation.step, Operation.perform, Operation.forgotten]
  split
  · rcases forget_cases s.table factId now with ⟨e,he⟩ | hfalse | ⟨id,fact,-,-,-,htrue⟩
    · rw [he]
      exact .inl rfl
    · rw [hfalse]
      exact .inl rfl
    · rw [htrue]
      exact .inr rfl
  · exact .inl rfl

inductive Stepped (s : FactStore) : FactTable → Prop
  | same : Stepped s s.table
  | remembered (text : String) (now : ℚ) : Stepped s (remember s.table text now).2
  | stamped (factId : ℤ) (now : ℚ) : Stepped s (stamp s.table factId now)

theorem stepped (s : FactStore) (op : Operation) : Stepped s (op.step s).table := by
  cases op with
  | remember text now =>
    dsimp only [Operation.step, Operation.perform, Operation.remembered]
    split
    · exact .remembered text now
    · exact .same
  | forget factId now =>
    rcases forgotten_table s factId now with hsame | hstamp
    · rw [hsame]
      exact .same
    · rw [hstamp]
      exact .stamped factId now
  | active => exact .same
  | close => exact .same
  | «open» => exact .same

theorem step_sound (s : FactStore) (op : Operation) (h : Sound s.table) :
    Sound (op.step s).table := by
  have hstepped := stepped s op
  generalize (op.step s).table = table at hstepped
  cases hstepped with
  | same => exact h
  | remembered text now => exact remember_sound s.table text now h
  | stamped factId now => exact stamp_sound s.table factId now h

def Aged (fact fact' : Fact) : Prop :=
  fact'.text = fact.text ∧ fact'.createdAt = fact.createdAt ∧
    ∀ stamp, fact.forgottenAt = some stamp → fact'.forgottenAt = some stamp

theorem aged_refl (fact : Fact) : Aged fact fact := ⟨rfl,rfl,fun _ h => h⟩

theorem Aged.trans {fact next last : Fact} (h : Aged fact next) (h' : Aged next last) :
    Aged fact last :=
  ⟨h'.1.trans h.1,h'.2.1.trans h.2.1,fun stamp hstamp => h'.2.2 stamp (h.2.2 stamp hstamp)⟩

theorem step_aged (s : FactStore) (op : Operation) (id : ℕ) (fact : Fact)
    (hfind : s.table.find id = some fact) :
    ∃ fact', (op.step s).table.find id = some fact' ∧ Aged fact fact' := by
  have hstepped := stepped s op
  generalize (op.step s).table = table at hstepped
  cases hstepped with
  | same => exact ⟨fact,hfind,aged_refl fact⟩
  | remembered text now =>
    have hcases := remembers s.table text now
    generalize remember s.table text now = result at hcases
    cases hcases with
    | refused reason hnone => exact ⟨fact,hfind,aged_refl fact⟩
    | existing row reason hreason hmem hsame => exact ⟨fact,hfind,aged_refl fact⟩
    | inserted hadmissible hnew hroom =>
      have hbound := s.table.find_bounded id fact hfind
      rw [RowTable.find_insert, if_neg (by omega)]
      exact ⟨fact,hfind,aged_refl fact⟩
  | stamped factId now =>
    rw [find_stamp, hfind]
    refine ⟨_,rfl,?_⟩
    dsimp only
    split
    · rename_i hhit
      exact ⟨rfl,rfl,by simp [hhit.2]⟩
    · exact aged_refl fact

theorem after_aged (ops : List Operation) (s : FactStore) (id : ℕ) (fact : Fact)
    (hfind : s.table.find id = some fact) :
    ∃ fact', (after Operation.step ops s).table.find id = some fact' ∧ Aged fact fact' := by
  apply after_keeps (fun s => ∃ fact', s.table.find id = some fact' ∧ Aged fact fact') _ ops s
    ⟨fact,hfind,aged_refl fact⟩
  rintro s op ⟨found,hfound,haged⟩
  obtain ⟨next,hnext,haged'⟩ := step_aged s op id found hfound
  exact ⟨next,hnext,haged.trans haged'⟩

/-- A number that was not there before a step is behind all that were. -/
theorem step_fresh (s : FactStore) (op : Operation) (old new : ℕ)
    (hold : (s.table.find old).isSome = true) (hnone : s.table.find new = none)
    (hnew : ((op.step s).table.find new).isSome = true) : old < new := by
  obtain ⟨fact,hfact⟩ := Option.isSome_iff_exists.mp hold
  have hbound := s.table.find_bounded old fact hfact
  have hstepped := stepped s op
  generalize (op.step s).table = table at hstepped hnew
  cases hstepped with
  | same => simp [hnone] at hnew
  | remembered text now =>
    have hcases := remembers s.table text now
    generalize remember s.table text now = result at hcases hnew
    cases hcases with
    | refused reason _ => simp [hnone] at hnew
    | existing row reason _ _ _ => simp [hnone] at hnew
    | inserted hadmissible _ _ =>
      rw [RowTable.find_insert] at hnew
      split at hnew
      · omega
      · simp [hnone] at hnew
  | stamped factId now => simp [find_stamp, hnone] at hnew

theorem rows_append_ne (rows : List (ℕ × Fact)) (row : ℕ × Fact) : rows ≠ rows ++ [row] := by
  simp

/-- A call that leaves the store alone has only the fact that was there to tell of. -/
theorem untouched_tells (s : FactStore) (text : String) (now : ℚ)
    (r : Except PyError (Option ℕ × String)) (hnew : ∀ id, r ≠ .ok (some id,""))
    (hexisting : ∀ id, (∃ reason, reason ≠ "" ∧ r = .ok (some id,reason)) ↔
      s.connected = true ∧ ∃ fact, s.table.find id = some fact ∧ fact.forgottenAt = none ∧
        sqlLower fact.text = sqlLower (joinWords text)) : RememberTells s s text now r where
  new := by
    intro id
    constructor
    · intro hid
      exact absurd hid (hnew id)
    · rintro ⟨fact,hrows⟩
      exact absurd hrows (rows_append_ne _ _)
  content := by
    intro id fact hrows
    exact absurd hrows (rows_append_ne _ _)
  existing := hexisting
  unchanged := fun _ => rfl

theorem inserted_tells (s : FactStore) (text : String) (now : ℚ)
    (hadmissible : Admissible (joinWords text))
    (hnew : ∀ row ∈ active s.table, sqlLower row.2.text ≠ sqlLower (joinWords text)) :
    RememberTells s { s with table := s.table.insert ⟨joinWords text,now,none,hadmissible⟩ } text
      now (.ok (some (s.table.seq+1),"")) where
  new := by
    intro id
    constructor
    · intro hid
      obtain rfl := Option.some.inj (Prod.mk.inj (Except.ok.inj hid)).1
      exact ⟨_,rfl⟩
    · rintro ⟨fact,hrows⟩
      have hrow := List.append_cancel_left hrows
      simp only [List.cons.injEq, Prod.mk.injEq, and_true] at hrow
      rw [hrow.1]
  content := by
    intro id fact hrows
    have hrow := List.append_cancel_left hrows
    simp only [List.cons.injEq, Prod.mk.injEq, and_true] at hrow
    rw [← hrow.2]
    exact ⟨rfl,rfl,rfl⟩
  existing := by
    intro id
    constructor
    · rintro ⟨reason,hreason,hother⟩
      exact absurd (Prod.mk.inj (Except.ok.inj hother)).2.symm hreason
    · rintro ⟨-,fact,hfind,hactive,hsame⟩
      exact absurd hsame (hnew (id,fact) ((mem_active s.table (id,fact)).mpr ⟨hfind,hactive⟩))
  unchanged := by
    intro hno
    exact absurd rfl (hno _)

theorem nameless_tells (s : FactStore) (text : String) (now : ℚ)
    (r : Except PyError (Option ℕ × String)) (hnameless : ∀ id reason, r ≠ .ok (some id,reason))
    (hnone : s.connected = true → ∀ row ∈ active s.table,
      sqlLower row.2.text ≠ sqlLower (joinWords text)) : RememberTells s s text now r := by
  apply untouched_tells
  · exact fun id => hnameless id ""
  · intro id
    constructor
    · rintro ⟨reason,-,hreason⟩
      exact absurd hreason (hnameless id reason)
    · rintro ⟨hconnected,fact,hfind,hactive,hsame⟩
      exact absurd hsame
        (hnone hconnected (id,fact) ((mem_active s.table (id,fact)).mpr ⟨hfind,hactive⟩))

/-- A call that finds the text tells of the one fact that has it. -/
theorem existing_tells (s : FactStore) (text : String) (now : ℚ) (row : ℕ × Fact)
    (reason : String) (hsound : Sound s.table) (hconnected : s.connected = true)
    (hreason : reason ≠ "") (hmem : row ∈ active s.table)
    (hsame : sqlLower row.2.text = sqlLower (joinWords text)) :
    RememberTells s s text now (.ok (some row.1,reason)) := by
  obtain ⟨hfind,hactive⟩ := (mem_active s.table row).mp hmem
  apply untouched_tells
  · intro id hid
    exact absurd (Prod.mk.inj (Except.ok.inj hid)).2 hreason
  · intro id
    constructor
    · rintro ⟨other,-,hother⟩
      obtain rfl := Option.some.inj (Prod.mk.inj (Except.ok.inj hother)).1
      exact ⟨hconnected,row.2,hfind,hactive,hsame⟩
    · rintro ⟨-,fact,hfind',hactive',hsame'⟩
      obtain rfl := hsound.distinct row hmem (id,fact)
        ((mem_active s.table (id,fact)).mpr ⟨hfind',hactive'⟩) (hsame.trans hsame'.symm)
      exact ⟨reason,hreason,rfl⟩

theorem remember_tells (s : FactStore) (text : String) (now : ℚ) (hsound : Sound s.table) :
    RememberTells s ((Operation.remember text now).step s) text now
      (Operation.remembered s text now).1 := by
  dsimp only [Operation.step, Operation.perform, Operation.remembered]
  split
  · rename_i hlet
    have hcases := remembers s.table text now
    generalize remember s.table text now = result at hcases
    cases hcases with
    | refused reason hnone =>
      apply nameless_tells
      · simp
      · intro _ row hmem hsame
        exact hnone (admissible_of_same row.2 text hsame) row hmem hsame
    | existing row reason hreason hmem hsame =>
      apply existing_tells s text now row reason hsound _ hreason hmem hsame
      rcases hlet with hconnected | hrefused
      · exact hconnected
      · rw [admits_of_admissible text (admissible_of_same row.2 text hsame)] at hrefused
        cases hrefused
    | inserted hadmissible hnew hroom => exact inserted_tells s text now hadmissible hnew
  · rename_i hrefused
    rw [not_or, Bool.not_eq_true] at hrefused
    apply nameless_tells
    · simp
    · intro hconnected
      rw [hrefused.1] at hconnected
      cases hconnected

theorem forget_tells (s : FactStore) (factId : ℤ) (now : ℚ) :
    ForgetTells s ((Operation.forget factId now).step s) factId now
      (Operation.forgotten s factId now).1 := by
  have hsame : ∀ r : Except PyError Bool, r ≠ .ok true → ForgetTells s s factId now r := by
    intro r hr
    constructor
    · constructor
      · intro htrue
        exact absurd htrue hr
      · rintro ⟨id,fact,-,hfind,hactive,hstamped,-⟩
        rw [hfind] at hstamped
        rw [congrArg Fact.forgottenAt (Option.some.inj hstamped)] at hactive
        cases hactive
    · exact fun _ => rfl
  dsimp only [Operation.step, Operation.perform, Operation.forgotten]
  split
  · rcases forget_cases s.table factId now with ⟨e,he⟩ | hfalse | ⟨id,fact,hid,hfind,hactive,htrue⟩
    · rw [he]
      exact hsame _ (by simp)
    · rw [hfalse]
      exact hsame _ (by simp)
    · rw [htrue]
      constructor
      · constructor
        · intro _
          refine ⟨id,fact,hid,hfind,hactive,?_,?_⟩
          · rw [find_stamp, hfind, Option.map_some, if_pos ⟨hid,hactive⟩]
          · intro other hother
            have hdiffers : (other : ℤ) ≠ factId := by omega
            rw [find_stamp]
            simp [hdiffers]
        · exact fun _ => rfl
      · intro hno
        exact absurd rfl hno
  · exact hsame _ (by simp)

theorem active_tells (s : FactStore) : ActiveTells s (Operation.listed s) where
  unopened := by
    intro hclosed
    simp [Operation.listed, hclosed]
  listed := by
    intro hopen
    refine ⟨active s.table,by simp [Operation.listed, hopen],?_,?_⟩
    · exact s.table.ordered.sublist (List.filter_sublist.map _)
    · intro id fact
      exact mem_active s.table (id,fact)

theorem step_told (s : FactStore) (op : Operation) (h : Sound s.table) : Told s op := by
  cases op with
  | remember text now => exact ⟨_,rfl,remember_tells s text now h⟩
  | forget factId now => exact ⟨_,rfl,forget_tells s factId now⟩
  | active => exact ⟨_,rfl,active_tells s⟩
  | close => trivial
  | «open» => trivial

/-- Every run on a store that began empty keeps the facts in order, and every
call in it tells what it did. -/
theorem facts_last (ops : List Operation) : Lasting ops empty := by
  have hsound : ∀ ops : List Operation, Sound (after Operation.step ops empty).table :=
    fun ops => after_keeps (fun s => Sound s.table) (fun s op h => step_sound s op h) ops empty
      sound_empty
  constructor
  · intro front back _
    exact hsound front
  · intro front later back _ id fact hfind
    rw [after_append]
    exact after_aged later _ id fact hfind
  · intro front later op back _ old new hold hnone hnew
    obtain ⟨fact,hfact⟩ := Option.isSome_iff_exists.mp hold
    obtain ⟨fact',hfact',-⟩ := after_aged later _ old fact hfact
    rw [after_append, after_cons, after_nil, after_append] at hnew
    rw [after_append] at hnone
    exact step_fresh _ op old new (by simp [hfact']) hnone hnew
  · intro front op back _
    exact step_told _ op (hsound front)

end Emma.FactRuns

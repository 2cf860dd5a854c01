import Emma.ClosedWork

/-!
# The number that `create` prints

The script inserts a job in one process and asks for the largest number in
another, while the service and other sessions write to the same table. What is
printed is the number of the last row that anybody inserted until then.
-/

set_option autoImplicit false

namespace Emma.CreatedNumbers
open Statements Runs Emma.Python Emma.LanguageModel Emma.Tasks Emma.DevelopmentTools
open Emma.QueueScript Emma.QueueMoves Emma.ToolStatements Emma.ClosedWork

def printed : Process → Option String
  | .session (.done (.ok (.line text))) => some text
  | _ => none

/-- A `create` that recorded the session and has its job still to insert. -/
def AtInsert (request : String) (p : Process) : Prop := p = .session (carryOut (.create request))

def Creates (request : String) : Call → Prop
  | .session r => understood r = .ok (.create request)
  | _ => False

def Inserts (p : Process) : Prop := ∃ request, p.effect = .created request

section
variable {ι : Type} [DecidableEq ι] (clock : Clock)

def Adds (w : Work ι) (i : ι) (taskId : ℕ) : Prop :=
  w.2.tasks.find taskId = none ∧ ((step clock w i).2.tasks.find taskId).isSome = true

/-- What each `create` of a run prints, once it has come so far, is the number of
the row that it added itself. -/
def TellsItsOwn (schedule : List ι) (w : Work ι) : Prop :=
  ∀ front i between back request, schedule = front ++ i::(between ++ i::back) → i ∉ between →
    let inserting := after (step clock) front w
    let asking := after (step clock) between (step clock inserting i)
    AtInsert request (inserting.1 i) → ∃ taskId, Adds clock inserting i taskId ∧
      printed ((step clock asking i).1 i) = some ("created #" ++ toString taskId)

/-- Nobody inserts a row between the two statements of a `create`. -/
def Undisturbed (schedule : List ι) (w : Work ι) : Prop :=
  ∀ front i between back request, schedule = front ++ i::(between ++ i::back) → i ∉ between →
    let inserting := after (step clock) front w
    AtInsert request (inserting.1 i) →
    Throughout (step clock) (fun w j => ¬Inserts (w.1 j)) between (step clock inserting i)

end

def Topped (t : TaskTable) : Prop := (t.find t.seq).isSome = true

theorem newest_topped (t : TaskTable) (h : Topped t) :
    (t.rows.map Prod.fst).foldl max 0 = t.seq := by
  obtain ⟨task,hfind⟩ := Option.isSome_iff_exists.mp h
  have hmax : (t.rows.map Prod.fst).max? = some t.seq := by
    apply List.max?_eq_some_iff.mpr
    constructor
    · exact List.mem_map_of_mem (RowTable.find_iff t _ task |>.mp hfind)
    · intro id hid
      obtain ⟨row,hrow,rfl⟩ := List.mem_map.mp hid
      exact t.bounded row hrow
  rw [List.foldl_max, hmax]
  exact Nat.zero_max t.seq

theorem toString_inj (m n : ℕ) : toString m = toString n ↔ m = n := by
  constructor
  · intro h
    have hread := congrArg (fun text => Nat.ofDigitChars 10 text.toList 0) h
    simpa [Nat.toString_eq_repr, Nat.toList_repr, Nat.ofDigitChars_ten_toDigits] using hread
  · exact congrArg toString

theorem topped_insert (t : TaskTable) (task : Task) : Topped (t.insert task) := by
  rw [Topped, RowTable.insert_seq, RowTable.find_insert, if_pos rfl]
  rfl

section
variable {ι : Type} [DecidableEq ι] (clock : Clock)

theorem step_tasks (w : Work ι) (i : ι) : (step clock w i).2.tasks =
    ((w.1 i).effect.edit (clock w.2.readings)).apply w.2.tasks :=
  act_edit clock (w.1 i) w.2

theorem step_inserts (w : Work ι) (i : ι) (h : Inserts (w.1 i)) :
    ∃ task, (step clock w i).2.tasks = w.2.tasks.insert task := by
  obtain ⟨request,heffect⟩ := h
  rw [step_tasks, heffect]
  exact ⟨_,rfl⟩

theorem step_seq (w : Work ι) (i : ι) (h : ¬Inserts (w.1 i)) :
    (step clock w i).2.tasks.seq = w.2.tasks.seq := by
  rw [step_tasks]
  cases heffect : (w.1 i).effect with
  | created request => exact absurd ⟨request,heffect⟩ h
  | _ => rfl

theorem step_topped (w : Work ι) (i : ι) (h : Topped w.2.tasks) :
    Topped (step clock w i).2.tasks := by
  by_cases hinserts : Inserts (w.1 i)
  · obtain ⟨task,htasks⟩ := step_inserts clock w i hinserts
    rw [htasks]
    exact topped_insert w.2.tasks task
  · rw [Topped, step_seq clock w i hinserts]
    exact find_after clock w [i] w.2.tasks.seq h

/-- Numbers only grow, and stay where they are while nobody inserts. -/
theorem seq_after (between : List ι) (w : Work ι) :
    w.2.tasks.seq ≤ (after (step clock) between w).2.tasks.seq ∧
      ((after (step clock) between w).2.tasks.seq = w.2.tasks.seq ↔
        Throughout (step clock) (fun w j => ¬Inserts (w.1 j)) between w) := by
  induction between generalizing w with
  | nil => simp
  | cons j between ih =>
    obtain ⟨hgrown,hsame⟩ := ih (step clock w j)
    rw [after_cons, throughout_cons]
    by_cases hinserts : Inserts (w.1 j)
    · obtain ⟨task,htasks⟩ := step_inserts clock w j hinserts
      have hnext : (step clock w j).2.tasks.seq = w.2.tasks.seq+1 := by
        rw [htasks, RowTable.insert_seq]
      constructor
      · omega
      · apply iff_of_false
        · omega
        · exact fun h => h.1 hinserts
    · rw [step_seq clock w j hinserts] at hgrown hsame
      exact ⟨hgrown,hsame.trans (by simp [hinserts])⟩

theorem step_own (w : Work ι) (i : ι) : (step clock w i).1 i = (act clock (w.1 i,w.2)).1 :=
  Function.update_self ..

theorem step_other (w : Work ι) {i j : ι} (h : i ≠ j) : (step clock w j).1 i = w.1 i :=
  Function.update_of_ne h ..

theorem after_waiting (between : List ι) (i : ι) (h : i ∉ between) (w : Work ι) :
    (after (step clock) between w).1 i = w.1 i := by
  induction between generalizing w with
  | nil => rfl
  | cons j between ih =>
    rw [List.mem_cons, not_or] at h
    rw [after_cons, ih h.2]
    exact step_other clock w h.1

/-- The row that a `create` adds has the next number. -/
theorem adds_iff (w : Work ι) (i : ι) (request : String) (h : AtInsert request (w.1 i))
    (taskId : ℕ) : Adds clock w i taskId ↔ taskId = w.2.tasks.seq+1 := by
  have hinserts : Inserts (w.1 i) := ⟨request,by rw [h]; rfl⟩
  obtain ⟨task,htasks⟩ := step_inserts clock w i hinserts
  rw [Adds, htasks, RowTable.find_insert]
  constructor
  · rintro ⟨hnone,hsome⟩
    by_contra hother
    rw [if_neg hother, hnone] at hsome
    cases hsome
  · rintro rfl
    constructor
    · apply Option.eq_none_iff_forall_ne_some.mpr
      intro old hfind
      have hbound := w.2.tasks.find_bounded _ old hfind
      omega
    · rw [if_pos rfl]
      rfl

/-- What a `create` will do once its job is inserted. -/
def lookUp : QueueRun :=
  .next .newest fun taskId => .done (.ok (.line ("created #" ++ toString taskId)))

theorem step_atInsert (w : Work ι) (i : ι) (request : String) (h : AtInsert request (w.1 i)) :
    (step clock w i).1 i = .session lookUp := by
  rw [step_own, h]
  rfl

/-- What a `create` prints when others came between its statements. -/
theorem created_prints (w : Work ι) (i : ι) (request : String) (h : AtInsert request (w.1 i))
    (between : List ι) (hwaits : i ∉ between) :
    let asking := after (step clock) between (step clock w i)
    printed ((step clock asking i).1 i) = some ("created #" ++ toString asking.2.tasks.seq) := by
  intro asking
  have hnext := step_atInsert clock w i request h
  have hthere : asking.1 i = .session lookUp :=
    (after_waiting clock between i hwaits (step clock w i)).trans hnext
  have htopped : Topped asking.2.tasks := by
    apply after_keeps (fun w : Work ι => Topped w.2.tasks) (step_topped clock)
    obtain ⟨task,htasks⟩ := step_inserts clock w i ⟨request,by rw [h]; rfl⟩
    rw [htasks]
    exact topped_insert w.2.tasks task
  rw [step_own, hthere, ← newest_topped _ htopped]
  rfl

/-- Each `create` tells the number of its own job exactly when nobody inserts a
job between its two statements. -/
theorem tells_its_own_iff (names : List String) (calls : ι → Call) (s : Stores)
    (schedule : List ι) : TellsItsOwn clock schedule (opening names calls s) ↔
      Undisturbed clock schedule (opening names calls s) := by
  have hpair : ∀ front i between request, i ∉ between →
      let inserting := after (step clock) front (opening names calls s)
      let asking := after (step clock) between (step clock inserting i)
      AtInsert request (inserting.1 i) → ((∃ taskId, Adds clock inserting i taskId ∧
          printed ((step clock asking i).1 i) = some ("created #" ++ toString taskId)) ↔
        Throughout (step clock) (fun w j => ¬Inserts (w.1 j)) between
          (step clock inserting i)) := by
    intro front i between request hwaits inserting asking hat
    obtain ⟨task,htasks⟩ := step_inserts clock inserting i ⟨request,by rw [hat]; rfl⟩
    rw [← (seq_after clock between (step clock inserting i)).2,
      created_prints clock inserting i request hat between hwaits, htasks, RowTable.insert_seq]
    simp only [adds_iff clock inserting i request hat, exists_eq_left, Option.some.injEq,
      String.append_right_inj, toString_inj]
  constructor
  · intro htells front i between back request hschedule hwaits inserting hat
    exact (hpair front i between request hwaits hat).mp
      (htells front i between back request hschedule hwaits hat)
  · intro hundisturbed front i between back request hschedule hwaits inserting asking hat
    exact (hpair front i between request hwaits hat).mpr
      (hundisturbed front i between back request hschedule hwaits hat)

theorem start_creates (names : List String) (request : String) (call : Call)
    (h : Creates request call) :
    call.start names = .session (.next .beat fun _ => carryOut (.create request)) := by
  cases call with
  | session r =>
    obtain ⟨hword,hverb⟩ := isVerb_understood r _ h
    have hread : understood r = .ok (.create request) := h
    rw [Call.start, queueRun, if_neg hword, if_neg (by simp [hverb])]
    simp only [hread]
  | _ => cases h

/-- How far a `create` has come under a schedule. -/
inductive Course (w : Work ι) (i : ι) (request : String) (schedule : List ι) : Process → Prop
  | waiting : Course w i request schedule
      (.session (.next .beat fun _ => carryOut (.create request)))
  | inserting : Course w i request schedule (.session (carryOut (.create request)))
  | asking (front between : List ι) (hschedule : schedule = front ++ i::between)
      (hwaits : i ∉ between) (hat : AtInsert request ((after (step clock) front w).1 i)) :
      Course w i request schedule (.session lookUp)
  | told (front between back : List ι) (result : Except String Printed)
      (hschedule : schedule = front ++ i::(between ++ i::back)) (hwaits : i ∉ between)
      (hat : AtInsert request ((after (step clock) front w).1 i))
      (htold : (after (step clock) (front ++ i::(between ++ [i])) w).1 i =
        .session (.done result)) :
      Course w i request schedule (.session (.done result))

theorem create_course (names : List String) (calls : ι → Call) (s : Stores) (i : ι)
    (request : String) (hcall : Creates request (calls i)) (schedule : List ι) :
    Course clock (opening names calls s) i request schedule
      ((after (step clock) schedule (opening names calls s)).1 i) := by
  induction schedule using List.reverseRecOn with
  | nil =>
    have hstart : (opening names calls s).1 i = .session (.next .beat fun _ =>
      carryOut (.create request)) := start_creates names request (calls i) hcall
    rw [after_nil, hstart]
    exact .waiting
  | append_singleton schedule j ih =>
    rw [after_append, after_cons, after_nil]
    generalize hw : after (step clock) schedule (opening names calls s) = w at ih ⊢
    by_cases hij : i = j
    · subst hij
      rw [step_own]
      generalize hp : w.1 i = p at ih ⊢
      cases ih with
      | waiting => exact .inserting
      | inserting => exact .asking schedule [] rfl List.not_mem_nil (by rw [hw, hp]; rfl)
      | asking front between hschedule hwaits hat =>
        refine .told front between [] _ (by simp [hschedule]) hwaits hat ?_
        have hwhole : front ++ i::(between ++ [i]) = schedule ++ [i] := by simp [hschedule]
        rw [hwhole, after_append, hw, after_cons, after_nil, step_own, hp]
        rfl
      | told front between back result hschedule hwaits hat htold =>
        exact .told front between (back ++ [i]) result (by simp [hschedule]) hwaits hat htold
    · rw [step_other clock w hij]
      generalize w.1 i = p at ih ⊢
      cases ih with
      | waiting => exact .waiting
      | inserting => exact .inserting
      | asking front between hschedule hwaits hat =>
        exact .asking front (between ++ [j]) (by simp [hschedule]) (by simp [hwaits, hij]) hat
      | told front between back result hschedule hwaits hat htold =>
        exact .told front between (back ++ [j]) result (by simp [hschedule]) hwaits hat htold

/-- Whatever a `create` has printed it printed at the statement behind its insert. -/
theorem printed_behind_insert (names : List String) (calls : ι → Call) (s : Stores) (i : ι)
    (request text : String) (hcall : Creates request (calls i)) (schedule : List ι)
    (h : printed ((after (step clock) schedule (opening names calls s)).1 i) = some text) :
    ∃ front between back, schedule = front ++ i::(between ++ i::back) ∧ i ∉ between ∧
      AtInsert request ((after (step clock) front (opening names calls s)).1 i) ∧
      printed ((after (step clock) (front ++ i::(between ++ [i])) (opening names calls s)).1 i) =
        some text := by
  have hcourse := create_course clock names calls s i request hcall schedule
  generalize (after (step clock) schedule (opening names calls s)).1 i = p at h hcourse
  cases hcourse with
  | waiting => cases h
  | inserting => cases h
  | asking front between hschedule hwaits hat => cases h
  | told front between back result hschedule hwaits hat htold =>
    exact ⟨front,between,back,hschedule,hwaits,hat,by rw [htold]; exact h⟩

end

def disturbed : Bool → Call
  | true => .session ⟨"create trovato un difetto",[]⟩
  | false => .requestDevelopment [("request",⟨.string "aggiungi i promemoria",
      "aggiungi i promemoria",.error (.valueError
        "invalid literal for int() with base 10: 'aggiungi i promemoria'")⟩)]

theorem number_of_another_job : ¬TellsItsOwn (fun n => n) [true,true,false,true]
    (opening [] disturbed .empty) := by
  intro htells
  have hat : AtInsert "trovato un difetto"
      ((after (step fun n => n) [true] (opening [] disturbed .empty)).1 true) := rfl
  obtain ⟨taskId,hadds,hprinted⟩ := htells [true] true [false] [] _ rfl (by decide) hat
  obtain rfl : taskId = 1 := (adds_iff _ _ true _ hat taskId).mp hadds
  revert hprinted
  decide

end Emma.CreatedNumbers

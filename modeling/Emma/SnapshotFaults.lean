import Emma.SnapshotRotation

/-!
# When writing a snapshot raises

Three steps may fail in writing a snapshot: building the copy, checking it and
rotating it in. Each is followed by clearing the copy away, and no handler is
around that. So an error leaves the method when a step fails and the clearing
behind it fails as well.
-/

set_option autoImplicit false

namespace Emma.SnapshotFaults
open FaultyProgram Emma.Python Emma.DatabaseFiles Emma.SelfRepair Emma.SqliteMemory
open Emma.SnapshotRotation

variable {σ : Type}

def Builds (plan : Plan Call) (m : Machine σ) : Prop :=
  m.connection = some ⟨none⟩ ∧ isHealthy (m.files .database) = true ∧
    plan .unlinkOld = .runs ∧ ∀ step, plan (.vacuum step) = .runs

def Rotates (plan : Plan Call) (files : Directory σ) : Prop :=
  plan .snapshotPresent = .runs ∧
    ((files .snapshot).isSome = true → plan (.replace .snapshot) = .runs) ∧
    plan (.replace .snapshotTmp) = .runs

/-- A step fails, and clearing the copy away behind it fails too. -/
def CleanupFails (plan : Plan Call) (m : Machine σ) : Prop :=
  (¬Builds plan m ∧ plan .unlinkFailed ≠ .runs) ∨
  (Builds plan m ∧ plan (.check .snapshotTmp) ≠ .runs ∧ plan .unlinkUnhealthy ≠ .runs) ∨
  (Builds plan m ∧ plan (.check .snapshotTmp) = .runs ∧ ¬Rotates plan m.files ∧
    plan .unlinkUnrotated ≠ .runs)

theorem failing_runs_or_fails (faults : Faults Call) (site : Call) :
    failing faults site = .runs ∨ ∃ text, failing faults site = .fails text := by
  rw [failing]
  cases faults site with
  | none => exact .inl rfl
  | some text => exact .inr ⟨text,rfl⟩

theorem failing_fails {faults : Faults Call} {site : Call} (h : failing faults site ≠ .runs) :
    ∃ text, failing faults site = .fails text :=
  (failing_runs_or_fails faults site).resolve_left h

theorem unlink_returns_iff (faults : Faults Call) (site : Call) (file : FileName)
    (m : Machine σ) : (unlink site file (failing faults) m).1 = .returned () ↔
      failing faults site = .runs := by
  rw [unlink, perform_apply]
  rcases failing_runs_or_fails faults site with h | ⟨text,h⟩
  · simp [h]
  · simp [h]

theorem rotateIn_returns_iff (faults : Faults Call) (m : Machine σ) (copy : Content σ)
    (htmp : m.files .snapshotTmp = some copy) :
    (rotateIn (failing faults) m).1 = .returned () ↔
      Rotates (failing faults) m.files ∨ failing faults .unlinkUnrotated = .runs := by
  have hcleanup : ∀ text m', rotate (failing faults) m = (.raised (.osError text),m') →
      ((rotateIn (failing faults) m).1 = .returned () ↔
        failing faults .unlinkUnrotated = .runs) := by
    intro text m' hrotate
    rw [rotateIn, exceptOSError, attempt_apply, hrotate]
    exact unlink_returns_iff faults _ _ m'
  by_cases hpresent : failing faults .snapshotPresent = .runs
  swap
  · obtain ⟨text,hfails⟩ := failing_fails hpresent
    rw [hcleanup text m (by simp [rotate, bind_apply, present, perform_apply, hfails])]
    simp [Rotates, hpresent]
  have hsecond : ∀ m' : Machine σ, m'.files .snapshotTmp = some copy →
      rotate (failing faults) m =
        move (.replace .snapshotTmp) .snapshotTmp .snapshot (failing faults) m' →
      ((rotateIn (failing faults) m).1 = .returned () ↔
        failing faults (.replace .snapshotTmp) = .runs ∨
          failing faults .unlinkUnrotated = .runs) := by
    intro m' htmp' hrotate
    by_cases hmoves : failing faults (.replace .snapshotTmp) = .runs
    · simp [rotateIn, exceptOSError, attempt_apply, hrotate, move, perform_apply, hmoves,
        bind_apply, htmp']
    · obtain ⟨text,hfails⟩ := failing_fails hmoves
      rw [hcleanup text m' (by simp [hrotate, move, perform_apply, hfails])]
      simp [hmoves]
  cases hs : m.files .snapshot with
  | none =>
    rw [hsecond m htmp (by simp [rotate, bind_apply, present, perform_apply, hpresent, hs])]
    simp [Rotates, hpresent, hs]
  | some content =>
    by_cases hfirst : failing faults (.replace .snapshot) = .runs
    · rw [hsecond ((m.put .snapshot none).put .snapshotPrev (some content)) (by simpa using htmp)
        (by simp [rotate, bind_apply, present, perform_apply, hpresent, hs, move, hfirst])]
      simp [Rotates, hpresent, hs, hfirst]
    · obtain ⟨text,hfails⟩ := failing_fails hfirst
      rw [hcleanup text m
        (by simp [rotate, bind_apply, present, perform_apply, hpresent, hs, move, hfails])]
      simp [Rotates, hs, hfirst]

section
variable [EmptyCollection σ]

theorem writeOut_raises (faults : Faults Call) (site : WriteStep → Call)
    (error : String → PyError) (target : FileName) (whole : Content σ) (m : Machine σ)
    (h : ¬∀ step, failing faults (site step) = .runs) :
    ∃ e, (writeOut site error target whole (failing faults) m).1 = .raised e := by
  by_cases hcreate : failing faults (site .create) = .runs
  swap
  · obtain ⟨text,hfails⟩ := failing_fails hcreate
    simp [writeOut, bind_apply, perform_apply, hfails]
  by_cases hhead : failing faults (site .head) = .runs
  swap
  · obtain ⟨text,hfails⟩ := failing_fails hhead
    simp [writeOut, bind_apply, perform_apply, hcreate, hfails]
  by_cases hrest : failing faults (site .rest) = .runs
  swap
  · obtain ⟨text,hfails⟩ := failing_fails hrest
    simp [writeOut, bind_apply, perform_apply, hcreate, hhead, hfails]
  · exact absurd (fun step => by cases step <;> assumption) h

/-- Where the copy cannot be built, something on the way to it raises. -/
theorem building_raises (faults : Faults Call) (m : Machine σ)
    (hopen : m.connection.isSome = true) (h : ¬Builds (failing faults) m) :
    ∃ e, ((do
      unlink .unlinkOld .snapshotTmp
      vacuumInto .snapshotTmp
      pure true : Action σ Bool) (failing faults) m).1 = .raised e := by
  by_cases hcleared : failing faults .unlinkOld = .runs
  swap
  · obtain ⟨text,hfails⟩ := failing_fails hcleared
    simp [bind_apply, unlink, perform_apply, hfails]
  rw [bind_returned (unlink_runs hcleared .snapshotTmp m)]
  obtain ⟨files,connection⟩ := m
  rcases connection with _ | ⟨_ | pending⟩
  · cases hopen
  · cases hstate : stateOf (files .database) with
    | none => simp [vacuumInto, bind_apply, onView, view, hstate]
    | some state =>
      have hcopied : ¬∀ step, failing faults (.vacuum step) = .runs := fun hruns =>
        h ⟨rfl,by simp [isHealthy, hstate],hcleared,hruns⟩
      obtain ⟨e,hout⟩ := writeOut_raises faults .vacuum .databaseError .snapshotTmp
        (.healthy state) ((⟨files,some ⟨none⟩⟩ : Machine σ).put .snapshotTmp none) hcopied
      rcases hrun : writeOut .vacuum .databaseError .snapshotTmp (.healthy state) (failing faults)
        ((⟨files,some ⟨none⟩⟩ : Machine σ).put .snapshotTmp none) with ⟨exit,m'⟩
      rw [hrun] at hout
      simp only at hout
      simp [vacuumInto, bind_apply, onView, view, hstate, hrun, hout]
  · simp [vacuumInto, bind_apply]

theorem writeCopy_builds (plan : Plan Call) (m : Machine σ) (h : Builds plan m) :
    ∃ state, writeCopy plan m = (.returned true,m.put .snapshotTmp (some (.healthy state))) := by
  obtain ⟨hconnected,hlive,hcleared,hcopied⟩ := h
  obtain ⟨state,hstate⟩ := Option.isSome_iff_exists.mp hlive
  exact ⟨state,writeCopy_runs plan m hconnected hcleared hcopied state hstate⟩

theorem checked_returns_iff (faults : Faults Call) (m : Machine σ) (state : σ)
    (htmp : m.files .snapshotTmp = some (.healthy state)) :
    ((do
      if ← fileIsHealthy .snapshotTmp then
        exceptOSError (perform .chmod .osError (pure ())) fun _ => pure ()
        rotateIn
      else unlink .unlinkUnhealthy .snapshotTmp : Action σ Unit) (failing faults) m).1 =
        .returned () ↔
    if failing faults (.check .snapshotTmp) = .runs then
      Rotates (failing faults) m.files ∨ failing faults .unlinkUnrotated = .runs
    else failing faults .unlinkUnhealthy = .runs := by
  by_cases hcheck : failing faults (.check .snapshotTmp) = .runs
  · have hhealthy : fileIsHealthy .snapshotTmp (failing faults) m = (.returned true,m) := by
      rw [fileIsHealthy_checked _ .snapshotTmp m hcheck (by simp [htmp]), htmp]
      rfl
    have hchmod : exceptOSError (perform .chmod .osError (pure ())) (fun _ => pure ())
        (failing faults) m = (.returned (),m) := by
      rcases failing_runs_or_fails faults .chmod with h | ⟨text,h⟩
      · simp [exceptOSError, attempt_apply, perform_apply, h]
      · simp [exceptOSError, attempt_apply, perform_apply, h]
    rw [if_pos hcheck, bind_returned hhealthy, if_pos rfl, bind_returned hchmod]
    exact rotateIn_returns_iff faults m _ htmp
  · obtain ⟨text,hfails⟩ := failing_fails hcheck
    have hsick : fileIsHealthy .snapshotTmp (failing faults) m = (.returned false,m) := by
      simp [fileIsHealthy, attempt_apply, perform_apply, hfails]
    rw [if_neg hcheck, bind_returned hsick, if_neg Bool.false_ne_true]
    exact unlink_returns_iff faults _ _ m

theorem writeSnapshot_returns_iff (faults : Faults Call) (m : Machine σ)
    (hopen : m.connection.isSome = true) :
    (writeSnapshot (failing faults) m).1 = .returned () ↔ ¬CleanupFails (failing faults) m := by
  rw [writeSnapshot, bind_returned (requireOpen_apply _ m hopen)]
  by_cases hbuilds : Builds (failing faults) m
  · obtain ⟨state,hcopy⟩ := writeCopy_builds _ m hbuilds
    rw [bind_returned hcopy, if_pos rfl, checked_returns_iff faults _ state (by simp)]
    have hsame : Rotates (failing faults) (m.put .snapshotTmp (some (.healthy state))).files ↔
        Rotates (failing faults) m.files := by simp [Rotates]
    rw [hsame]
    by_cases hcheck : failing faults (.check .snapshotTmp) = .runs
    · simp only [CleanupFails, hbuilds, hcheck, if_true]
      tauto
    · simp only [CleanupFails, hbuilds, hcheck, if_false]
      tauto
  · obtain ⟨e,hraised⟩ := building_raises faults m hopen hbuilds
    obtain ⟨m',hcopy⟩ : ∃ m', writeCopy (failing faults) m =
        (do unlink .unlinkFailed .snapshotTmp; pure false : Action σ Bool) (failing faults) m' :=
      ⟨_,attempt_raised hraised⟩
    simp only [CleanupFails, hbuilds, not_false_eq_true, true_and, false_and, or_false, not_not]
    by_cases hcleanup : failing faults .unlinkFailed = .runs
    · rw [bind_returned (unlink_runs hcleanup .snapshotTmp m')] at hcopy
      rw [bind_returned hcopy]
      simp [hcleanup]
    · obtain ⟨text,hfails⟩ := failing_fails hcleanup
      have hunlink : unlink .unlinkFailed .snapshotTmp (failing faults) m' =
          (.raised (.osError text),m') := by
        rw [unlink, perform_apply, hfails]
      rw [bind_raised hunlink] at hcopy
      rw [bind_raised hcopy]
      simp [hcleanup]

/-- The method returns; an opening that has come to this machine completes, and
closing it closes the connection. -/
structure Harmless (faults : Faults Call) (m : Machine σ) : Prop where
  returns : (writeSnapshot (failing faults) m).1 = .returned ()
  opening : ∀ parent stamp start,
    (do
      makeDirectory parent
      verify stamp
      connectAndPrepare : Action σ Unit) (failing faults) start = (.returned (),m) →
    (openMemory parent stamp (failing faults) start).1 = .returned ()
  closing : failing faults .closeConnection = .runs →
    (closeMemory (failing faults) m).1 = .returned () ∧
      (closeMemory (failing faults) m).2.connection = none

theorem opening_completes (plan : Plan Call) (parent stamp : String) (start m : Machine σ)
    (hstart : (do
      makeDirectory parent
      verify stamp
      connectAndPrepare : Action σ Unit) plan start = (.returned (),m)) :
    openMemory parent stamp plan start = writeSnapshot plan m := by
  obtain ⟨_,m1,hmake,hrest⟩ := bind_eq_returned.mp hstart
  obtain ⟨_,m2,hverify,hprepare⟩ := bind_eq_returned.mp hrest
  rw [openMemory, bind_returned hmake, bind_returned hverify, bind_returned hprepare]

theorem closing_closes (plan : Plan Call) (m : Machine σ) (hopen : m.connection.isSome = true)
    (hreturns : (writeSnapshot plan m).1 = .returned ())
    (hcloses : plan .closeConnection = .runs) :
    (closeMemory plan m).1 = .returned () ∧ (closeMemory plan m).2.connection = none := by
  have hlook : (look fun m : Machine σ => m.connection.isSome : Action σ Bool) plan m =
      (.returned true,m) := by rw [look_apply, hopen]
  have hsnapshot : writeSnapshot plan m = (.returned (),(writeSnapshot plan m).2) :=
    Prod.ext hreturns rfl
  rw [closeMemory, bind_returned hlook, if_pos rfl, bind_returned hsnapshot, perform_apply, hcloses]
  exact ⟨rfl,rfl⟩

/-- On an open store a snapshot does no harm exactly when no clearing away fails
behind a step that failed. -/
theorem snapshot_harmless_iff (faults : Faults Call) (files : Directory σ)
    (connection : Connection σ) : Harmless faults ⟨files,some connection⟩ ↔
      ¬CleanupFails (failing faults) ⟨files,some connection⟩ := by
  have hreturns := writeSnapshot_returns_iff faults ⟨files,some connection⟩ rfl
  constructor
  · intro h
    exact hreturns.mp h.returns
  · intro h
    constructor
    · exact hreturns.mpr h
    · intro parent stamp start hstart
      rw [opening_completes _ parent stamp start _ hstart]
      exact hreturns.mpr h
    · exact closing_closes _ _ rfl (hreturns.mpr h)

end

/-- The copy of an earlier start is in the way and cannot be removed. -/
def undeletable : Faults Call := fun site =>
  if site = .unlinkOld ∨ site = .unlinkFailed then some "Permission denied" else none

def openEmpty : Machine MessageTable where
  files
    | .database => some (.healthy ∅)
    | .snapshotTmp => some (.healthy ∅)
    | _ => none
  connection := some ⟨none⟩

theorem undeletable_copy_is_fatal :
    (writeSnapshot (failing undeletable) openEmpty).1 = .raised (.osError "Permission denied") ∧
    (closeMemory (failing undeletable) openEmpty).2.connection = some ⟨none⟩ ∧
    ¬Harmless undeletable openEmpty := by
  refine ⟨by decide,by decide,fun h => ?_⟩
  exact absurd h.returns (by decide)

end Emma.SnapshotFaults

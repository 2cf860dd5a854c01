import Emma.CrashRecovery

/-!
# Opening a corrupt database while the disk refuses

Any rename, copy, unlink or replace on the way may raise. What the opening then
serves depends on three things: whether the corrupt file and each companion
could be moved, how far the copy of each generation came, and whether the
rotation at the end raises out of the method.
-/

set_option autoImplicit false

namespace Emma.RecoveryFaults
open FaultyProgram Emma.Python Emma.DatabaseFiles Emma.SelfRepair Emma.SnapshotRotation
open Emma.SqliteMemory Emma.CrashRecovery

def Fallible : Call → Prop
  | .rename _ => True
  | .copy _ _ => True
  | .copyStat _ => True
  | .unlinkOld => True
  | .unlinkFailed => True
  | .unlinkUnhealthy => True
  | .unlinkUnrotated => True
  | .replace _ => True
  | _ => False

def OSErrorsOnly (plan : Plan Call) : Prop :=
  ∀ site, plan site = .runs ∨ (Fallible site ∧ ∃ text, plan site = .fails text)

variable {σ : Type}

def CompanionsMove (plan : Plan Call) (files : Directory σ) : Prop :=
  ((files .wal).isSome = true → plan (.rename .wal) = .runs) ∧
    ((files .shm).isSome = true → plan (.rename .shm) = .runs)

def Begun (plan : Plan Call) (files : Directory σ) (file : FileName) : Prop :=
  isHealthy (files file) = true ∧ plan (.copy file .create) = .runs

def Copied (plan : Plan Call) (file : FileName) : Prop :=
  (∀ step, plan (.copy file step) = .runs) ∧ plan (.copyStat file) = .runs

/-- No copy is completed, and of the last one begun not a byte is written. -/
def NothingRestored (plan : Plan Call) (files : Directory σ) : List FileName → Prop
  | [] => True
  | file::older =>
    (Begun plan files file → plan (.copy file .head) ≠ .runs ∨
      (¬Copied plan file ∧ ∃ other ∈ older, Begun plan files other)) ∧
    NothingRestored plan files older

/-- The cleanup after a failed step of the rotation fails as well. -/
def RotationRaises (plan : Plan Call) (files : Directory σ) : Prop :=
  (plan .unlinkOld ≠ .runs ∧ plan .unlinkFailed ≠ .runs) ∨
    (plan .unlinkOld = .runs ∧
      (((files .snapshot).isSome = true ∧ plan (.replace .snapshot) ≠ .runs) ∨
        plan (.replace .snapshotTmp) ≠ .runs) ∧
      plan .unlinkUnrotated ≠ .runs)

theorem osErrorsOnly_runs {plan : Plan Call} (h : OSErrorsOnly plan) {site : Call}
    (hsite : ¬Fallible site) : plan site = .runs :=
  (h site).resolve_right fun hf => hsite hf.1

theorem osErrorsOnly_fails {plan : Plan Call} (h : OSErrorsOnly plan) {site : Call}
    (hsite : plan site ≠ .runs) : ∃ text, plan site = .fails text :=
  ((h site).resolve_left hsite).2

theorem quarantine_faulty (stamp : String) (plan : Plan Call) (hplan : OSErrorsOnly plan)
    (m : Machine σ) (h : (m.files .database).isSome = true) :
    (plan (.rename .database) ≠ .runs ∧ quarantine stamp plan m = (.returned false,m)) ∨
    (plan (.rename .database) = .runs ∧ ¬CompanionsMove plan m.files ∧
      ∃ m', quarantine stamp plan m = (.returned false,m') ∧ m'.files .database = none ∧
        ((m'.files .wal).isSome = true ∨ (m'.files .shm).isSome = true)) ∨
    (plan (.rename .database) = .runs ∧ CompanionsMove plan m.files ∧
      quarantine stamp plan m = (.returned true,aside stamp m)) := by
  have hwal : plan (.present .wal) = .runs := osErrorsOnly_runs hplan (by simp [Fallible])
  have hshm : plan (.present .shm) = .runs := osErrorsOnly_runs hplan (by simp [Fallible])
  obtain ⟨content,hd⟩ := Option.isSome_iff_exists.mp h
  by_cases h1 : plan (.rename .database) = .runs
  swap
  · obtain ⟨text,h1'⟩ := osErrorsOnly_fails hplan h1
    refine .inl ⟨h1,?_⟩
    simp [quarantine, exceptOSError, attempt_apply, bind_apply, move, perform_apply, h1']
  right
  have hmoved := move_returns plan m (.corrupt stamp) h1 hd
  generalize hm1 : (m.put .database none).put (.corrupt stamp) (some content) = m1 at hmoved
  have hnone : m1.files .database = none := by simp [← hm1]
  have hwsame : m1.files .wal = m.files .wal := by simp [← hm1]
  have hssame : m1.files .shm = m.files .shm := by simp [← hm1]
  by_cases h2 : (m.files .wal).isSome = true → plan (.rename .wal) = .runs
  swap
  · obtain ⟨hw,hfails⟩ := Classical.not_imp.mp h2
    obtain ⟨text,h2'⟩ := osErrorsOnly_fails hplan hfails
    rw [← hwsame] at hw
    have hstop := moveSidecar_fails plan m1 (.corruptWal stamp) hwal hw h2'
    refine .inl ⟨h1,fun hmove => h2 hmove.1,m1,?_,hnone,.inl hw⟩
    rw [quarantine, exceptOSError, attempt_apply, bind_returned hmoved, bind_raised hstop]
    rfl
  have hw := moveSidecar_returns plan m1 (.corruptWal stamp) hwal (by rwa [hwsame])
  by_cases h3 : (m.files .shm).isSome = true → plan (.rename .shm) = .runs
  swap
  · obtain ⟨hs,hfails⟩ := Classical.not_imp.mp h3
    obtain ⟨text,h3'⟩ := osErrorsOnly_fails hplan hfails
    have hkept : ∀ file : FileName, file ≠ .wal → file ≠ .corruptWal stamp →
        (sidecarAside .wal (.corruptWal stamp) m1).files file = m1.files file :=
      fun file hf hq => sidecarAside_other hf hq m1
    generalize sidecarAside .wal (.corruptWal stamp) m1 = m2 at hw hkept
    have hs' : (m2.files .shm).isSome = true := by
      rwa [hkept .shm (by simp) (by simp), hssame]
    have hstop := moveSidecar_fails plan m2 (.corruptShm stamp) hshm hs' h3'
    refine .inl ⟨h1,fun hmove => h3 hmove.2,m2,?_,?_,.inr hs'⟩
    · rw [quarantine, exceptOSError, attempt_apply, bind_returned hmoved, bind_returned hw,
        bind_raised hstop]
      rfl
    · rw [hkept .database (by simp) (by simp), hnone]
  exact .inr ⟨h1,⟨h2,h3⟩,quarantine_returns plan m stamp h h1 hwal hshm h2 h3⟩

section
variable [EmptyCollection σ]

def FreshBesideCompanions (m : Machine σ) : Prop :=
  m.files .database = some (.healthy ∅) ∧
    ((m.files .wal).isSome = true ∨ (m.files .shm).isSome = true)

/-- The opening raised, or it serves a generation that was healthy when it
began; in neither case is a new database left among old companions. -/
def NoSilentLoss (files : Directory σ) (r : Exit PyError Unit × Machine σ) : Prop :=
  (r.1 = .returned () →
    ∃ file ∈ generations, ∃ state, stateOf (files file) = some state ∧ Serving r.2 state) ∧
  ¬FreshBesideCompanions r.2

def Leaves (plan : Plan Call) (files : Directory σ) (candidates : List FileName)
    (before left : Option (Content σ)) : Prop :=
  (NothingRestored plan files candidates ∧
    ((∃ file ∈ candidates, Begun plan files file) → left = some (.healthy ∅)) ∧
    ((¬∃ file ∈ candidates, Begun plan files file) → left = before)) ∨
  (¬NothingRestored plan files candidates ∧
    ((∃ state, left = some (.torn state)) ∨
      ∃ file ∈ candidates, ∃ state, stateOf (files file) = some state ∧
        left = some (.healthy state)))

theorem leaves_older {plan : Plan Call} {files : Directory σ} {candidate : FileName}
    {older : List FileName} {before left : Option (Content σ)}
    (h1 : ¬NothingRestored plan files older)
    (h2 : (∃ state, left = some (.torn state)) ∨ ∃ file ∈ older, ∃ state,
      stateOf (files file) = some state ∧ left = some (.healthy state)) :
    Leaves plan files (candidate::older) before left := by
  right
  constructor
  · exact fun h => h1 h.2
  · rcases h2 with htorn | ⟨file,hfile,hstate⟩
    · exact .inl htorn
    · exact .inr ⟨file,List.mem_cons_of_mem _ hfile,hstate⟩

theorem leaves_skipped {plan : Plan Call} {files : Directory σ} {candidate : FileName}
    {older : List FileName} {before left : Option (Content σ)}
    (hb : ¬Begun plan files candidate) (h : Leaves plan files older before left) :
    Leaves plan files (candidate::older) before left := by
  rcases h with ⟨h1,h2,h3⟩ | ⟨h1,h2⟩
  · exact .inl ⟨⟨fun h => absurd h hb,h1⟩,by simpa [hb] using h2,by simpa [hb] using h3⟩
  · exact leaves_older h1 h2

theorem leaves_emptied {plan : Plan Call} {files : Directory σ} {candidate : FileName}
    {older : List FileName} {before left : Option (Content σ)}
    (hb : Begun plan files candidate) (hhead : plan (.copy candidate .head) ≠ .runs)
    (h : Leaves plan files older (some (.healthy ∅)) left) :
    Leaves plan files (candidate::older) before left := by
  rcases h with ⟨h1,h2,h3⟩ | ⟨h1,h2⟩
  · have hempty : left = some (.healthy ∅) := by
      by_cases hlater : ∃ file ∈ older, Begun plan files file
      · exact h2 hlater
      · exact h3 hlater
    exact .inl ⟨⟨fun _ => .inl hhead,h1⟩,fun _ => hempty,
      fun hnone => absurd ⟨candidate,by simp,hb⟩ hnone⟩
  · exact leaves_older h1 h2

theorem leaves_broken {plan : Plan Call} {files : Directory σ} {candidate : FileName}
    {older : List FileName} {before left : Option (Content σ)} {state : σ} {written : Content σ}
    (hstate : stateOf (files candidate) = some state)
    (hwritten : written = .torn state ∨ written = .healthy state)
    (hb : Begun plan files candidate) (hhead : plan (.copy candidate .head) = .runs)
    (hcopied : ¬Copied plan candidate) (h : Leaves plan files older (some written) left) :
    Leaves plan files (candidate::older) before left := by
  rcases h with ⟨h1,h2,h3⟩ | ⟨h1,h2⟩
  · by_cases hlater : ∃ file ∈ older, Begun plan files file
    · exact .inl ⟨⟨fun _ => .inr ⟨hcopied,hlater⟩,h1⟩,fun _ => h2 hlater,
        fun hnone => absurd ⟨candidate,by simp,hb⟩ hnone⟩
    · refine .inr ⟨fun h => ?_,?_⟩
      · rcases h.1 hb with hfails | ⟨-,hsome⟩
        · exact hfails hhead
        · exact hlater hsome
      · rw [h3 hlater]
        rcases hwritten with rfl | rfl
        · exact .inl ⟨state,rfl⟩
        · exact .inr ⟨candidate,by simp,state,hstate,rfl⟩
  · exact leaves_older h1 h2

theorem leaves_copied {plan : Plan Call} {files : Directory σ} {candidate : FileName}
    {older : List FileName} {before : Option (Content σ)} {state : σ}
    (hstate : stateOf (files candidate) = some state) (hcopied : Copied plan candidate) :
    Leaves plan files (candidate::older) before (some (.healthy state)) := by
  refine .inr ⟨fun h => ?_,.inr ⟨candidate,by simp,state,hstate,rfl⟩⟩
  have hb : Begun plan files candidate := ⟨by simp [isHealthy, hstate],hcopied.1 .create⟩
  rcases h.1 hb with hfails | ⟨hnot,-⟩
  · exact hfails (hcopied.1 .head)
  · exact hnot hcopied

inductive CopyEnds (plan : Plan Call) (candidate : FileName) (state : σ) (m : Machine σ) :
    Exit PyError Unit × Machine σ → Prop
  | untouched (text : String) (hcreate : plan (.copy candidate .create) ≠ .runs) :
      CopyEnds plan candidate state m (.raised (.osError text),m)
  | emptied (text : String) (hcreate : plan (.copy candidate .create) = .runs)
      (hhead : plan (.copy candidate .head) ≠ .runs) :
      CopyEnds plan candidate state m
        (.raised (.osError text),m.put .database (some (.healthy ∅)))
  | broken (text : String) (written : Content σ)
      (hwritten : written = .torn state ∨ written = .healthy state)
      (hcreate : plan (.copy candidate .create) = .runs)
      (hhead : plan (.copy candidate .head) = .runs) (hcopied : ¬Copied plan candidate) :
      CopyEnds plan candidate state m
        (.raised (.osError text),m.put .database (some written))
  | whole (hcopied : Copied plan candidate) :
      CopyEnds plan candidate state m (.returned (),m.put .database (some (.healthy state)))

theorem copy2_ends (plan : Plan Call) (hplan : OSErrorsOnly plan) (candidate : FileName)
    (m : Machine σ) (state : σ) (hcontent : m.files candidate = some (.healthy state)) :
    CopyEnds plan candidate state m (copy2 candidate .database plan m) := by
  by_cases h1 : plan (.copy candidate .create) = .runs
  swap
  · obtain ⟨text,h1'⟩ := osErrorsOnly_fails hplan h1
    simpa [copy2, bind_apply, hcontent, writeOut, perform_apply, h1'] using
      CopyEnds.untouched text h1
  by_cases h2 : plan (.copy candidate .head) = .runs
  swap
  · obtain ⟨text,h2'⟩ := osErrorsOnly_fails hplan h2
    simpa [copy2, bind_apply, hcontent, writeOut, perform_apply, h1, h2'] using
      CopyEnds.emptied text h1 h2
  by_cases h3 : plan (.copy candidate .rest) = .runs
  swap
  · obtain ⟨text,h3'⟩ := osErrorsOnly_fails hplan h3
    simpa [copy2, bind_apply, hcontent, writeOut, perform_apply, h1, h2, h3', put_put,
      Content.part] using
        CopyEnds.broken text (.torn state) (.inl rfl) h1 h2 fun h => h3 (h.1 .rest)
  by_cases h4 : plan (.copyStat candidate) = .runs
  swap
  · obtain ⟨text,h4'⟩ := osErrorsOnly_fails hplan h4
    simpa [copy2, bind_apply, hcontent, writeOut, perform_apply, h1, h2, h3, h4', put_put] using
      CopyEnds.broken text (.healthy state) (.inr rfl) h1 h2 fun h => h4 h.2
  · have hcopied : Copied plan candidate := ⟨fun step => by cases step <;> assumption,h4⟩
    have hends : CopyEnds plan candidate state m _ := .whole hcopied
    simpa [copy2, bind_apply, hcontent, writeOut, perform_apply, h1, h2, h3, h4, put_put]
      using hends

def LeavesOf (plan : Plan Call) (files : Directory σ) (candidates : List FileName)
    (m : Machine σ) : Prop :=
  ∃ left, restoreFrom candidates plan m = (.returned (),m.put .database left) ∧
    Leaves plan files candidates (m.files .database) left

/-- A healthy generation is copied whole, or the older ones have their turn at what
the copy left in the place of the database. -/
theorem restoreFrom_healthy_leaves (plan : Plan Call) (hplan : OSErrorsOnly plan)
    (files : Directory σ) (candidate : FileName) (older : List FileName) (hc : .database ∉ older)
    (hother : candidate ≠ .database) (m : Machine σ) (state : σ)
    (hs : stateOf (files candidate) = some state)
    (hf : m.files candidate = files candidate) (holder : ∀ file ∈ older, m.files file = files file)
    (hrest : ∀ m' : Machine σ, (∀ file ∈ older, m'.files file = files file) →
      LeavesOf plan files older m') : LeavesOf plan files (candidate::older) m := by
  have hpresent : plan (.present candidate) = .runs :=
    osErrorsOnly_runs hplan (by simp [Fallible])
  have hcheck : plan (.check candidate) = .runs := osErrorsOnly_runs hplan (by simp [Fallible])
  have hcontent := hf.trans (stateOf_eq_some.mp hs)
  have hbegun : plan (.copy candidate .create) = .runs → Begun plan files candidate :=
    fun h => ⟨by simp [isHealthy, hs],h⟩
  have hagain : ∀ content : Content σ, ∃ left,
      restoreFrom older plan (m.put .database (some content)) =
        (.returned (),m.put .database left) ∧
      Leaves plan files older (some content) left := by
    intro content
    obtain ⟨left,hrun,hleaves⟩ := hrest (m.put .database (some content)) fun file hfile => by
      have hne : file ≠ .database := fun h => hc (h ▸ hfile)
      simp [hne, holder file hfile]
    rw [put_put] at hrun
    rw [put_files, if_pos rfl] at hleaves
    exact ⟨left,hrun,hleaves⟩
  have hraised : ∀ text m', copy2 candidate .database plan m = (.raised (.osError text),m') →
      restoreFrom (candidate::older) plan m = restoreFrom older plan m' := by
    intro text m' hcopy
    rw [restoreFrom_healthy plan candidate older m hpresent hother hcheck state hcontent, hcopy]
  have hdone : ∀ m', copy2 candidate .database plan m = (.returned (),m') →
      restoreFrom (candidate::older) plan m = (.returned (),m') := by
    intro m' hcopy
    rw [restoreFrom_healthy plan candidate older m hpresent hother hcheck state hcontent, hcopy]
  have hends := copy2_ends plan hplan candidate m state hcontent
  generalize hcopy : copy2 candidate .database plan m = ended at hends
  cases hends with
  | untouched text hcreate =>
    obtain ⟨left,hrun,hleaves⟩ := hrest m holder
    exact ⟨left,(hraised text m hcopy).trans hrun,leaves_skipped (fun hb => hcreate hb.2) hleaves⟩
  | emptied text hcreate hhead =>
    obtain ⟨left,hrun,hleaves⟩ := hagain (.healthy ∅)
    exact ⟨left,(hraised text _ hcopy).trans hrun,leaves_emptied (hbegun hcreate) hhead hleaves⟩
  | broken text written hwritten hcreate hhead hcopied =>
    obtain ⟨left,hrun,hleaves⟩ := hagain written
    exact ⟨left,(hraised text _ hcopy).trans hrun,
      leaves_broken hs hwritten (hbegun hcreate) hhead hcopied hleaves⟩
  | whole hcopied => exact ⟨_,hdone _ hcopy,leaves_copied hs hcopied⟩

theorem restoreFrom_leaves (plan : Plan Call) (hplan : OSErrorsOnly plan) (files : Directory σ)
    (candidates : List FileName) (hc : .database ∉ candidates) (m : Machine σ)
    (hsame : ∀ file ∈ candidates, m.files file = files file) :
    ∃ left, restoreFrom candidates plan m = (.returned (),m.put .database left) ∧
      Leaves plan files candidates (m.files .database) left := by
  induction candidates generalizing m with
  | nil =>
    refine ⟨m.files .database,?_,.inl ⟨trivial,by simp,fun _ => rfl⟩⟩
    simp [restoreFrom, Machine.put]
  | cons candidate older ih =>
    have hc' : .database ∉ older := fun h => hc (List.mem_cons_of_mem _ h)
    have hother : candidate ≠ .database := fun h => hc (h ▸ List.mem_cons_self)
    have holder : ∀ file ∈ older, m.files file = files file := fun file hfile =>
      hsame file (List.mem_cons_of_mem _ hfile)
    have hf := hsame candidate (by simp)
    have hpresent : plan (.present candidate) = .runs :=
      osErrorsOnly_runs hplan (by simp [Fallible])
    have hcheck : plan (.check candidate) = .runs := osErrorsOnly_runs hplan (by simp [Fallible])
    cases hs : stateOf (files candidate) with
    | none =>
      have hskip : restoreFrom (candidate::older) plan m = restoreFrom older plan m := by
        cases hcontent : files candidate with
        | none => exact restoreFrom_absent plan candidate older m hpresent (hf.trans hcontent)
        | some content =>
          exact restoreFrom_damaged plan candidate older m hpresent hother hcheck
            (by simp [hf, hcontent]) (by rw [hf, hs])
      obtain ⟨left,hrun,hleaves⟩ := ih hc' m holder
      exact ⟨left,hskip.trans hrun,leaves_skipped (by simp [Begun, isHealthy, hs]) hleaves⟩
    | some state =>
      exact restoreFrom_healthy_leaves plan hplan files candidate older hc' hother m state hs hf
        holder
        fun m' => ih hc' m'

/-- Leaving the snapshot method with an error takes two failures. -/
theorem writeSnapshot_faulty (plan : Plan Call) (hplan : OSErrorsOnly plan) (m : Machine σ)
    (state : σ) (h : Serving m state) :
    (writeSnapshot plan m).1 = .returned () ↔ ¬RotationRaises plan m.files := by
  have hopen := requireOpen_apply plan m (by simp [h.1])
  by_cases hold : plan .unlinkOld = .runs
  · have hruns : ∀ site, ¬Fallible site → plan site = .runs := fun site => osErrorsOnly_runs hplan
    obtain ⟨copied,hrotates⟩ := writeSnapshot_rotates plan m
      ⟨h.1,by simp [isHealthy, h.2],hold,fun step => hruns _ (by simp [Fallible]),
        hruns _ (by simp [Fallible]),by simp [hruns .chmod (by simp [Fallible])]⟩
    have hpresent := hruns .snapshotPresent (by simp [Fallible])
    rw [hrotates]
    simp only [RotationRaises, hold, ne_eq, not_true_eq_false, false_and, true_and, false_or]
    rcases hplan .unlinkUnrotated with hu | ⟨-,_,hu⟩ <;>
      rcases hplan (.replace .snapshotTmp) with ht | ⟨-,_,ht⟩ <;>
      rcases hplan (.replace .snapshot) with hs | ⟨-,_,hs⟩ <;>
      cases hnewest : m.files .snapshot <;>
      simp [rotateIn, exceptOSError, attempt_apply, rotate, bind_apply, present, perform_apply,
        hpresent, hnewest, move, unlink, hu, ht, hs]
  · obtain ⟨text,hold'⟩ := osErrorsOnly_fails hplan hold
    by_cases hfailed : plan .unlinkFailed = .runs
    · simp [writeSnapshot, bind_returned hopen, writeCopy, attempt_apply, bind_apply, unlink,
        perform_apply, hold', hfailed, RotationRaises]
    · obtain ⟨text',hfailed'⟩ := osErrorsOnly_fails hplan hfailed
      simp [writeSnapshot, bind_returned hopen, writeCopy, attempt_apply, bind_apply, unlink,
        perform_apply, hold', hfailed', RotationRaises]

/-- From a missing or healthy database on, the opening serves, or raises late. -/
theorem afterVerify_serving (plan : Plan Call) (hplan : OSErrorsOnly plan) (m : Machine σ)
    (h : m.files .database = none ∨ isHealthy (m.files .database) = true) :
    Serving (afterVerify plan m).2 ((stateOf (m.files .database)).getD ∅) ∧
      (afterVerify plan m).2.files .wal = m.files .wal ∧
      (afterVerify plan m).2.files .shm = m.files .shm ∧
      ((afterVerify plan m).1 = .returned () ↔ ¬RotationRaises plan m.files) := by
  have hruns : ∀ site, ¬Fallible site → plan site = .runs := fun site => osErrorsOnly_runs hplan
  have hprepare := connectAndPrepare_returned plan ⟨hruns _ (by simp [Fallible]),
    hruns _ (by simp [Fallible]),hruns _ (by simp [Fallible]),hruns _ (by simp [Fallible])⟩ m h
  rw [afterVerify, bind_returned hprepare]
  set state := (stateOf (m.files .database)).getD ∅
  have hserving := committed_serving m state
  have hignore : ∀ file : FileName, file ≠ .database → file ≠ .wal → file ≠ .shm →
      Ignores (fun other : Machine σ => Serving other state ∧
        other.files .wal = m.files .wal ∧ other.files .shm = m.files .shm) file := by
    intro file h1 h2 h3 other content hI
    simpa [Serving, Ne.symm h1, Ne.symm h2, Ne.symm h3] using hI
  obtain ⟨h1,h2,h3⟩ := keeps_writeSnapshot
    (hignore .snapshotTmp (by decide) (by decide) (by decide))
    (hignore .snapshot (by decide) (by decide) (by decide))
    (hignore .snapshotPrev (by decide) (by decide) (by decide)) plan (m.committed state)
    ⟨hserving,by simp [Machine.committed],by simp [Machine.committed]⟩
  refine ⟨h1,h2,h3,?_⟩
  rw [writeSnapshot_faulty plan hplan _ state hserving]
  simp [RotationRaises, Machine.committed]

theorem afterVerify_corrupt (plan : Plan Call) (hplan : OSErrorsOnly plan) (m : Machine σ)
    (h : Damaged m.files) : (afterVerify plan m).1 ≠ .returned () ∧
      (afterVerify plan m).2.files = m.files := by
  have hruns : ∀ site, ¬Fallible site → plan site = .runs := fun site => osErrorsOnly_runs hplan
  have hc := hruns .connect (by simp [Fallible])
  have hj := hruns .journalMode (by simp [Fallible])
  have hstate : stateOf (m.files .database) = none := by
    simpa [isHealthy] using h.2
  simp [afterVerify, connectAndPrepare, connect, query, onView, bind_apply, perform_apply, hc, hj,
    created, h.1, view, hstate]

theorem openMemory_faulty (parent stamp : String) (plan : Plan Call) (hplan : OSErrorsOnly plan)
    (m : Machine σ) (h : Damaged m.files) :
    openMemory parent stamp plan m =
      (do recover stamp; afterVerify : Action σ Unit) plan (released .database m) := by
  have hruns : ∀ site, ¬Fallible site → plan site = .runs := fun site => osErrorsOnly_runs hplan
  have hmake : makeDirectory parent plan m = (.returned (),m) := by
    simp [makeDirectory, exceptOSError, attempt_apply, perform_apply,
      hruns .mkdir (by simp [Fallible])]
  obtain ⟨content,hd⟩ := Option.isSome_iff_exists.mp h.1
  have hbad := h.2
  rw [hd] at hbad
  have hcheck := fileIsHealthy_checked plan .database m (hruns _ (by simp [Fallible])) h.1
  rw [hd, hbad] at hcheck
  rw [openMemory_eq, bind_returned hmake]
  simp [verify, bind_apply, present, perform_apply, hd, hcheck,
    hruns (.present .database) (by simp [Fallible])]

/-- With every companion gone, what is left of the database decides. -/
theorem noSilentLoss_after_restore (plan : Plan Call) (hplan : OSErrorsOnly plan)
    (files : Directory σ) (m : Machine σ) (left : Option (Content σ))
    (hm : m.files .database = left) (hw : m.files .wal = none) (hs : m.files .shm = none)
    (hsnapshot : m.files .snapshot = files .snapshot)
    (hleaves : Leaves plan files generations none left) :
    NoSilentLoss files (afterVerify plan m) ↔
      ¬NothingRestored plan files generations ∨
        (∃ file ∈ generations, files file = some (.healthy ∅)) ∨ RotationRaises plan files := by
  have hraises : RotationRaises plan m.files ↔ RotationRaises plan files := by
    simp [RotationRaises, hsnapshot]
  rcases hleaves with ⟨hnothing,hbegun,hnone⟩ |
    ⟨hsomething,⟨state,rfl⟩ | ⟨file,hfile,state,hstate,rfl⟩⟩
  · have hempty : left = none ∨ left = some (.healthy ∅) := by
      by_cases hb : ∃ file ∈ generations, Begun plan files file
      · exact .inr (hbegun hb)
      · exact .inl (hnone hb)
    obtain ⟨hserving,hwal,hshm,hexit⟩ := afterVerify_serving plan hplan m
      (by rcases hempty with h | h <;> simp [hm, h, isHealthy])
    have hstate : (stateOf (m.files .database)).getD ∅ = ∅ := by
      rcases hempty with h | h <;> simp [hm, h]
    rw [hstate] at hserving
    have halone : ¬FreshBesideCompanions (afterVerify plan m).2 := by
      simp [FreshBesideCompanions, hwal, hshm, hw, hs]
    rw [NoSilentLoss, hexit, hraises]
    constructor
    · rintro ⟨hloss,-⟩
      by_cases hr : RotationRaises plan files
      · exact .inr (.inr hr)
      · obtain ⟨file,hfile,state,hstate,hserves⟩ := hloss hr
        obtain rfl := serving_unique hserves hserving
        exact .inr (.inl ⟨file,hfile,stateOf_eq_some.mp hstate⟩)
    · rintro (h | ⟨file,hfile,hfresh⟩ | hr)
      · exact absurd hnothing h
      · exact ⟨fun _ => ⟨file,hfile,∅,stateOf_eq_some.mpr hfresh,hserving⟩,halone⟩
      · exact ⟨fun h => absurd hr h,halone⟩
  · obtain ⟨hexit,hfiles⟩ := afterVerify_corrupt plan hplan m
      ⟨by simp [hm],by simp [hm, isHealthy]⟩
    simp only [hsomething, not_false_eq_true, true_or, iff_true]
    refine ⟨fun h => absurd h hexit,fun h => ?_⟩
    have hfresh := h.1
    simp [hfiles, hm] at hfresh
  · obtain ⟨hserving,hwal,hshm,-⟩ := afterVerify_serving plan hplan m
      (by simp [hm, isHealthy])
    simp only [hsomething, not_false_eq_true, true_or, iff_true]
    refine ⟨fun _ => ⟨file,hfile,state,hstate,by simpa [hm] using hserving⟩,?_⟩
    simp [FreshBesideCompanions, hwal, hshm, hw, hs]

/-- Exactly which refusals of the disk are survived. The companions that matter
are those that the check of the database has not taken in. -/
theorem recovery_under_faults_iff (parent stamp : String) (plan : Plan Call)
    (hplan : OSErrorsOnly plan) (files : Directory σ) (hdamaged : Damaged files) :
    NoSilentLoss files (openMemory parent stamp plan ⟨files,none⟩) ↔
      plan (.rename .database) ≠ .runs ∨ (CompanionsMove plan (checkpointed files) ∧
        (¬NothingRestored plan files generations ∨
          (∃ file ∈ generations, files file = some (.healthy ∅)) ∨ RotationRaises plan files)) := by
  rw [openMemory_faulty parent stamp plan hplan _ hdamaged, released_database]
  have hchecked : Damaged (checkpointed files) := hdamaged
  rcases quarantine_faulty stamp plan hplan ⟨checkpointed files,none⟩ hchecked.1 with
    ⟨hfails,hq⟩ | ⟨hruns,hmove,m',hq,hnone,hbeside⟩ | ⟨hruns,hmove,hq⟩
  · have hr : recover stamp plan ⟨checkpointed files,none⟩ =
        (.returned (),⟨checkpointed files,none⟩) := by
      rw [recover, bind_returned hq]
      rfl
    rw [bind_returned hr]
    obtain ⟨hexit,hsame⟩ := afterVerify_corrupt plan hplan ⟨checkpointed files,none⟩ hchecked
    simp only [hfails, ne_eq, not_false_eq_true, true_or, iff_true]
    refine ⟨fun h => absurd h hexit,fun h => ?_⟩
    rw [FreshBesideCompanions, hsame] at h
    have hbad := hchecked.2
    have hfresh : checkpointed files .database = some (.healthy ∅) := h.1
    simp [hfresh, isHealthy] at hbad
  · have hr : recover stamp plan ⟨checkpointed files,none⟩ = (.returned (),m') := by
      rw [recover, bind_returned hq]
      rfl
    rw [bind_returned hr]
    obtain ⟨hserving,hwal,hshm,-⟩ := afterVerify_serving plan hplan m' (.inl hnone)
    rw [hnone] at hserving
    have hfresh : FreshBesideCompanions (afterVerify plan m').2 := by
      rw [FreshBesideCompanions, hwal, hshm]
      exact ⟨hserving.2,hbeside⟩
    simp only [hruns, ne_eq, not_true_eq_false, hmove, false_and, or_self, iff_false]
    exact fun h => h.2 hfresh
  · obtain ⟨left,hrun,hleaves⟩ := restoreFrom_leaves plan hplan files generations (by decide)
      (aside stamp ⟨checkpointed files,none⟩) (by simp [generations, aside, checkpointed])
    have hr : recover stamp plan ⟨checkpointed files,none⟩ =
        (.returned (),(aside stamp ⟨checkpointed files,none⟩).put .database left) := by
      rw [recover, bind_returned hq]
      exact hrun
    rw [bind_returned hr, noSilentLoss_after_restore plan hplan files _ left (by simp)
      (by simp [aside]) (by simp [aside]) (by simp [aside, checkpointed]) hleaves]
    simp [hruns, hmove]

end

def noCopy : Plan Call := fun site =>
  if site = .copy .snapshot .create then .fails "No space left on device" else .runs

theorem noCopy_osErrorsOnly : OSErrorsOnly noCopy := by
  intro site
  by_cases h : site = .copy .snapshot .create
  · exact .inr ⟨by simp [h, Fallible],"No space left on device",by simp [noCopy, h]⟩
  · exact .inl (by simp [noCopy, h])

theorem failed_copy_starts_empty : OSErrorsOnly noCopy ∧ Damaged corrupted ∧
    newest corrupted = some remembered ∧
    (openMemory "data" "now" noCopy ⟨corrupted,none⟩).1 = .returned () ∧
    (openMemory "data" "now" noCopy ⟨corrupted,none⟩).2.files .database = some (.healthy ∅) ∧
    ¬NoSilentLoss corrupted (openMemory "data" "now" noCopy ⟨corrupted,none⟩) := by
  have hempty : (openMemory "data" "now" noCopy ⟨corrupted,none⟩).2.files .database =
      some (.healthy ∅) := by decide
  refine ⟨noCopy_osErrorsOnly,by decide,by decide,by decide,hempty,fun h => ?_⟩
  obtain ⟨file,hfile,state,hstate,hserving⟩ := h.1 (by decide)
  obtain rfl : ∅ = state := by simpa using hempty.symm.trans hserving.2
  obtain rfl | rfl : file = .snapshot ∨ file = .snapshotPrev := by simpa [generations] using hfile
  · exact absurd hstate (by decide)
  · exact absurd hstate (by decide)

def timesNotCopied : Plan Call := fun site =>
  if site = .copyStat .snapshot then .fails "Operation not permitted" else .runs

theorem timesNotCopied_survived :
    NoSilentLoss corrupted (openMemory "data" "now" timesNotCopied ⟨corrupted,none⟩) := by
  have hplan : OSErrorsOnly timesNotCopied := by
    intro site
    by_cases h : site = .copyStat .snapshot
    · exact .inr ⟨by simp [h, Fallible],"Operation not permitted",by simp [timesNotCopied, h]⟩
    · exact .inl (by simp [timesNotCopied, h])
  refine (recovery_under_faults_iff "data" "now" timesNotCopied hplan corrupted
    (by decide)).mpr (.inr ⟨⟨by decide,by decide⟩,.inl fun h => ?_⟩)
  rcases h.1 ⟨by decide,by decide⟩ with hhead | ⟨-,file,hfile,hbegun⟩
  · exact hhead (by decide)
  · obtain rfl : file = .snapshotPrev := by simpa using hfile
    exact absurd hbegun.1 (by decide)

end Emma.RecoveryFaults

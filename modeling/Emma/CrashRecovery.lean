import Emma.SnapshotRotation

/-!
# Dying while the store repairs itself

The decision to recover looks at the database file alone. A process that dies
after it moved the corrupt file away and before any byte of a snapshot took
its place leaves no file at all, or an empty one, and the next opening finds
nothing to repair. At every other point the next opening does the work again
or finds it done.
-/

set_option autoImplicit false

namespace Emma.CrashRecovery
open FaultyProgram Emma.Python Emma.DatabaseFiles Emma.SelfRepair Emma.SnapshotRotation
open Emma.SqliteMemory

variable {σ : Type}

def Damaged (files : Directory σ) : Prop :=
  (files .database).isSome = true ∧ isHealthy (files .database) = false

instance (files : Directory σ) : Decidable (Damaged files) :=
  inferInstanceAs (Decidable (_ ∧ _))

def AmongSidecars (files : Directory σ) (k : Call) : Prop :=
  k = .present .wal ∨ ((files .wal).isSome = true ∧ k = .rename .wal) ∨
    k = .present .shm ∨ ((files .shm).isSome = true ∧ k = .rename .shm)

instance (files : Directory σ) (k : Call) : Decidable (AmongSidecars files k) :=
  inferInstanceAs (Decidable (_ ∨ _))

def BeforeFirstByte (files : Directory σ) (k : Call) : List FileName → Prop
  | [] => False
  | candidate::older => k = .present candidate ∨
      ((files candidate).isSome = true ∧ k = .check candidate) ∨
      (isHealthy (files candidate) = true ∧
        (k = .copy candidate .create ∨ k = .copy candidate .head)) ∨
      (isHealthy (files candidate) = false ∧ BeforeFirstByte files k older)

def Exposed (files : Directory σ) (k : Call) : Prop :=
  Damaged files ∧ (AmongSidecars (checkpointed files) k ∨ BeforeFirstByte files k generations)

def Owes (state : σ) (files : Directory σ) : Prop :=
  (Damaged files ∧ newest files = some state) ∨ files .database = some (.healthy state)

def NoPending (m : Machine σ) : Prop := ∀ state, m.connection ≠ some ⟨some state⟩

theorem serving_unique {m : Machine σ} {a b : σ} (ha : Serving m a) (hb : Serving m b) :
    a = b := by
  have h := ha.2.symm.trans hb.2
  simpa using h

section
variable {α : Type}

/-! A death that is not reached changes nothing. -/

theorem finishes_exceptOSError {body : Action σ α} {handler : String → Action σ α}
    (hb : DiesOrFinishes body) (hh : ∀ text, DiesOrFinishes (handler text)) :
    DiesOrFinishes (exceptOSError body handler) := by
  refine finishes_attempt hb fun e => ?_
  cases e with
  | osError text => exact hh text
  | databaseError text => exact finishes_raise _
  | runtimeError text => exact finishes_raise _
  | valueError text => exact finishes_raise _
  | typeError text => exact finishes_raise _
  | keyError text => exact finishes_raise _
  | overflowError text => exact finishes_raise _

theorem finishes_present (site : Call) (file : FileName) :
    DiesOrFinishes (present site file : Action σ Bool) := finishes_perform (finishes_look _)

theorem finishes_unlink (site : Call) (file : FileName) :
    DiesOrFinishes (unlink site file : Action σ Unit) := finishes_perform (finishes_change _)

theorem finishes_move (site : Call) (source target : FileName) :
    DiesOrFinishes (move site source target : Action σ Unit) := by
  refine finishes_perform (finishes_bind (finishes_look _) fun content => ?_)
  cases content with
  | none => exact finishes_raise _
  | some c => exact finishes_change _

theorem finishes_onView {f : σ → Action σ α} (h : ∀ s, DiesOrFinishes (f s)) :
    DiesOrFinishes (onView f) := by
  refine finishes_bind (finishes_look _) fun state => ?_
  cases state with
  | none => exact finishes_raise _
  | some s => exact h s

theorem finishes_quarantine (stamp : String) :
    DiesOrFinishes (quarantine stamp : Action σ Bool) := by
  have hsidecar : ∀ sidecar quarantined : FileName,
      DiesOrFinishes (moveSidecar sidecar quarantined : Action σ Unit) :=
    fun _ _ => finishes_bind (finishes_present _ _) fun found => by
      split
      · exact finishes_move _ _ _
      · exact finishes_pure _
  exact finishes_exceptOSError (finishes_bind (finishes_move _ _ _) fun _ =>
    finishes_bind (hsidecar _ _) fun _ => finishes_bind (hsidecar _ _) fun _ =>
      finishes_pure _) fun _ => finishes_pure _

theorem dyingAt_runs {k site : Call} (h : ¬k = site) : dyingAt k site = .runs := by
  rw [dyingAt, if_neg (Ne.symm h)]

theorem quarantine_dyingAt (stamp : String) (k : Call) (m : Machine σ)
    (h : (m.files .database).isSome = true) :
    (k = .rename .database ∧ quarantine stamp (dyingAt k) m = (.killed,m)) ∨
    (k ≠ .rename .database ∧ AmongSidecars m.files k ∧
      ∃ m', quarantine stamp (dyingAt k) m = (.killed,m') ∧ m'.files .database = none ∧
        m'.connection = m.connection) ∨
    (k ≠ .rename .database ∧ ¬AmongSidecars m.files k ∧
      quarantine stamp (dyingAt k) m = (.returned true,aside stamp m)) := by
  obtain ⟨content,hd⟩ := Option.isSome_iff_exists.mp h
  by_cases hk : k = .rename .database
  · refine .inl ⟨hk,?_⟩
    simp [quarantine, exceptOSError, attempt_apply, bind_apply, move, perform_dyingAt, hk]
  · refine .inr ?_
    by_cases ha : AmongSidecars m.files k
    · refine .inl ⟨hk,ha,?_⟩
      rcases ha with rfl | ⟨hw,rfl⟩ | rfl | ⟨hs,rfl⟩
      · simp [quarantine, exceptOSError, attempt_apply, bind_apply, move, moveSidecar, present,
          perform_dyingAt, hd]
      · simp [quarantine, exceptOSError, attempt_apply, bind_apply, move, moveSidecar, present,
          perform_dyingAt, hd, hw]
      · cases hw : m.files .wal <;>
          simp [quarantine, exceptOSError, attempt_apply, bind_apply, move, moveSidecar, present,
            perform_dyingAt, hd, hw]
      · cases hw : m.files .wal <;>
          simp [quarantine, exceptOSError, attempt_apply, bind_apply, move, moveSidecar, present,
            perform_dyingAt, hd, hw, hs]
    · refine .inr ⟨hk,ha,?_⟩
      simp only [AmongSidecars, not_or, not_and] at ha
      obtain ⟨h1,h2,h3,h4⟩ := ha
      exact quarantine_returns (dyingAt k) m stamp h (dyingAt_runs hk) (dyingAt_runs h1)
        (dyingAt_runs h3) (fun hw => dyingAt_runs (h2 hw)) fun hs => dyingAt_runs (h4 hs)

end

section
variable [EmptyCollection σ]

def Adrift (files : Directory σ) : Prop :=
  files .database = none ∨ files .database = some (.healthy ∅)

theorem keeps_writeSnapshot {I : Machine σ → Prop} (ht : Ignores I .snapshotTmp)
    (hs : Ignores I .snapshot) (hp : Ignores I .snapshotPrev) : Keeps I writeSnapshot := by
  have hrequire : Keeps I requireOpen := keeps_bind (keeps_look _) fun up => by
    split
    · exact keeps_pure _
    · exact keeps_raise _
  have hrotate : Keeps I rotate := keeps_bind (keeps_present _ _) fun found => by
    split
    · exact keeps_bind (keeps_move hs hp _) fun _ => keeps_move ht hs _
    · exact keeps_move ht hs _
  refine keeps_bind hrequire fun _ => keeps_bind (keeps_writeCopy ht) fun written => ?_
  split
  · refine keeps_bind (keeps_checkCopy ht (by decide)) fun healthy => ?_
    split
    · exact keeps_bind (keeps_exceptOSError (keeps_perform (keeps_pure _)) fun _ => keeps_pure _)
        fun _ => keeps_exceptOSError hrotate fun _ => keeps_unlink ht _
    · exact keeps_unlink ht _
  · exact keeps_pure _

def afterVerify : Action σ Unit := do
  connectAndPrepare
  writeSnapshot

theorem openMemory_eq (parent stamp : String) :
    (openMemory parent stamp : Action σ Unit) =
      (do makeDirectory parent; verify stamp; afterVerify) := rfl

/-- After the verification the database is created at most, never changed. -/
theorem keeps_afterVerify (P : Option (Content σ) → Prop)
    (hcreate : P none → P (some (.healthy ∅))) :
    Keeps (fun m : Machine σ => P (m.files .database) ∧ NoPending m) afterVerify := by
  have hignore : ∀ file : FileName, .database ≠ file →
      Ignores (fun m : Machine σ => P (m.files .database) ∧ NoPending m) file :=
    fun file hfile m content h => ⟨by simpa [hfile] using h.1,h.2⟩
  have hquery : ∀ site : Call, Keeps (fun m : Machine σ => P (m.files .database) ∧ NoPending m)
      (query site fun _ => ()) := fun site =>
    keeps_perform (keeps_onView fun _ => keeps_pure _)
  refine keeps_bind ?_ fun _ => keeps_writeSnapshot (hignore _ (by decide))
    (hignore _ (by decide)) (hignore _ (by decide))
  refine keeps_bind (keeps_perform (keeps_change fun m h => ?_)) fun _ =>
    keeps_bind (hquery _) fun _ => keeps_bind (hquery _) fun _ =>
      keeps_perform (keeps_change fun m h => ?_)
  · refine ⟨?_,fun state => by simp⟩
    cases hd : m.files .database with
    | none => simpa [created, hd] using hcreate (hd ▸ h.1)
    | some content => simpa [created, hd] using hd ▸ h.1
  · rcases hc : m.connection with _ | ⟨_ | state⟩
    · simpa [hc] using h
    · simpa [hc] using h
    · exact absurd hc (h.2 state)

theorem finishes_writeOut (site : WriteStep → Call) (error : String → PyError)
    (target : FileName) (whole : Content σ) :
    DiesOrFinishes (writeOut site error target whole) :=
  finishes_bind (finishes_perform (finishes_change _)) fun _ =>
    finishes_bind (finishes_perform (finishes_change _)) fun _ =>
      finishes_perform (finishes_change _)

theorem finishes_fileIsHealthy (file : FileName) :
    DiesOrFinishes (fileIsHealthy file : Action σ Bool) :=
  finishes_attempt (finishes_perform (finishes_bind (finishes_change _) fun _ =>
    finishes_bind (finishes_look _) fun _ => finishes_bind (finishes_change _) fun _ =>
      finishes_pure _)) fun _ => finishes_pure _

theorem finishes_writeSnapshot : DiesOrFinishes (writeSnapshot : Action σ Unit) := by
  have hrequire : DiesOrFinishes (requireOpen : Action σ Unit) :=
    finishes_bind (finishes_look _) fun up => by
      split
      · exact finishes_pure _
      · exact finishes_raise _
  have hvacuum : DiesOrFinishes (vacuumInto .snapshotTmp : Action σ Unit) := by
    refine finishes_bind (finishes_look _) fun connection => ?_
    split
    · exact finishes_raise _
    · refine finishes_onView fun state => finishes_bind (finishes_look _) fun taken => ?_
      split
      · exact finishes_raise _
      · exact finishes_writeOut _ _ _ _
  have hcopy : DiesOrFinishes (writeCopy : Action σ Bool) :=
    finishes_attempt (finishes_bind (finishes_unlink _ _) fun _ =>
      finishes_bind hvacuum fun _ => finishes_pure _) fun _ =>
        finishes_bind (finishes_unlink _ _) fun _ => finishes_pure _
  have hrotate : DiesOrFinishes (rotate : Action σ Unit) :=
    finishes_bind (finishes_present _ _) fun found => by
      split
      · exact finishes_bind (finishes_move _ _ _) fun _ => finishes_move _ _ _
      · exact finishes_move _ _ _
  refine finishes_bind hrequire fun _ => finishes_bind hcopy fun written => ?_
  split
  · refine finishes_bind (finishes_fileIsHealthy _) fun healthy => ?_
    split
    · exact finishes_bind (finishes_exceptOSError (finishes_perform (finishes_pure _))
        fun _ => finishes_pure _) fun _ =>
          finishes_exceptOSError hrotate fun _ => finishes_unlink _ _
    · exact finishes_unlink _ _
  · exact finishes_pure _

theorem finishes_restoreFrom (candidates : List FileName) :
    DiesOrFinishes (restoreFrom candidates : Action σ Unit) := by
  induction candidates with
  | nil => exact finishes_pure _
  | cons candidate older ih =>
    have hcopy : DiesOrFinishes (copy2 candidate .database : Action σ Unit) := by
      refine finishes_bind (finishes_look _) fun content => ?_
      cases content with
      | none => exact finishes_raise _
      | some c => exact finishes_bind (finishes_writeOut _ _ _ _) fun _ =>
          finishes_perform (finishes_pure _)
    refine finishes_bind (finishes_present _ _) fun found => ?_
    split
    · refine finishes_bind (finishes_fileIsHealthy _) fun healthy => ?_
      split
      · refine finishes_bind (finishes_exceptOSError (finishes_bind hcopy fun _ =>
          finishes_pure _) fun _ => finishes_pure _) fun restored => ?_
        split
        · exact finishes_pure _
        · exact ih
      · exact ih
    · exact ih

theorem finishes_verify (stamp : String) : DiesOrFinishes (verify stamp : Action σ Unit) := by
  refine finishes_bind (finishes_present _ _) fun found => ?_
  split
  · refine finishes_bind (finishes_fileIsHealthy _) fun healthy => ?_
    split
    · exact finishes_pure _
    · refine finishes_bind (finishes_quarantine stamp) fun moved => ?_
      split
      · exact finishes_restoreFrom _
      · exact finishes_pure _
  · exact finishes_pure _

theorem finishes_openMemory (parent stamp : String) :
    DiesOrFinishes (openMemory parent stamp : Action σ Unit) := by
  have hquery : ∀ site : Call, DiesOrFinishes (query site (fun _ => ()) : Action σ Unit) :=
    fun _ => finishes_perform (finishes_onView fun _ => finishes_pure _)
  have hconnect : DiesOrFinishes (connectAndPrepare : Action σ Unit) :=
    finishes_bind (finishes_perform (finishes_change _)) fun _ =>
      finishes_bind (hquery _) fun _ => finishes_bind (hquery _) fun _ =>
        finishes_perform (finishes_change _)
  exact finishes_bind (finishes_exceptOSError (finishes_perform (finishes_pure _))
    fun _ => finishes_raise _) fun _ => finishes_bind (finishes_verify stamp) fun _ =>
      finishes_bind hconnect fun _ => finishes_writeSnapshot

/-- What a copy over the database leaves when the process dies in it. -/
theorem copy2_dyingAt (candidate : FileName) (k : Call) (m : Machine σ) (state : σ)
    (hstate : m.files candidate = some (.healthy state)) :
    copy2 candidate .database (dyingAt k) m =
      if k = .copy candidate .create then (.killed,m)
      else if k = .copy candidate .head then (.killed,m.put .database (some (.healthy ∅)))
      else if k = .copy candidate .rest then (.killed,m.put .database (some (.torn state)))
      else if k = .copyStat candidate then (.killed,m.put .database (some (.healthy state)))
      else (.returned (),m.put .database (some (.healthy state))) := by
  by_cases h1 : k = .copy candidate .create
  · simp [copy2, bind_apply, hstate, writeOut, perform_dyingAt, h1]
  by_cases h2 : k = .copy candidate .head
  · simp [copy2, bind_apply, hstate, writeOut, perform_dyingAt, h2]
  by_cases h3 : k = .copy candidate .rest
  · simp [copy2, bind_apply, hstate, writeOut, perform_dyingAt, h3, put_put, Content.part]
  by_cases h4 : k = .copyStat candidate
  · simp [copy2, bind_apply, hstate, writeOut, perform_dyingAt, h4, put_put]
  · simp [copy2, bind_apply, hstate, writeOut, perform_dyingAt, h1, h2, h3, h4, put_put]

theorem restoreFrom_healthy_dyingAt (candidate : FileName) (older : List FileName) (k : Call)
    (m : Machine σ) (state : σ) (hd : m.files .database = none)
    (hstate : m.files candidate = some (.healthy state)) (hcopy : candidate ≠ .database)
    (hp : ¬k = .present candidate) (hk : ¬k = .check candidate) :
    ((k = .copy candidate .create ∨ k = .copy candidate .head) ∧ ∃ m',
      restoreFrom (candidate::older) (dyingAt k) m = (.killed,m') ∧ Adrift m'.files ∧
        m'.connection = m.connection) ∨
    (¬(k = .copy candidate .create ∨ k = .copy candidate .head) ∧
      (restoreFrom (candidate::older) (dyingAt k) m =
          (.killed,m.put .database (some (.torn state))) ∨
        restoreFrom (candidate::older) (dyingAt k) m =
          (.killed,m.put .database (some (.healthy state))) ∨
        restoreFrom (candidate::older) (dyingAt k) m =
          (.returned (),m.put .database (some (.healthy state))))) := by
  rw [restoreFrom_healthy (dyingAt k) candidate older m (dyingAt_runs hp) hcopy (dyingAt_runs hk)
    state hstate, copy2_dyingAt candidate k m state hstate]
  by_cases h1 : k = .copy candidate .create
  · rw [if_pos h1]
    exact .inl ⟨.inl h1,m,rfl,.inl hd,rfl⟩
  by_cases h2 : k = .copy candidate .head
  · rw [if_neg h1, if_pos h2]
    exact .inl ⟨.inr h2,m.put .database (some (.healthy ∅)),rfl,.inr (by simp),rfl⟩
  rw [if_neg h1, if_neg h2]
  right
  constructor
  · simp [h1, h2]
  by_cases h3 : k = .copy candidate .rest
  · rw [if_pos h3]
    exact .inl rfl
  by_cases h4 : k = .copyStat candidate
  · rw [if_neg h3, if_pos h4]
    exact .inr (.inl rfl)
  · rw [if_neg h3, if_neg h4]
    exact .inr (.inr rfl)

theorem restoreFrom_dyingAt (candidates : List FileName) (hc : .database ∉ candidates)
    (k : Call) (m : Machine σ) (state : σ) (hd : m.files .database = none)
    (hn : candidates.findSome? (fun file => stateOf (m.files file)) = some state) :
    (BeforeFirstByte m.files k candidates ∧ ∃ m',
      restoreFrom candidates (dyingAt k) m = (.killed,m') ∧ Adrift m'.files ∧
        m'.connection = m.connection) ∨
    (¬BeforeFirstByte m.files k candidates ∧
      (restoreFrom candidates (dyingAt k) m = (.killed,m.put .database (some (.torn state))) ∨
        restoreFrom candidates (dyingAt k) m =
          (.killed,m.put .database (some (.healthy state))) ∨
        restoreFrom candidates (dyingAt k) m =
          (.returned (),m.put .database (some (.healthy state))))) := by
  induction candidates with
  | nil => simp at hn
  | cons candidate older ih =>
    have hrest := ih fun h => hc (List.mem_cons_of_mem _ h)
    have hcopy : candidate ≠ .database := fun h => hc (h ▸ List.mem_cons_self)
    by_cases hp : k = .present candidate
    · exact .inl ⟨.inl hp,m,by simp [restoreFrom, bind_apply, present, perform_dyingAt, hp],
        .inl hd,rfl⟩
    have hpresent : dyingAt k (.present candidate) = .runs := dyingAt_runs hp
    cases hf : m.files candidate with
    | none =>
      have hskip := restoreFrom_absent (dyingAt k) candidate older m hpresent hf
      have hbefore : BeforeFirstByte m.files k (candidate::older) ↔
          BeforeFirstByte m.files k older := by
        simp [BeforeFirstByte, hp, hf, isHealthy]
      rw [hskip, hbefore]
      exact hrest (by simpa [hf] using hn)
    | some content =>
      by_cases hk : k = .check candidate
      · refine .inl ⟨.inr (.inl ⟨by simp [hf],hk⟩),m,?_,.inl hd,rfl⟩
        simp [restoreFrom, bind_apply, present, perform_dyingAt, hf, fileIsHealthy, attempt_apply,
          hk]
      have hcheck : dyingAt k (.check candidate) = .runs := dyingAt_runs hk
      cases hs : stateOf (m.files candidate) with
      | none =>
        have hskip := restoreFrom_damaged (dyingAt k) candidate older m hpresent hcopy hcheck
          (by simp [hf]) hs
        have hbefore : BeforeFirstByte m.files k (candidate::older) ↔
            BeforeFirstByte m.files k older := by
          simp [BeforeFirstByte, hp, hk, isHealthy, hs]
        rw [hskip, hbefore]
        exact hrest (by simpa [hs] using hn)
      | some found =>
        obtain rfl : found = state := by simpa [hs] using hn
        have hstate := stateOf_eq_some.mp hs
        have hhead : BeforeFirstByte m.files k (candidate::older) ↔
            (k = .copy candidate .create ∨ k = .copy candidate .head) := by
          simp [BeforeFirstByte, hp, hk, isHealthy, hs]
        rw [hhead]
        exact restoreFrom_healthy_dyingAt candidate older k m found hd hstate hcopy hp hk

theorem verify_dyingAt (stamp : String) (k : Call) (m : Machine σ) (state : σ)
    (hdamaged : Damaged m.files) (hn : newest m.files = some state) :
    (verify stamp (dyingAt k) m).2.connection = m.connection ∧
    ((Exposed m.files k ∧ (verify stamp (dyingAt k) m).1 = .killed ∧
        Adrift (verify stamp (dyingAt k) m).2.files) ∨
      (¬Exposed m.files k ∧ Owes state (verify stamp (dyingAt k) m).2.files)) := by
  obtain ⟨content,hd⟩ := Option.isSome_iff_exists.mp hdamaged.1
  have hbad := hdamaged.2
  by_cases hp : k = .present .database
  · have hv : verify stamp (dyingAt k) m = (.killed,m) := by
      simp [verify, bind_apply, present, perform_dyingAt, hp]
    rw [hv]
    refine ⟨rfl,.inr ⟨?_,.inl ⟨hdamaged,hn⟩⟩⟩
    simp [Exposed, AmongSidecars, BeforeFirstByte, generations, hp]
  by_cases hk : k = .check .database
  · have hv : verify stamp (dyingAt k) m = (.killed,m) := by
      simp [verify, bind_apply, present, perform_dyingAt, hd, fileIsHealthy, attempt_apply, hk]
    rw [hv]
    refine ⟨rfl,.inr ⟨?_,.inl ⟨hdamaged,hn⟩⟩⟩
    simp [Exposed, AmongSidecars, BeforeFirstByte, generations, hk]
  have hcheck : fileIsHealthy .database (dyingAt k) m =
      (.returned false,released .database m) := by
    rw [fileIsHealthy_checked _ .database m (dyingAt_runs hk) hdamaged.1, hbad]
  generalize hm1 : released .database m = m1 at hcheck
  obtain rfl : (⟨checkpointed m.files,m.connection⟩ : Machine σ) = m1 := hm1
  set m1 : Machine σ := ⟨checkpointed m.files,m.connection⟩
  have hdamaged' : Damaged m1.files := hdamaged
  have hn' : newest m1.files = some state := hn
  have hverify : verify stamp (dyingAt k) m = recover stamp (dyingAt k) m1 := by
    simp [verify, bind_apply, present, perform_dyingAt, hd, hp, hcheck]
  rw [hverify]
  rcases quarantine_dyingAt stamp k m1 hdamaged'.1 with ⟨hr,hq⟩ | ⟨hr,ha,m',hq,hnone,hconn⟩ |
    ⟨hr,ha,hq⟩
  · rw [recover, bind_killed hq]
    refine ⟨rfl,.inr ⟨?_,.inl ⟨hdamaged',hn'⟩⟩⟩
    simp [Exposed, AmongSidecars, BeforeFirstByte, generations, hr]
  · rw [recover, bind_killed hq]
    exact ⟨hconn,.inl ⟨⟨hdamaged,.inl ha⟩,rfl,.inl hnone⟩⟩
  · rw [recover, bind_returned hq]
    have hbefore : BeforeFirstByte (aside stamp m1).files k generations ↔ Exposed m.files k := by
      rw [Exposed, or_iff_right ha, and_iff_right hdamaged]
      rfl
    rcases restoreFrom_dyingAt generations (by decide) k (aside stamp m1) state rfl hn' with
      ⟨hb,m',hm,hadrift,hconn⟩ | ⟨hb,hm | hm | hm⟩ <;>
      simp only [generations] at hm <;> rw [hbefore] at hb <;> rw [if_pos rfl, hm]
    · exact ⟨hconn,.inl ⟨hb,rfl,hadrift⟩⟩
    · refine ⟨rfl,.inr ⟨hb,.inl ⟨⟨by simp,by simp [isHealthy]⟩,?_⟩⟩⟩
      simpa [newest_eq, aside, m1] using hn'
    · exact ⟨rfl,.inr ⟨hb,.inr (by simp)⟩⟩
    · exact ⟨rfl,.inr ⟨hb,.inr (by simp)⟩⟩

/-- A healthy or missing database passes the verification as it is. -/
theorem verify_unharmed (stamp : String) (k : Call) (m : Machine σ) (h : ¬Damaged m.files) :
    (verify stamp (dyingAt k) m).2.files .database = m.files .database ∧
      (verify stamp (dyingAt k) m).2.connection = m.connection := by
  cases hd : m.files .database with
  | none =>
    by_cases hp : k = .present .database <;>
      simp [verify, bind_apply, present, perform_dyingAt, hd, hp]
  | some content =>
    have hgood : isHealthy (some content) = true := by
      simpa [Damaged, hd] using h
    by_cases hp : k = .present .database <;> by_cases hk : k = .check .database <;>
      simp [verify, bind_apply, present, perform_dyingAt, hd, hp, hk, fileIsHealthy,
        attempt_apply, created, hgood, checkpointed]

/-- What holds of the database after the verification, and of a new one,
holds after the whole opening. -/
theorem openMemory_dyingAt (P : Option (Content σ) → Prop)
    (hcreate : P none → P (some (.healthy ∅))) (parent stamp : String) (k : Call) (m : Machine σ)
    (hk : k ≠ .mkdir) (hconn : (verify stamp (dyingAt k) m).2.connection = none)
    (hP : P ((verify stamp (dyingAt k) m).2.files .database)) :
    P ((openMemory parent stamp (dyingAt k) m).2.files .database) := by
  have hmake : makeDirectory parent (dyingAt k) m = (.returned (),m) := by
    simp [makeDirectory, exceptOSError, attempt_apply, perform_dyingAt, hk]
  rw [openMemory_eq, bind_returned hmake, bind_apply]
  rcases hv : verify stamp (dyingAt k) m with ⟨_ | _ | _,m'⟩ <;> rw [hv] at hconn hP <;>
    dsimp only at hconn
  · exact (keeps_afterVerify P hcreate (dyingAt k) m' ⟨hP,by simp [NoPending, hconn]⟩).1
  · exact hP
  · exact hP

theorem openMemory_verify_killed (parent stamp : String) (k : Call) (m : Machine σ)
    (hk : k ≠ .mkdir) (h : (verify stamp (dyingAt k) m).1 = .killed) :
    openMemory parent stamp (dyingAt k) m = (.killed,(verify stamp (dyingAt k) m).2) := by
  have hmake : makeDirectory parent (dyingAt k) m = (.returned (),m) := by
    simp [makeDirectory, exceptOSError, attempt_apply, perform_dyingAt, hk]
  rw [openMemory_eq, bind_returned hmake]
  exact bind_killed (Prod.ext h rfl)

theorem openMemory_mkdir (parent stamp : String) (m : Machine σ) :
    openMemory parent stamp (dyingAt .mkdir) m = (.killed,m) := rfl

theorem adrift_open (parent stamp : String) (k : Call) (m : Machine σ) (hc : m.connection = none)
    (h : Adrift m.files) : Adrift (openMemory parent stamp (dyingAt k) m).2.files := by
  by_cases hk : k = .mkdir
  · rw [hk, openMemory_mkdir]
    exact h
  · have hsound : ¬Damaged m.files := by
      rcases h with h | h <;> simp [Damaged, h, isHealthy]
    have hunharmed := verify_unharmed stamp k m hsound
    exact openMemory_dyingAt (fun content => content = none ∨ content = some (.healthy ∅))
      (fun _ => .inr rfl) parent stamp k m hk (by rw [hunharmed.2, hc]) (by rwa [hunharmed.1])

theorem exposed_open (parent stamp : String) (k : Call) (m : Machine σ) (state : σ)
    (hn : newest m.files = some state) (h : Exposed m.files k) :
    (openMemory parent stamp (dyingAt k) m).1 = .killed ∧
      Adrift (openMemory parent stamp (dyingAt k) m).2.files := by
  have hk : k ≠ .mkdir := by
    rintro rfl
    simp [Exposed, AmongSidecars, BeforeFirstByte, generations] at h
  rcases (verify_dyingAt stamp k m state h.1 hn).2 with ⟨-,hkill,hadrift⟩ | ⟨hnot,-⟩
  · rw [openMemory_verify_killed parent stamp k m hk hkill]
    exact ⟨rfl,hadrift⟩
  · exact absurd h hnot

theorem owes_open (parent stamp : String) (k : Call) (m : Machine σ) (state : σ)
    (hc : m.connection = none) (ho : Owes state m.files) (h : ¬Exposed m.files k) :
    Owes state (openMemory parent stamp (dyingAt k) m).2.files := by
  by_cases hk : k = .mkdir
  · rw [hk, openMemory_mkdir]
    exact ho
  rcases ho with ⟨hdamaged,hn⟩ | hd
  · obtain ⟨hconn,hcase⟩ := verify_dyingAt stamp k m state hdamaged hn
    obtain ⟨-,howes⟩ := hcase.resolve_left fun he => h he.1
    rcases finishes_verify stamp k m with hkill | hsame
    · rw [openMemory_verify_killed parent stamp k m hk hkill]
      exact howes
    · refine .inr (openMemory_dyingAt (· = some (.healthy state)) (by simp) parent stamp k m hk
        (by rw [hconn, hc]) ?_)
      rw [hsame, verify_smooth, verified_damaged stamp m hdamaged.1 hdamaged.2, hn]
      simp
  · have hunharmed := verify_unharmed stamp k m (by simp [Damaged, hd, isHealthy])
    exact .inr (openMemory_dyingAt (· = some (.healthy state)) (by simp) parent stamp k m hk
      (by rw [hunharmed.2, hc]) (by rw [hunharmed.1, hd]))

/-- Open again and again; what the first completed opening leaves. -/
def firstCompleted (parent : String) : List (String × Plan Call) → Machine σ → Option (Machine σ)
  | [], _ => none
  | (stamp,plan)::rest, m => match openMemory parent stamp plan m with
    | (.returned _,m') => some m'
    | (.raised _,m') => firstCompleted parent rest m'.restarted
    | (.killed,m') => firstCompleted parent rest m'.restarted

/-- No opening dies while the disk it found has no database in place. -/
def Spared (parent : String) : List (String × Call) → Machine σ → Prop
  | [], _ => True
  | (stamp,k)::rest, m => ¬Exposed m.files k ∧
    ((openMemory parent stamp (dyingAt k) m).1 = .killed →
      Spared parent rest (openMemory parent stamp (dyingAt k) m).2.restarted)

def deaths (killed : List (String × Call)) : List (String × Plan Call) :=
  killed.map fun (stamp,site) => (stamp,dyingAt site)

theorem firstCompleted_cons (parent stamp : String) (k : Call) (rest : List (String × Plan Call))
    (m : Machine σ) :
    ((openMemory parent stamp (dyingAt k) m).1 = .killed ∧
      firstCompleted parent ((stamp,dyingAt k)::rest) m =
        firstCompleted parent rest (openMemory parent stamp (dyingAt k) m).2.restarted) ∨
    ((openMemory parent stamp (dyingAt k) m).1 ≠ .killed ∧
      ∃ m', firstCompleted parent ((stamp,dyingAt k)::rest) m = some m' ∧
        Serving m' (served m.files)) := by
  obtain ⟨m',hopen,hserving⟩ := opened_serving parent stamp m
  rcases hr : openMemory parent stamp (dyingAt k) m with ⟨_ | _ | _,t⟩
  · have hfin := (finishes_openMemory parent stamp k m).resolve_left (by simp [hr])
    rw [hr, hopen] at hfin
    obtain rfl : t = m' := congrArg Prod.snd hfin
    exact .inr ⟨by simp,t,by simp [firstCompleted, hr],hserving⟩
  · have hfin := (finishes_openMemory parent stamp k m).resolve_left (by simp [hr])
    rw [hr, hopen] at hfin
    simp at hfin
  · exact .inl ⟨rfl,by simp [firstCompleted, hr]⟩

theorem adrift_run (parent stamp : String) (killed : List (String × Call)) (m : Machine σ)
    (hc : m.connection = none) (h : Adrift m.files) :
    ∃ m', firstCompleted parent (deaths killed ++ [(stamp,smooth)]) m = some m' ∧
      Serving m' ∅ := by
  have hserved : ∀ files : Directory σ, Adrift files → served files = ∅ := by
    rintro files (h | h) <;> simp [served, h, isHealthy]
  induction killed generalizing m with
  | nil =>
    obtain ⟨m',hopen,hserving⟩ := opened_serving parent stamp m
    rw [hserved _ h] at hserving
    exact ⟨m',by simp [deaths, firstCompleted, hopen],hserving⟩
  | cons death rest ih =>
    obtain ⟨earlier,k⟩ := death
    rcases firstCompleted_cons parent earlier k (deaths rest ++ [(stamp,smooth)]) m with
      ⟨-,hnext⟩ | ⟨-,m',hdone,hserving⟩
    · obtain ⟨m',hrun,hserving⟩ := ih (openMemory parent earlier (dyingAt k) m).2.restarted rfl
        (adrift_open parent earlier k m hc h)
      exact ⟨m',hnext.trans hrun,hserving⟩
    · exact ⟨m',hdone,hserved _ h ▸ hserving⟩

theorem owes_run (parent stamp : String) (killed : List (String × Call)) (m : Machine σ)
    (state : σ) (hc : m.connection = none) (ho : Owes state m.files) :
    ∃ m', firstCompleted parent (deaths killed ++ [(stamp,smooth)]) m = some m' ∧
      (Serving m' state ↔ Spared parent killed m ∨ state = ∅) := by
  have hserved : ∀ files : Directory σ, Owes state files → served files = state := by
    rintro files (⟨⟨hd,hb⟩,hn⟩ | h)
    · simp [served, hd, hb, hn]
    · simp [served, h, isHealthy]
  induction killed generalizing m with
  | nil =>
    obtain ⟨m',hopen,hserving⟩ := opened_serving parent stamp m
    rw [hserved _ ho] at hserving
    exact ⟨m',by simp [deaths, firstCompleted, hopen],by simp [hserving, Spared]⟩
  | cons death rest ih =>
    obtain ⟨earlier,k⟩ := death
    by_cases hx : Exposed m.files k
    · have hn : newest m.files = some state := by
        rcases ho with ⟨-,hn⟩ | hd
        · exact hn
        · simp [Exposed, Damaged, hd, isHealthy] at hx
      obtain ⟨hkill,hadrift⟩ := exposed_open parent earlier k m state hn hx
      obtain ⟨m',hrun,hserving⟩ := adrift_run parent stamp rest
        (openMemory parent earlier (dyingAt k) m).2.restarted rfl hadrift
      rcases firstCompleted_cons parent earlier k (deaths rest ++ [(stamp,smooth)]) m with
        ⟨-,hnext⟩ | ⟨hnot,-⟩
      · refine ⟨m',hnext.trans hrun,?_⟩
        simp only [Spared, hx, not_true, false_and, false_or]
        exact ⟨fun h => serving_unique h hserving,fun h => h ▸ hserving⟩
      · exact absurd hkill hnot
    · rcases firstCompleted_cons parent earlier k (deaths rest ++ [(stamp,smooth)]) m with
        ⟨hkill,hnext⟩ | ⟨hnot,m',hdone,hserving⟩
      · obtain ⟨m',hrun,hiff⟩ := ih (openMemory parent earlier (dyingAt k) m).2.restarted rfl
          (owes_open parent earlier k m state hc ho hx)
        refine ⟨m',hnext.trans hrun,?_⟩
        simpa [Spared, hx, hkill] using hiff
      · rw [hserved _ ho] at hserving
        exact ⟨m',hdone,by simp [hserving, Spared, hx, hnot]⟩

/-- Openings die one after the other until one completes. It serves the newest
generation exactly if none of them died while no database was in place. -/
theorem interrupted_recovery_iff (parent stamp : String) (killed : List (String × Call))
    (files : Directory σ) (state : σ) (hdamaged : Damaged files)
    (hn : newest files = some state) :
    ∃ m', firstCompleted parent (deaths killed ++ [(stamp,smooth)]) ⟨files,none⟩ = some m' ∧
      (Serving m' state ↔ Spared parent killed ⟨files,none⟩ ∨ state = ∅) :=
  owes_run parent stamp killed ⟨files,none⟩ state rfl (.inl ⟨hdamaged,hn⟩)

end

def remembered : MessageTable := (∅ : MessageTable).insert ⟨"chat",.user,"hello",0⟩

def corrupted : Directory MessageTable
  | .database => some (.unreadable (.of 0 0 []))
  | .snapshot => some (.healthy remembered)
  | _ => none

theorem death_after_the_rename_forgets : Damaged corrupted ∧ newest corrupted = some remembered ∧
    ∃ m', firstCompleted "data" (deaths [("first",.present .wal)] ++ [("second",smooth)])
        ⟨corrupted,none⟩ = some m' ∧ ¬Serving m' remembered := by
  obtain ⟨m',hrun,hiff⟩ := owes_run "data" "second" [("first",.present .wal)] ⟨corrupted,none⟩
    remembered rfl (.inl ⟨by decide,by decide⟩)
  refine ⟨by decide,by decide,m',hrun,fun hserving => ?_⟩
  have hexposed : Exposed corrupted (.present .wal) := ⟨by decide,.inl (.inl rfl)⟩
  rcases hiff.mp hserving with hspared | hempty
  · exact hspared.1 hexposed
  · exact absurd hempty (by decide)

theorem interrupted_recovery_before_the_rename : ∃ m',
    firstCompleted "data" (deaths [("first",.rename .database)] ++ [("second",smooth)])
        ⟨corrupted,none⟩ = some m' ∧
      (Serving m' remembered ↔
        Spared "data" [("first",.rename .database)] ⟨corrupted,none⟩ ∨ remembered = ∅) :=
  interrupted_recovery_iff "data" "second" [("first",.rename .database)] corrupted remembered
    (by decide) (by decide)

end Emma.CrashRecovery

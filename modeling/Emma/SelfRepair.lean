import Emma.DatabaseFiles

/-!
# Opening, closing and repairing the persistent store

Opening verifies the database file, recovers it if the check fails, connects,
and records a snapshot of the state it found. A snapshot is built beside the
others and checked before it moves the previous generation one place down.
Logging is left out; every other effect of the methods is here, in their order.
-/

set_option autoImplicit false

namespace Emma.SelfRepair
open FaultyProgram Emma.Python Emma.DatabaseFiles

section
variable {σ : Type}

def rotate : Action σ Unit := do
  if ← present .snapshotPresent .snapshot then
    move (.replace .snapshot) .snapshot .snapshotPrev
  move (.replace .snapshotTmp) .snapshotTmp .snapshot

def moveSidecar (sidecar quarantined : FileName) : Action σ Unit := do
  if ← present (.present sidecar) sidecar then move (.rename sidecar) sidecar quarantined

/-- Put the corrupt database and its companions aside, or say it cannot be done. -/
def quarantine (stamp : String) : Action σ Bool :=
  exceptOSError
    (do
      move (.rename .database) .database (.corrupt stamp)
      moveSidecar .wal (.corruptWal stamp)
      moveSidecar .shm (.corruptShm stamp)
      pure true)
    (fun _ => pure false)

def makeDirectory (parent : String) : Action σ Unit :=
  exceptOSError (perform .mkdir .osError (pure ())) fun text =>
    raise (.runtimeError ("cannot create the database directory " ++ parent ++ ": " ++ text ++
      ". Under systemd, check that ReadWritePaths in emma.service covers it."))

end

section
variable {σ : Type} [EmptyCollection σ]

/-- `VACUUM INTO`: a consistent copy of the live database. -/
def vacuumInto (target : FileName) : Action σ Unit := do
  match ← look fun m => m.connection with
  | some ⟨some _⟩ => raise (.databaseError "cannot VACUUM from within a transaction")
  | _ => onView fun state => do
    if ← look fun m => (m.files target).isSome then
      raise (.databaseError "output file already exists")
    else writeOut .vacuum .databaseError target (.healthy state)

/-- The new copy, built beside the generations; `false` when it could not be. -/
def writeCopy : Action σ Bool :=
  attempt
    (do
      unlink .unlinkOld .snapshotTmp
      vacuumInto .snapshotTmp
      pure true)
    (fun _ => do
      -- outside any handler: a second failure leaves the method
      unlink .unlinkFailed .snapshotTmp
      pure false)

def rotateIn : Action σ Unit :=
  exceptOSError rotate fun _ => unlink .unlinkUnrotated .snapshotTmp

def writeSnapshot : Action σ Unit := do
  requireOpen
  if ← writeCopy then
    if ← fileIsHealthy .snapshotTmp then
      exceptOSError (perform .chmod .osError (pure ())) fun _ => pure ()
      rotateIn
    else unlink .unlinkUnhealthy .snapshotTmp

def restoreFrom : List FileName → Action σ Unit
  | [] => pure ()
  | candidate::older => do
    if ← present (.present candidate) candidate then
      if ← fileIsHealthy candidate then
        let restored ← exceptOSError
          (do
            copy2 candidate .database
            pure true)
          (fun _ => pure false)
        if restored then pure () else restoreFrom older
      else restoreFrom older
    else restoreFrom older

def recover (stamp : String) : Action σ Unit := do
  if ← quarantine stamp then restoreFrom [.snapshot,.snapshotPrev]

/-- The part of `open` that connects and prepares the schema. -/
def connectAndPrepare : Action σ Unit := do
  connect
  query .journalMode (fun _ => ())
  query .ddl (fun _ => ())
  commit .commitDdl

def verify (stamp : String) : Action σ Unit := do
  if ← present (.present .database) .database then
    if ← fileIsHealthy .database then pure () else recover stamp

/-- `SqliteConversationMemory.open`. -/
def openMemory (parent stamp : String) : Action σ Unit := do
  makeDirectory parent
  verify stamp
  connectAndPrepare
  writeSnapshot

/-- `SqliteConversationMemory.close`. -/
def closeMemory : Action σ Unit := do
  if ← look fun m => m.connection.isSome then
    writeSnapshot
    perform .closeConnection .databaseError (change fun m => { m with connection := none })

end

section
variable {σ : Type}

def rotated (m : Machine σ) (state : σ) : Machine σ :=
  { m with files := fun
      | .snapshot => some (.healthy state)
      | .snapshotPrev =>
        if (m.files .snapshot).isSome then m.files .snapshot else m.files .snapshotPrev
      | .snapshotTmp => none
      | file => m.files file }

theorem rotated_serving (m : Machine σ) (state : σ) (h : Serving m state) :
    Serving (rotated m state) state := h

def aside (stamp : String) (m : Machine σ) : Machine σ :=
  { m with files := fun
      | .database => none
      | .wal => none
      | .shm => none
      | .corrupt other =>
        if other = stamp then m.files .database else m.files (.corrupt other)
      | .corruptWal other =>
        if other = stamp ∧ (m.files .wal).isSome then m.files .wal else m.files (.corruptWal other)
      | .corruptShm other =>
        if other = stamp ∧ (m.files .shm).isSome then m.files .shm else m.files (.corruptShm other)
      | file => m.files file }

def sidecarAside (sidecar quarantined : FileName) (m : Machine σ) : Machine σ :=
  match m.files sidecar with
  | none => m
  | some content => (m.put sidecar none).put quarantined (some content)

theorem sidecarAside_other {sidecar quarantined file : FileName} (hs : file ≠ sidecar)
    (hq : file ≠ quarantined) (m : Machine σ) :
    (sidecarAside sidecar quarantined m).files file = m.files file := by
  unfold sidecarAside
  split
  · rfl
  · simp [hs, hq]

theorem aside_eq (stamp : String) (m : Machine σ) (content : Content σ)
    (hd : m.files .database = some content) :
    sidecarAside .shm (.corruptShm stamp) (sidecarAside .wal (.corruptWal stamp)
      ((m.put .database none).put (.corrupt stamp) (some content))) = aside stamp m := by
  obtain ⟨files,connection⟩ := m
  simp only at hd
  cases hw : files .wal <;> cases hs : files .shm <;>
    simp [sidecarAside, aside, Machine.put, hw, hs] <;>
    · funext file
      cases file <;> simp [hd, hw, hs, Function.update_apply]

section
variable (plan : Plan Call) (m : Machine σ)

theorem move_returns {site : Call} {source : FileName} (target : FileName) {content : Content σ}
    (hruns : plan site = .runs) (hsource : m.files source = some content) :
    move site source target plan m =
      (.returned (),(m.put source none).put target (some content)) := by
  simp [move, perform_apply, hruns, bind_apply, hsource]

theorem moveSidecar_returns {sidecar : FileName} (quarantined : FileName)
    (hpresent : plan (.present sidecar) = .runs)
    (hmoves : (m.files sidecar).isSome = true → plan (.rename sidecar) = .runs) :
    moveSidecar sidecar quarantined plan m =
      (.returned (),sidecarAside sidecar quarantined m) := by
  cases hs : m.files sidecar with
  | none => simp [moveSidecar, sidecarAside, bind_apply, present, perform_apply, hpresent, hs]
  | some content =>
    have hmoved := move_returns plan m quarantined (hmoves (by simp [hs])) hs
    simp [moveSidecar, sidecarAside, bind_apply, present, perform_apply, hpresent, hs, hmoved]

theorem moveSidecar_fails {sidecar : FileName} (quarantined : FileName) {text : String}
    (hpresent : plan (.present sidecar) = .runs) (hsome : (m.files sidecar).isSome = true)
    (hfails : plan (.rename sidecar) = .fails text) :
    moveSidecar sidecar quarantined plan m = (.raised (.osError text),m) := by
  simp [moveSidecar, move, bind_apply, present, perform_apply, hpresent, hsome, hfails]

theorem quarantine_returns (stamp : String) (hd : (m.files .database).isSome = true)
    (hdatabase : plan (.rename .database) = .runs) (hwal : plan (.present .wal) = .runs)
    (hshm : plan (.present .shm) = .runs)
    (hwals : (m.files .wal).isSome = true → plan (.rename .wal) = .runs)
    (hshms : (m.files .shm).isSome = true → plan (.rename .shm) = .runs) :
    quarantine stamp plan m = (.returned true,aside stamp m) := by
  obtain ⟨content,hcontent⟩ := Option.isSome_iff_exists.mp hd
  have hmoved := move_returns plan m (.corrupt stamp) hdatabase hcontent
  generalize hm1 : (m.put .database none).put (.corrupt stamp) (some content) = m1 at hmoved
  have hw := moveSidecar_returns plan m1 (.corruptWal stamp) hwal (by simpa [← hm1] using hwals)
  generalize hm2 : sidecarAside .wal (.corruptWal stamp) m1 = m2 at hw
  have hsame : m2.files .shm = m.files .shm := by
    rw [← hm2, sidecarAside_other (by simp) (by simp), ← hm1]
    simp
  have hs := moveSidecar_returns plan m2 (.corruptShm stamp) hshm (by rwa [hsame])
  have haside := aside_eq stamp m content hcontent
  rw [hm1, hm2] at haside
  rw [haside] at hs
  rw [quarantine, exceptOSError, attempt_apply, bind_returned hmoved, bind_returned hw,
    bind_returned hs]
  rfl

end

theorem quarantine_smooth (stamp : String) (m : Machine σ)
    (h : (m.files .database).isSome = true) :
    quarantine stamp smooth m = (.returned true,aside stamp m) :=
  quarantine_returns smooth m stamp h rfl rfl rfl (fun _ => rfl) fun _ => rfl

def generations : List FileName := [.snapshot,.snapshotPrev]

def newest (files : Directory σ) : Option σ :=
  generations.findSome? fun file => stateOf (files file)

theorem newest_eq (files : Directory σ) :
    newest files = (stateOf (files .snapshot)).or (stateOf (files .snapshotPrev)) := by
  cases hs : stateOf (files .snapshot) <;> cases hp : stateOf (files .snapshotPrev) <;>
    simp [newest, generations, hs, hp]

end

section
variable {σ : Type} [EmptyCollection σ]

theorem writeSnapshot_smooth (m : Machine σ) (state : σ) (h : Serving m state) :
    writeSnapshot smooth m = (.returned (),rotated m state) := by
  obtain ⟨files,connection⟩ := m
  obtain ⟨rfl,hd⟩ := h
  simp only at hd
  have hopen : requireOpen smooth (⟨files,some ⟨none⟩⟩ : Machine σ) = (.returned (),_) :=
    requireOpen_apply _ _ rfl
  cases hs : files .snapshot <;>
    simp [writeSnapshot, writeCopy, hopen, attempt_apply, bind_apply, vacuumInto, onView, view,
      hd, checkCopy_smooth, isHealthy, exceptOSError, rotateIn, rotate, move, hs, rotated,
      Machine.put] <;>
    · funext file
      cases file <;> simp

section
variable (plan : Plan Call) (candidate : FileName) (older : List FileName) (m : Machine σ)
variable (hpresent : plan (.present candidate) = .runs)
include hpresent

theorem restoreFrom_absent (hnone : m.files candidate = none) :
    restoreFrom (candidate::older) plan m = restoreFrom older plan m := by
  simp [restoreFrom, bind_apply, present, perform_apply, hpresent, hnone]

variable (hcopy : candidate ≠ .database) (hcheck : plan (.check candidate) = .runs)
include hcopy hcheck

theorem restoreFrom_damaged (hsome : (m.files candidate).isSome = true)
    (hdamaged : stateOf (m.files candidate) = none) :
    restoreFrom (candidate::older) plan m = restoreFrom older plan m := by
  have hsick := checkCopy_checked plan hcopy m hcheck hsome
  simp [restoreFrom, bind_apply, present, perform_apply, hpresent, hsome, hsick, isHealthy,
    hdamaged]

/-- A healthy one is copied, and the copying decides how it goes on. -/
theorem restoreFrom_healthy (state : σ) (hstate : m.files candidate = some (.healthy state)) :
    restoreFrom (candidate::older) plan m =
      match copy2 candidate .database plan m with
      | (.returned _,m') => (.returned (),m')
      | (.raised (.osError _),m') => restoreFrom older plan m'
      | ended => ended := by
  have hhealthy := checkCopy_checked plan hcopy m hcheck (by simp [hstate])
  rcases hends : copy2 candidate .database plan m with ⟨_ | e | _,m'⟩
  · simp [restoreFrom, bind_apply, present, perform_apply, hpresent, hstate, hhealthy, isHealthy,
      stateOf, exceptOSError, attempt_apply, hends]
  · cases e <;>
      simp [restoreFrom, bind_apply, present, perform_apply, hpresent, hstate, hhealthy, isHealthy,
        stateOf, exceptOSError, attempt_apply, hends]
  · simp [restoreFrom, bind_apply, present, perform_apply, hpresent, hstate, hhealthy, isHealthy,
      stateOf, exceptOSError, attempt_apply, hends]

end

theorem restoreFrom_smooth (candidates : List FileName) (hc : .database ∉ candidates)
    (m : Machine σ) :
    restoreFrom candidates smooth m = (.returned (),
      match candidates.findSome? fun file => stateOf (m.files file) with
      | some state => m.put .database (some (.healthy state))
      | none => m) := by
  induction candidates with
  | nil => rfl
  | cons candidate older ih =>
    have hrest := ih (fun h => hc (List.mem_cons_of_mem _ h))
    have hcopy : candidate ≠ .database := fun h => hc (h ▸ List.mem_cons_self)
    cases hf : m.files candidate with
    | none =>
      rw [restoreFrom_absent smooth candidate older m rfl hf, hrest]
      simp [hf]
    | some content =>
      cases hs : stateOf (m.files candidate) with
      | none =>
        rw [restoreFrom_damaged smooth candidate older m rfl hcopy rfl (by simp [hf]) hs, hrest]
        simp [hs]
      | some state =>
        have hstate := stateOf_eq_some.mp hs
        rw [restoreFrom_healthy smooth candidate older m rfl hcopy rfl state hstate,
          copy2_smooth candidate .database m _ hstate]
        simp [hs]

def verified (stamp : String) (m : Machine σ) : Machine σ :=
  match m.files .database with
  | none => m
  | some content =>
    if isHealthy (some content) then released .database m
    else match newest m.files with
      | some state => (aside stamp (released .database m)).put .database (some (.healthy state))
      | none => aside stamp (released .database m)

omit [EmptyCollection σ] in
theorem verified_damaged (stamp : String) (m : Machine σ)
    (h : (m.files .database).isSome = true) (hbad : isHealthy (m.files .database) = false) :
    verified stamp m = match newest m.files with
      | some state => (aside stamp (released .database m)).put .database (some (.healthy state))
      | none => aside stamp (released .database m) := by
  obtain ⟨content,hd⟩ := Option.isSome_iff_exists.mp h
  rw [hd] at hbad
  simp only [verified, hd, hbad, Bool.false_eq_true, if_false]

theorem verify_smooth (stamp : String) (m : Machine σ) :
    verify stamp smooth m = (.returned (),verified stamp m) := by
  cases hd : m.files .database with
  | none => simp [verify, bind_apply, hd, verified]
  | some content =>
    have hcheck := fileIsHealthy_checked smooth .database m rfl (by simp [hd])
    rw [hd] at hcheck
    cases hh : isHealthy (some content) with
    | true =>
      rw [hh] at hcheck
      simp only [verify, bind_apply, present_smooth, hd, Option.isSome_some, if_true, hcheck,
        pure_apply, verified, hh]
    | false =>
      rw [hh] at hcheck
      have hq := quarantine_smooth stamp (released .database m) (by simp [checkpointed, hd])
      have hr := restoreFrom_smooth generations (by decide) (aside stamp (released .database m))
      have hsame : (generations.findSome? fun file =>
          stateOf ((aside stamp (released .database m)).files file)) = newest m.files := rfl
      rw [hsame] at hr
      have hrecover : recover stamp smooth (released .database m) = (.returned (),
          match newest m.files with
          | some state => (aside stamp (released .database m)).put .database (some (.healthy state))
          | none => aside stamp (released .database m)) := by
        rw [recover, bind_returned hq, if_pos rfl]
        exact hr
      rw [verify, bind_returned (present_smooth _ _ _), hd, Option.isSome_some, if_pos rfl,
        bind_returned hcheck, verified_damaged stamp m (by simp [hd]) (by rw [hd, hh])]
      exact hrecover

def Prepares (plan : Plan Call) : Prop :=
  plan .connect = .runs ∧ plan .journalMode = .runs ∧ plan .ddl = .runs ∧ plan .commitDdl = .runs

theorem connectAndPrepare_returned (plan : Plan Call) (hplan : Prepares plan) (m : Machine σ)
    (h : m.files .database = none ∨ isHealthy (m.files .database) = true) :
    connectAndPrepare plan m =
      (.returned (),m.committed ((stateOf (m.files .database)).getD ∅)) := by
  obtain ⟨h1,h2,h3,h4⟩ := hplan
  cases hd : m.files .database with
  | none =>
    simp [connectAndPrepare, bind_apply, connect, created, hd, query, onView, view, commit,
      perform_apply, h1, h2, h3, h4, Machine.committed, Machine.put]
  | some content =>
    obtain ⟨state,hs⟩ := Option.isSome_iff_exists.mp (h.resolve_left (by simp [hd]))
    rw [hd] at hs
    obtain rfl : content = .healthy state := by simpa using stateOf_eq_some.mp hs
    have hself : Function.update m.files .database (some (.healthy state)) = m.files := by
      rw [← hd, Function.update_eq_self]
    simp [connectAndPrepare, bind_apply, connect, created, hd, query, onView, view, commit,
      perform_apply, h1, h2, h3, h4, Machine.committed, Machine.put, hself]

def served (files : Directory σ) : σ :=
  if (files .database).isSome ∧ isHealthy (files .database) = false then (newest files).getD ∅
  else (stateOf (files .database)).getD ∅

theorem verified_database (stamp : String) (m : Machine σ) :
    ((verified stamp m).files .database = none ∨
      isHealthy ((verified stamp m).files .database) = true) ∧
    (stateOf ((verified stamp m).files .database)).getD ∅ = served m.files := by
  cases hd : m.files .database with
  | none => simp [verified, served, hd]
  | some content =>
    cases hh : isHealthy (some content) with
    | true => simp [verified, served, hd, hh, checkpointed]
    | false =>
      have hnone : stateOf (some content) = none := by simpa [isHealthy] using hh
      cases hn : newest m.files <;> simp [verified, served, hd, hnone, hn, aside, isHealthy]

/-- An undisturbed opening completes; this is all it leaves behind. -/
theorem openMemory_smooth (parent stamp : String) (m : Machine σ) :
    openMemory parent stamp smooth m =
      (.returned (),rotated ((verified stamp m).committed (served m.files)) (served m.files)) := by
  obtain ⟨hd,hs⟩ := verified_database stamp m
  have hc := connectAndPrepare_returned smooth ⟨rfl,rfl,rfl,rfl⟩ (verified stamp m) hd
  rw [hs] at hc
  have hmk : makeDirectory parent smooth m = (.returned (),m) := rfl
  rw [openMemory, bind_returned hmk, bind_returned (verify_smooth stamp m), bind_returned hc]
  exact writeSnapshot_smooth _ _ (committed_serving _ _)

theorem opened_serving (parent stamp : String) (m : Machine σ) :
    ∃ m', openMemory parent stamp smooth m = (.returned (),m') ∧ Serving m' (served m.files) :=
  ⟨_,openMemory_smooth parent stamp m,rotated_serving _ _ (committed_serving _ _)⟩

theorem closeMemory_smooth (m : Machine σ) (state : σ) (h : Serving m state) :
    closeMemory smooth m = (.returned (),(rotated m state).restarted) := by
  have hopen : m.connection.isSome = true := by simp [h.1]
  simp [closeMemory, bind_apply, hopen, writeSnapshot_smooth m state h, Machine.restarted]

end
end Emma.SelfRepair

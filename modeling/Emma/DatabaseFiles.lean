import Emma.Library.FaultyProgram
import Emma.Python
import Mathlib.Logic.Function.Basic

/-!
# The files around one SQLite database

A directory holds the database, its write-ahead companions, two generations of
snapshots, the copy under construction and whatever was quarantined. A healthy
file stands for the state a connection would read from it, companions of its
own connection included. Damaged bytes are unreadable, and it is assumed that
an interrupted copy fails its check as well. SQLite reads a file of no bytes or
of a single one as an empty database, so damage is at least two bytes long.

A companion counts as healthy if SQLite takes it in and removes it when the
last connection to the database closes. It depends on both files whether it
does; a companion of any other content stays beside the database.
-/

set_option autoImplicit false

namespace Emma.DatabaseFiles
open FaultyProgram Emma.Python

/-- Names beside `MEMORY_DB_PATH`; a stamp is a reading of the local clock. -/
inductive FileName where
  | database
  | wal
  | shm
  | snapshot
  | snapshotPrev
  | snapshotTmp
  | corrupt (stamp : String)
  | corruptWal (stamp : String)
  | corruptShm (stamp : String)
  deriving DecidableEq, Repr

structure Junk where
  bytes : List UInt8
  long : 2 ≤ bytes.length
  deriving DecidableEq, Repr

def Junk.of (first second : UInt8) (rest : List UInt8) : Junk where
  bytes := first::second::rest
  long := Nat.le_add_left 2 rest.length

inductive Content (σ : Type) where
  | healthy (state : σ)
  | torn (state : σ)
  | unreadable (junk : Junk)
  deriving DecidableEq, Repr

def Content.part {σ : Type} : Content σ → Content σ
  | .healthy state => .torn state
  | content => content

abbrev Directory (σ : Type) := FileName → Option (Content σ)

def stateOf {σ : Type} : Option (Content σ) → Option σ
  | some (.healthy state) => some state
  | _ => none

/-- `PRAGMA integrity_check` answers `ok`. -/
def isHealthy {σ : Type} (content : Option (Content σ)) : Bool := (stateOf content).isSome

theorem stateOf_eq_some {σ : Type} {content : Option (Content σ)} {state : σ} :
    stateOf content = some state ↔ content = some (.healthy state) := by
  rcases content with _ | ⟨_⟩ | ⟨_⟩ | ⟨_⟩ <;> simp [stateOf]

@[simp] theorem stateOf_none {σ : Type} : stateOf (none : Option (Content σ)) = none := rfl

@[simp] theorem stateOf_healthy {σ : Type} (state : σ) :
    stateOf (some (.healthy state)) = some state := rfl

@[simp] theorem stateOf_torn {σ : Type} (state : σ) :
    stateOf (some (.torn state)) = none := rfl

@[simp] theorem stateOf_unreadable {σ : Type} (junk : Junk) :
    stateOf (some (.unreadable junk) : Option (Content σ)) = none := rfl

def remaining {σ : Type} (companion : Option (Content σ)) : Option (Content σ) :=
  if isHealthy companion then none else companion

def checkpointed {σ : Type} (files : Directory σ) : Directory σ
  | .wal => remaining (files .wal)
  | .shm => remaining (files .shm)
  | file => files file

/-- What a connection holds back until its next commit, if anything. -/
structure Connection (σ : Type) where
  pending : Option σ
  deriving DecidableEq, Repr

/-- The disk, with the connection of the one process that uses it. -/
structure Machine (σ : Type) where
  files : Directory σ
  connection : Option (Connection σ)

inductive WriteStep where
  | create
  | head
  | rest
  deriving DecidableEq, Repr

inductive Statement where
  | insertMessage
  | commitInsert
  | countMessages
  | selectExcess
  | deleteExcess
  | selectFirst (left : ℕ)
  | deleteFirst (left : ℕ)
  | commitPrune
  | selectHistory
  deriving DecidableEq, Repr

/-- Every call the store makes on the outside, by the place that makes it. -/
inductive Call where
  | mkdir
  | present (file : FileName)
  | check (file : FileName)
  | rename (file : FileName)
  | copy (source : FileName) (step : WriteStep)
  | copyStat (source : FileName)
  | connect
  | journalMode
  | ddl
  | commitDdl
  | unlinkOld
  | unlinkFailed
  | unlinkUnhealthy
  | unlinkUnrotated
  | vacuum (step : WriteStep)
  | chmod
  | snapshotPresent
  | replace (file : FileName)
  | closeConnection
  | sql (statement : Statement)
  deriving DecidableEq, Repr

section
variable {σ α : Type}

def Machine.put (m : Machine σ) (file : FileName) (content : Option (Content σ)) : Machine σ :=
  { m with files := Function.update m.files file content }

def Machine.restarted (m : Machine σ) : Machine σ := { m with connection := none }

@[simp] theorem put_files (m : Machine σ) (file other : FileName) (content : Option (Content σ)) :
    (m.put file content).files other = if other = file then content else m.files other := by
  simp [Machine.put, Function.update_apply]

@[simp] theorem put_connection (m : Machine σ) (file : FileName) (content : Option (Content σ)) :
    (m.put file content).connection = m.connection := rfl

@[simp] theorem restarted_files (m : Machine σ) : m.restarted.files = m.files := rfl

@[simp] theorem restarted_connection (m : Machine σ) : m.restarted.connection = none := rfl

def released (file : FileName) (m : Machine σ) : Machine σ :=
  if file = .database then { m with files := checkpointed m.files } else m

@[simp] theorem released_database (m : Machine σ) :
    released .database m = { m with files := checkpointed m.files } := rfl

theorem released_other {file : FileName} (h : file ≠ .database) (m : Machine σ) :
    released file m = m := if_neg h

abbrev Action (σ α : Type) := Program Call (Machine σ) PyError α

/-- `except OSError`: other exceptions pass through. -/
def exceptOSError (body : Action σ α) (handler : String → Action σ α) : Action σ α :=
  attempt body fun
    | .osError text => handler text
    | e => raise e

def present (site : Call) (file : FileName) : Action σ Bool :=
  perform site .osError (look fun m => (m.files file).isSome)

def unlink (site : Call) (file : FileName) : Action σ Unit :=
  perform site .osError (change fun m => m.put file none)

/-- `Path.rename` and `Path.replace`: the target, if there is one, is lost. -/
def move (site : Call) (source target : FileName) : Action σ Unit :=
  perform site .osError do
    match ← look fun m => m.files source with
    | none => raise (.osError "No such file or directory")
    | some content => change fun m => (m.put source none).put target (some content)

def requireOpen : Action σ Unit := do
  if ← look fun m => m.connection.isSome then pure ()
  else raise (.runtimeError "call open() on the conversation memory before using it")

/-- What a statement of the open connection sees: its own changes first. -/
def view (m : Machine σ) : Option σ :=
  match m.connection with
  | none => none
  | some ⟨some state⟩ => some state
  | some ⟨none⟩ => stateOf (m.files .database)

def onView (f : σ → Action σ α) : Action σ α := do
  match ← look view with
  | some state => f state
  | none => raise (.databaseError "file is not a database")

/-- `execute` of a statement that only reads. -/
def query (site : Call) (f : σ → α) : Action σ α :=
  perform site .databaseError (onView fun state => pure (f state))

def Machine.holding (m : Machine σ) (state : σ) : Machine σ :=
  { m with connection := some ⟨some state⟩ }

def begun (m : Machine σ) : Machine σ :=
  match view m with
  | some state => m.holding state
  | none => m

/-- `execute` of a statement that writes; one that fails leaves its transaction open. -/
def statement (site : Call) (f : σ → σ) : Action σ Unit := do
  change begun
  perform site .databaseError (onView fun state => change fun m => m.holding (f state))

def commit (site : Call) : Action σ Unit :=
  perform site .databaseError (change fun m =>
    match m.connection with
    | some ⟨some state⟩ =>
      { m.put .database (some (.healthy state)) with connection := some ⟨none⟩ }
    | _ => m)

def Machine.committed (m : Machine σ) (state : σ) : Machine σ :=
  { m.put .database (some (.healthy state)) with connection := some ⟨none⟩ }

def Serving (m : Machine σ) (state : σ) : Prop :=
  m.connection = some ⟨none⟩ ∧ m.files .database = some (.healthy state)

@[simp] theorem view_holding (m : Machine σ) (state : σ) : view (m.holding state) = some state :=
  rfl

@[simp] theorem holding_holding (m : Machine σ) (a b : σ) :
    (m.holding a).holding b = m.holding b := rfl

@[simp] theorem holding_files (m : Machine σ) (state : σ) : (m.holding state).files = m.files :=
  rfl

theorem begun_eq {m : Machine σ} {state : σ} (h : view m = some state) :
    begun m = m.holding state := by
  simp [begun, h]

theorem view_closed {m : Machine σ} (h : m.connection = none) : view m = none := by
  simp [view, h]

theorem begun_none {m : Machine σ} (h : view m = none) : begun m = m := by
  simp [begun, h]

theorem view_begun (m : Machine σ) : view (begun m) = view m := by
  cases h : view m with
  | none => rw [begun_none h, h]
  | some state => rw [begun_eq h, view_holding]

theorem begun_begun (m : Machine σ) : begun (begun m) = begun m := by
  cases h : view m with
  | none => rw [begun_none h, begun_none h]
  | some state => rw [begun_eq ((view_begun m).trans h), begun_eq h, holding_holding]

@[simp] theorem begun_files (m : Machine σ) : (begun m).files = m.files := by
  unfold begun
  split <;> rfl

theorem serving_view {m : Machine σ} {state : σ} (h : Serving m state) : view m = some state := by
  simp [view, h.1, h.2, stateOf]

theorem committed_serving (m : Machine σ) (state : σ) : Serving (m.committed state) state := by
  simp [Serving, Machine.committed, Machine.put]

theorem committed_committed (m : Machine σ) (a b : σ) :
    (m.committed a).committed b = m.committed b := by
  simp [Machine.committed, Machine.put]

theorem committed_congr {m other : Machine σ} (h : m.files = other.files) (state : σ) :
    m.committed state = other.committed state := by
  simp [Machine.committed, Machine.put, h]

theorem requireOpen_apply (plan : Plan Call) (m : Machine σ) (h : m.connection.isSome = true) :
    requireOpen plan m = (.returned (),m) := by
  simp [requireOpen, bind_apply, h]

theorem view_open {m : Machine σ} {state : σ} (h : view m = some state) :
    m.connection.isSome = true := by
  cases hc : m.connection with
  | none => simp [view, hc] at h
  | some c => rfl

theorem begun_open (m : Machine σ) : (begun m).connection.isSome = m.connection.isSome := by
  cases h : view m with
  | none => rw [begun_none h]
  | some state => rw [begun_eq h, view_open h]; rfl

theorem query_smooth {m : Machine σ} {state : σ} (h : view m = some state) (site : Call)
    (f : σ → α) : query site f smooth m = (.returned (f state),m) := by
  simp [query, onView, bind_apply, h]

theorem statement_smooth {m : Machine σ} {state : σ} (h : view m = some state) (site : Call)
    (f : σ → σ) : statement site f smooth m = (.returned (),m.holding (f state)) := by
  simp [statement, onView, bind_apply, begun_eq h]

theorem commit_smooth {m : Machine σ} {state : σ} (h : view m = some state) (site : Call) :
    commit site smooth m = (.returned (),m.committed state) := by
  obtain ⟨files,connection⟩ := m
  rcases connection with _ | ⟨_ | pending⟩
  · simp [view] at h
  · have hfile : files .database = some (.healthy state) := stateOf_eq_some.mp h
    simp [commit, Machine.committed, Machine.put, ← hfile]
  · obtain rfl : pending = state := by simpa [view] using h
    simp [commit, Machine.committed]

@[simp] theorem present_smooth (site : Call) (file : FileName) (m : Machine σ) :
    present site file smooth m = (.returned (m.files file).isSome,m) := rfl

theorem unlink_runs {plan : Plan Call} {site : Call} (h : plan site = .runs) (file : FileName)
    (m : Machine σ) : unlink site file plan m = (.returned (),m.put file none) := by
  rw [unlink, perform_apply, h, change_apply]

@[simp] theorem unlink_smooth (site : Call) (file : FileName) (m : Machine σ) :
    unlink site file smooth m = (.returned (),m.put file none) := rfl

theorem put_put (m : Machine σ) (file : FileName) (a b : Option (Content σ)) :
    (m.put file a).put file b = m.put file b := by
  simp [Machine.put]

/-! Conditions that say nothing about a file survive what happens to it. -/

def Ignores (I : Machine σ → Prop) (file : FileName) : Prop :=
  ∀ m content, I m → I (m.put file content)

theorem released_ignored {I : Machine σ → Prop} (hw : Ignores I .wal) (hs : Ignores I .shm)
    (file : FileName) (m : Machine σ) (h : I m) : I (released file m) := by
  unfold released
  split
  · have hputs : ({ m with files := checkpointed m.files } : Machine σ) =
        (m.put .wal (remaining (m.files .wal))).put .shm (remaining (m.files .shm)) := by
      rw [Machine.put, Machine.put]
      congr 1
      funext other
      cases other <;> rfl
    rw [hputs]
    exact hs _ _ (hw _ _ h)
  · exact h

theorem keeps_exceptOSError {I : Machine σ → Prop} {body : Action σ α}
    {handler : String → Action σ α} (hb : Keeps I body) (hh : ∀ text, Keeps I (handler text)) :
    Keeps I (exceptOSError body handler) := by
  refine keeps_attempt hb fun e => ?_
  cases e with
  | osError text => exact hh text
  | databaseError text => exact keeps_raise _
  | runtimeError text => exact keeps_raise _
  | valueError text => exact keeps_raise _
  | typeError text => exact keeps_raise _
  | keyError text => exact keeps_raise _
  | overflowError text => exact keeps_raise _

theorem keeps_present {I : Machine σ → Prop} (site : Call) (file : FileName) :
    Keeps I (present site file) :=
  keeps_perform (keeps_look _)

theorem keeps_unlink {I : Machine σ → Prop} {file : FileName} (h : Ignores I file)
    (site : Call) : Keeps I (unlink site file) :=
  keeps_perform (keeps_change fun m hm => h m _ hm)

theorem keeps_onView {I : Machine σ → Prop} {f : σ → Action σ α} (h : ∀ s, Keeps I (f s)) :
    Keeps I (onView f) := by
  refine keeps_bind (keeps_look _) fun state => ?_
  cases state with
  | none => exact keeps_raise _
  | some s => exact h s

theorem keeps_statement {I : Machine σ → Prop} (h : ∀ m state, I m → I (m.holding state))
    (site : Call) (f : σ → σ) : Keeps I (statement site f) := by
  refine keeps_bind (keeps_change fun m hm => ?_) fun _ =>
    keeps_perform (keeps_onView fun _ => keeps_change fun m hm => h m _ hm)
  unfold begun
  split
  · exact h m _ hm
  · exact hm

theorem keeps_move {I : Machine σ → Prop} {source target : FileName} (hs : Ignores I source)
    (ht : Ignores I target) (site : Call) : Keeps I (move site source target) := by
  refine keeps_perform (keeps_bind (keeps_look _) fun content => ?_)
  cases content with
  | none => exact keeps_raise _
  | some c => exact keeps_change fun m hm => ht _ _ (hs m _ hm)

end

section
variable {σ α : Type} [EmptyCollection σ]

def writeOut (site : WriteStep → Call) (error : String → PyError) (target : FileName)
    (whole : Content σ) : Action σ Unit := do
  perform (site .create) error (change fun m => m.put target (some (.healthy ∅)))
  perform (site .head) error (change fun m => m.put target (some whole.part))
  perform (site .rest) error (change fun m => m.put target (some whole))

/-- `shutil.copy2`: the bytes first, then the times and the mode. -/
def copy2 (source target : FileName) : Action σ Unit := do
  match ← look fun m => m.files source with
  | none => raise (.osError "No such file or directory")
  | some content =>
    writeOut (.copy source) .osError target content
    perform (.copyStat source) .osError (pure ())

def created (file : FileName) (m : Machine σ) : Machine σ :=
  if (m.files file).isSome then m else m.put file (some (.healthy ∅))

def connect : Action σ Unit :=
  perform .connect .databaseError (change fun m =>
    { created .database m with connection := some ⟨none⟩ })

def fileIsHealthy (file : FileName) : Action σ Bool :=
  attempt
    (perform (.check file) .databaseError do
      change (created file)
      let healthy ← look fun m => isHealthy (m.files file)
      -- the connection of the check is closed whatever it found
      change (released file)
      pure healthy)
    (fun _ => pure false)

theorem keeps_writeOut {I : Machine σ → Prop} {target : FileName} (h : Ignores I target)
    (site : WriteStep → Call) (error : String → PyError) (whole : Content σ) :
    Keeps I (writeOut site error target whole) :=
  keeps_bind (keeps_perform (keeps_change fun m hm => h m _ hm)) fun _ =>
    keeps_bind (keeps_perform (keeps_change fun m hm => h m _ hm)) fun _ =>
      keeps_perform (keeps_change fun m hm => h m _ hm)

theorem keeps_fileIsHealthy {I : Machine σ → Prop} {file : FileName} (h : Ignores I file)
    (hr : ∀ m, I m → I (released file m)) : Keeps I (fileIsHealthy file) := by
  refine keeps_attempt (keeps_perform (keeps_bind (keeps_change fun m hm => ?_) fun _ =>
    keeps_bind (keeps_look _) fun _ => keeps_bind (keeps_change hr) fun _ => keeps_pure _))
    fun _ => keeps_pure _
  unfold created
  split
  · exact hm
  · exact h m _ hm

theorem keeps_checkCopy {I : Machine σ → Prop} {file : FileName} (h : Ignores I file)
    (hfile : file ≠ .database) : Keeps I (fileIsHealthy file) :=
  keeps_fileIsHealthy h fun m hm => by rwa [released_other hfile]

theorem writeOut_eq_returned {site : WriteStep → Call} {error : String → PyError}
    {target : FileName} {whole : Content σ} {plan : Plan Call} {m m' : Machine σ} :
    writeOut site error target whole plan m = (.returned (),m') ↔
      (∀ step, plan (site step) = .runs) ∧ m' = m.put target (some whole) := by
  constructor
  · intro h
    obtain ⟨_,m1,h1,h⟩ := bind_eq_returned.mp h
    obtain ⟨_,m2,h2,h3⟩ := bind_eq_returned.mp h
    obtain ⟨hcreate,h1⟩ := perform_eq_returned.mp h1
    obtain ⟨hhead,h2⟩ := perform_eq_returned.mp h2
    obtain ⟨hrest,h3⟩ := perform_eq_returned.mp h3
    refine ⟨fun step => by cases step <;> assumption,?_⟩
    simp only [change_apply, Prod.mk.injEq, true_and] at h1 h2 h3
    rw [← h3, ← h2, ← h1, put_put, put_put]
  · rintro ⟨hruns,rfl⟩
    simp [writeOut, bind_apply, perform_apply, hruns, put_put]

@[simp] theorem writeOut_smooth (site : WriteStep → Call) (error : String → PyError)
    (target : FileName) (whole : Content σ) (m : Machine σ) :
    writeOut site error target whole smooth m = (.returned (),m.put target (some whole)) := by
  simp [writeOut, bind_apply, put_put]

theorem copy2_smooth (source target : FileName) (m : Machine σ) (content : Content σ)
    (h : m.files source = some content) :
    copy2 source target smooth m = (.returned (),m.put target (some content)) := by
  simp [copy2, bind_apply, h]

theorem fileIsHealthy_checked (plan : Plan Call) (file : FileName) (m : Machine σ)
    (hcheck : plan (.check file) = .runs) (h : (m.files file).isSome = true) :
    fileIsHealthy file plan m = (.returned (isHealthy (m.files file)),released file m) := by
  simp [fileIsHealthy, attempt_apply, perform_apply, hcheck, bind_apply, created, h]

theorem checkCopy_checked (plan : Plan Call) {file : FileName} (hfile : file ≠ .database)
    (m : Machine σ) (hcheck : plan (.check file) = .runs) (h : (m.files file).isSome = true) :
    fileIsHealthy file plan m = (.returned (isHealthy (m.files file)),m) := by
  rw [fileIsHealthy_checked plan file m hcheck h, released_other hfile]

theorem checkCopy_smooth {file : FileName} (hfile : file ≠ .database) (m : Machine σ)
    (h : (m.files file).isSome = true) :
    fileIsHealthy file smooth m = (.returned (isHealthy (m.files file)),m) :=
  checkCopy_checked smooth hfile m rfl h

end
end Emma.DatabaseFiles

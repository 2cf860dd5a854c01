import Emma.MemoryWindow

/-!
# Runs of sessions over files that rot

A session opens the store, appends, and ends by closing or by being killed.
The kill may come in the middle of an append. Between sessions any of the three
files that hold a database may be damaged, and a killed session may leave
companions behind. The history variable records the full state at every
completed opening and every clean close.

A run has a predicate for the damage that occurs in it. Damage that the check
detects makes a file unreadable. Other damage leaves a healthy database with
another state in it, the empty one where the file was cut to nothing, and then a
generation holds what was never recorded, or no longer.
-/

set_option autoImplicit false

namespace Emma.SnapshotRuns
open FaultyProgram Emma.Python Emma.ConversationMemory Emma.DatabaseFiles Emma.SelfRepair
open Emma.SqliteMemory Emma.MemoryWindow

inductive Run (parent : String) (maxMessages : ℕ+) (damage : Content MessageTable → Prop) :
    Machine MessageTable → List MessageTable → Prop
  | start : Run parent maxMessages damage pristine []
  | corrupted {m : Machine MessageTable} {past : List MessageTable} (file : FileName)
      (content : Content MessageTable) (occurs : damage content)
      (run : Run parent maxMessages damage m past) (down : m.connection = none)
      (holds : file = .database ∨ file = .snapshot ∨ file = .snapshotPrev)
      (exists_ : (m.files file).isSome = true) :
      Run parent maxMessages damage (m.put file (some content)) past
  | companion {m : Machine MessageTable} {past : List MessageTable} (file : FileName)
      (content : Option (Content MessageTable)) (run : Run parent maxMessages damage m past)
      (down : m.connection = none) (beside : file = .wal ∨ file = .shm) :
      Run parent maxMessages damage (m.put file content) past
  | opened {m m' : Machine MessageTable} {past : List MessageTable} {state : MessageTable}
      (stamp : String) (run : Run parent maxMessages damage m past) (down : m.connection = none)
      (opens : openMemory parent stamp smooth m = (.returned (),m'))
      (holds : stateOf (m'.files .database) = some state) :
      Run parent maxMessages damage m' (past ++ [state])
  | appended {m m' : Machine MessageTable} {past : List MessageTable} (c : ConversationId)
      (message : StoredMessage) (now : ℚ) (run : Run parent maxMessages damage m past)
      (appends : append maxMessages c message now smooth m = (.returned (),m')) :
      Run parent maxMessages damage m' past
  | interrupted {m m' : Machine MessageTable} {past : List MessageTable} (c : ConversationId)
      (message : StoredMessage) (now : ℚ) (site : Call) (run : Run parent maxMessages damage m past)
      (dies : append maxMessages c message now (dyingAt site) m = (.killed,m')) :
      Run parent maxMessages damage m'.restarted past
  | closed {m m' : Machine MessageTable} {past : List MessageTable} {state : MessageTable}
      (run : Run parent maxMessages damage m past) (up : m.connection.isSome = true)
      (closes : closeMemory smooth m = (.returned (),m'))
      (holds : stateOf (m'.files .database) = some state) :
      Run parent maxMessages damage m' (past ++ [state])
  | killed {m : Machine MessageTable} {past : List MessageTable}
      (run : Run parent maxMessages damage m past) : Run parent maxMessages damage m.restarted past

def lastGood {σ : Type} [EmptyCollection σ] (files : Directory σ) : σ :=
  ((stateOf (files .database)).or
    ((stateOf (files .snapshot)).or (stateOf (files .snapshotPrev)))).getD ∅

/-- The generations hold recorded states, the newer one no older than the other. -/
def Dated {σ : Type} (files : Directory σ) (past : List σ) : Prop :=
  ∃ i j, j ≤ i ∧ i ≤ past.length ∧
    (∀ state, stateOf (files .snapshot) = some state → past[i]? = some state) ∧
    (∀ state, stateOf (files .snapshotPrev) = some state → past[j]? = some state)

def Detected (damage : Content MessageTable → Prop) : Prop :=
  ∀ content, damage content → stateOf (some content) = none

structure Recorded (damage : Content MessageTable → Prop) (m : Machine MessageTable)
    (past : List MessageTable) : Prop where
  fresh : m.files .database = none → m.files .snapshot = none ∧ m.files .snapshotPrev = none
  serving : m.connection.isSome = true → ∃ state, Serving m state
  dated : Detected damage → Dated m.files past

theorem served_eq_lastGood {σ : Type} [EmptyCollection σ] (files : Directory σ)
    (h : files .database = none → files .snapshot = none ∧ files .snapshotPrev = none) :
    served files = lastGood files := by
  cases hd : files .database with
  | none =>
    obtain ⟨hs,hp⟩ := h hd
    simp [served, lastGood, hd, hs, hp]
  | some content =>
    cases content <;> simp [served, lastGood, hd, isHealthy, newest_eq]

theorem getElem?_append_some {α : Type*} {past : List α} {i : ℕ} {a b : α}
    (h : past[i]? = some a) : (past ++ [b])[i]? = some a := by
  obtain ⟨hi,-⟩ := List.getElem?_eq_some_iff.mp h
  rw [List.getElem?_append_left hi, h]

/-- A snapshot written now takes the newest date and hands the previous one down. -/
theorem rotated_dated {σ : Type} (m : Machine σ) (state : σ) (past : List σ)
    (h : Dated m.files past) : Dated (rotated m state).files (past ++ [state]) := by
  obtain ⟨i,j,hji,hi,hs,hp⟩ := h
  by_cases hnewest : (m.files .snapshot).isSome = true
  · refine ⟨past.length,i,hi,by simp,?_,?_⟩
    · intro a ha
      obtain rfl : state = a := by simpa [rotated] using ha
      simp
    · intro a ha
      rw [rotated, if_pos hnewest] at ha
      exact getElem?_append_some (hs a ha)
  · refine ⟨past.length,j,hji.trans hi,by simp,?_,?_⟩
    · intro a ha
      obtain rfl : state = a := by simpa [rotated] using ha
      simp
    · intro a ha
      rw [rotated, if_neg hnewest] at ha
      exact getElem?_append_some (hp a ha)

theorem verified_generations {σ : Type} [EmptyCollection σ] (stamp : String) (m : Machine σ) :
    (verified stamp m).files .snapshot = m.files .snapshot ∧
      (verified stamp m).files .snapshotPrev = m.files .snapshotPrev := by
  cases hd : m.files .database with
  | none => simp only [verified, hd, and_self]
  | some content =>
    cases hh : isHealthy (some content) with
    | true => simp [verified, hd, hh, checkpointed]
    | false =>
      rw [verified_damaged stamp m (by simp [hd]) (by rw [hd, hh])]
      cases newest m.files <;> simp [aside, checkpointed]

theorem dated_congr {σ : Type} {files other : Directory σ} {past : List σ}
    (hs : files .snapshot = other .snapshot) (hp : files .snapshotPrev = other .snapshotPrev)
    (h : Dated other past) : Dated files past := by
  simpa only [Dated, hs, hp] using h

section
variable {damage : Content MessageTable → Prop}

theorem opened_recorded (parent stamp : String) (m m' : Machine MessageTable)
    (past : List MessageTable) (state : MessageTable) (h : Recorded damage m past)
    (hopen : openMemory parent stamp smooth m = (.returned (),m'))
    (hstate : stateOf (m'.files .database) = some state) : Recorded damage m' (past ++ [state]) := by
  rw [openMemory_smooth, Prod.mk.injEq] at hopen
  obtain ⟨-,rfl⟩ := hopen
  have hserving := rotated_serving _ _
    (committed_serving (verified stamp m) (served m.files))
  obtain rfl : served m.files = state := by
    rw [hserving.2] at hstate
    simpa using hstate
  obtain ⟨hs,hp⟩ := verified_generations stamp m
  refine ⟨fun hnone => by simp [hserving.2] at hnone,fun _ => ⟨_,hserving⟩,?_⟩
  exact fun hdetected => rotated_dated _ _ _ (dated_congr hs hp (h.dated hdetected))

theorem closed_recorded (m m' : Machine MessageTable) (past : List MessageTable)
    (state : MessageTable) (h : Recorded damage m past) (hup : m.connection.isSome = true)
    (hclose : closeMemory smooth m = (.returned (),m'))
    (hstate : stateOf (m'.files .database) = some state) : Recorded damage m' (past ++ [state]) := by
  obtain ⟨current,hserving⟩ := h.serving hup
  rw [closeMemory_smooth m current hserving, Prod.mk.injEq] at hclose
  obtain ⟨-,rfl⟩ := hclose
  have hd : ((rotated m current).restarted).files .database = some (.healthy current) :=
    hserving.2
  obtain rfl : current = state := by
    rw [hd] at hstate
    simpa using hstate
  refine ⟨fun hnone => by simp [hd] at hnone,fun hsome => by simp at hsome,?_⟩
  exact fun hdetected => rotated_dated m current past (h.dated hdetected)

theorem appended_recorded (maxMessages : ℕ+) (c : ConversationId) (message : StoredMessage)
    (now : ℚ) (m m' : Machine MessageTable) (past : List MessageTable) (h : Recorded damage m past)
    (happend : append maxMessages c message now smooth m = (.returned (),m')) :
    Recorded damage m' past := by
  by_cases hup : m.connection.isSome = true
  · obtain ⟨current,hserving⟩ := h.serving hup
    rw [append_smooth maxMessages c message now m current (serving_view hserving),
      Prod.mk.injEq] at happend
    obtain ⟨-,rfl⟩ := happend
    have hserving' := committed_serving m (appended maxMessages c message now current)
    refine ⟨fun hnone => by simp [hserving'.2] at hnone,fun _ => ⟨_,hserving'⟩,?_⟩
    exact fun hdetected => dated_congr (by simp [Machine.committed]) (by simp [Machine.committed])
      (h.dated hdetected)
  · have hraised : (append maxMessages c message now smooth m).1 =
        .raised (.runtimeError "call open() on the conversation memory before using it") := by
      simp [append, bind_apply, requireOpen, hup]
    rw [happend] at hraised
    cases hraised

/-- An append that dies leaves a database and both generations as they were. -/
theorem interrupted_recorded (maxMessages : ℕ+) (c : ConversationId) (message : StoredMessage)
    (now : ℚ) (site : Call) (m m' : Machine MessageTable) (past : List MessageTable)
    (h : Recorded damage m past)
    (hdies : append maxMessages c message now (dyingAt site) m = (.killed,m')) :
    Recorded damage m'.restarted past := by
  have hkept := keeps_append (I := fun other => (other.files .database).isSome = true ∧
      other.files .snapshot = m.files .snapshot ∧
      other.files .snapshotPrev = m.files .snapshotPrev) (fun _ _ hI => hI)
    (fun _ _ hI => by simpa using hI.2) maxMessages c message now (dyingAt site) m
  by_cases hup : m.connection.isSome = true
  · obtain ⟨current,hserving⟩ := h.serving hup
    have hafter := hkept ⟨by simp [hserving.2],rfl,rfl⟩
    rw [hdies] at hafter
    obtain ⟨hd,hs,hp⟩ := hafter
    dsimp only at hd hs hp
    refine ⟨fun hnone => ?_,fun hsome => by simp at hsome,
      fun hdetected => dated_congr hs hp (h.dated hdetected)⟩
    rw [restarted_files] at hnone
    simp [hnone] at hd
  · have hraised : (append maxMessages c message now (dyingAt site) m).1 =
        .raised (.runtimeError "call open() on the conversation memory before using it") := by
      simp [append, bind_apply, requireOpen, hup]
    rw [hdies] at hraised
    cases hraised

theorem run_recorded {parent : String} {maxMessages : ℕ+} {m : Machine MessageTable}
    {past : List MessageTable} (run : Run parent maxMessages damage m past) : Recorded damage m past := by
  induction run with
  | start =>
    exact ⟨fun _ => ⟨rfl,rfl⟩,fun h => by simp [pristine] at h,fun _ =>
      ⟨0,0,le_refl _,le_refl _,by simp [pristine],by simp [pristine]⟩⟩
  | @corrupted m past file content occurs _ down holds exists_ ih =>
    refine ⟨fun hnone => ?_,fun h => by simp [down] at h,fun hdetected => ?_⟩
    · -- damage needs a file, so the three that hold a database are all still there
      by_cases hfile : FileName.database = file
      · simp [hfile] at hnone
      · rw [put_files, if_neg hfile] at hnone
        obtain ⟨h1,h2⟩ := ih.fresh hnone
        rcases holds with rfl | rfl | rfl <;> simp_all
    · obtain ⟨i,j,hji,hi,hs,hp⟩ := ih.dated hdetected
      have hunread := hdetected content occurs
      refine ⟨i,j,hji,hi,fun state hstate => ?_,fun state hstate => ?_⟩
      · by_cases hfile : FileName.snapshot = file
        · simp [hfile, hunread] at hstate
        · exact hs state (by simpa [hfile] using hstate)
      · by_cases hfile : FileName.snapshotPrev = file
        · simp [hfile, hunread] at hstate
        · exact hp state (by simpa [hfile] using hstate)
  | @companion m past file content _ down beside ih =>
    have hother : ∀ other : FileName, other ≠ .wal → other ≠ .shm →
        (m.put file content).files other = m.files other := by
      intro other hw hs
      rcases beside with rfl | rfl <;> simp [hw, hs]
    have hd := hother .database (by decide) (by decide)
    have hs := hother .snapshot (by decide) (by decide)
    have hp := hother .snapshotPrev (by decide) (by decide)
    refine ⟨by rw [hd, hs, hp]; exact ih.fresh,fun h => by simp [down] at h,?_⟩
    exact fun hdetected => dated_congr hs hp (ih.dated hdetected)
  | opened stamp _ _ opens holds ih => exact opened_recorded parent stamp _ _ _ _ ih opens holds
  | appended c message now _ appends ih =>
    exact appended_recorded maxMessages c message now _ _ _ ih appends
  | interrupted c message now site _ dies ih =>
    exact interrupted_recorded maxMessages c message now site _ _ _ ih dies
  | closed _ up closes holds ih => exact closed_recorded _ _ _ _ ih up closes holds
  | killed _ ih => exact ⟨ih.fresh,fun h => by simp at h,ih.dated⟩

end

/-- Opening serves the best state still on disk. Where every damage shows in the
check, the generations only ever hold states the database really had, in the
right order. -/
theorem recovery_returns_a_recorded_state (parent : String) (maxMessages : ℕ+)
    (damage : Content MessageTable → Prop) (m : Machine MessageTable) (past : List MessageTable)
    (run : Run parent maxMessages damage m past) :
    (m.connection = none → ∀ stamp, ∃ m',
      openMemory parent stamp smooth m = (.returned (),m') ∧ Serving m' (lastGood m.files)) ∧
    (Detected damage → Dated m.files past) := by
  have h := run_recorded run
  refine ⟨fun _ stamp => ?_,h.dated⟩
  obtain ⟨m',hopen,hserving⟩ := opened_serving parent stamp m
  rw [served_eq_lastGood m.files h.fresh] at hserving
  exact ⟨m',hopen,hserving⟩

/-! A first session that stores a message, and a second that is killed. -/

def greeting : StoredMessage := ⟨.user,"ciao"⟩

def greeted : MessageTable := appended 2 "chat" greeting 0 ∅

def firstOpened : Machine MessageTable := (openMemory "data" "first" smooth pristine).2

def firstAppended : Machine MessageTable := (append 2 "chat" greeting 0 smooth firstOpened).2

def firstClosed : Machine MessageTable := (closeMemory smooth firstAppended).2

def secondKilled : Machine MessageTable :=
  (openMemory "data" "second" smooth firstClosed).2.restarted

theorem firstOpened_serving : Serving firstOpened ∅ := by
  obtain ⟨m',hopen,hserving⟩ := opened_serving "data" "first" (pristine : Machine MessageTable)
  rw [firstOpened, hopen]
  exact hserving

theorem firstAppended_eq : append 2 "chat" greeting 0 smooth firstOpened =
    (.returned (),firstOpened.committed greeted) :=
  append_smooth 2 "chat" greeting 0 firstOpened ∅ (serving_view firstOpened_serving)

theorem firstAppended_serving : Serving firstAppended greeted := by
  rw [firstAppended, firstAppended_eq]
  exact committed_serving _ _

theorem firstClosed_eq : closeMemory smooth firstAppended = (.returned (),firstClosed) := by
  rw [firstClosed, closeMemory_smooth _ _ firstAppended_serving]

theorem secondKilled_run (damage : Content MessageTable → Prop) :
    Run "data" 2 damage secondKilled [∅,greeted,greeted] := by
  have first : Run "data" 2 damage firstOpened [∅] := .opened "first" .start rfl rfl rfl
  have stored : Run "data" 2 damage firstAppended [∅] :=
    .appended "chat" greeting 0 first firstAppended_eq
  have closed : Run "data" 2 damage firstClosed [∅,greeted] :=
    .closed stored rfl firstClosed_eq rfl
  have second : Run "data" 2 damage (openMemory "data" "second" smooth firstClosed).2
      [∅,greeted,greeted] := .opened "second" closed rfl rfl rfl
  exact .killed second

def junk : Junk := .of 0 0 []

def damagedStart : Machine MessageTable := secondKilled.put .database (some (.unreadable junk))

theorem damagedStart_recovers : lastGood damagedStart.files = greeted ∧
    damagedStart.connection = none ∧
    ((∀ stamp, ∃ m', openMemory "data" stamp smooth damagedStart = (.returned (),m') ∧
        Serving m' (lastGood damagedStart.files)) ∧
      Dated damagedStart.files [∅,greeted,greeted]) := by
  have run : Run "data" 2 (fun content => content = .unreadable junk) damagedStart
      [∅,greeted,greeted] :=
    .corrupted .database (.unreadable junk) rfl (secondKilled_run _) rfl (.inl rfl) rfl
  have h := recovery_returns_a_recorded_state "data" 2 (fun content => content = .unreadable junk)
    damagedStart [∅,greeted,greeted] run
  exact ⟨rfl,rfl,h.1 rfl,h.2 fun content hcontent => by rw [hcontent]; rfl⟩

def emptiedSnapshot : Machine MessageTable := secondKilled.put .snapshot (some (.healthy ∅))

theorem emptied_snapshot_is_older :
    Run "data" 2 (fun content => content = .healthy ∅) emptiedSnapshot [∅,greeted,greeted] ∧
      ¬Dated emptiedSnapshot.files [∅,greeted,greeted] := by
  refine ⟨.corrupted .snapshot (.healthy ∅) rfl (secondKilled_run _) rfl (.inr (.inl rfl)) rfl,?_⟩
  rintro ⟨i,j,hji,-,hs,hp⟩
  have hne : (∅ : MessageTable) ≠ greeted := by decide
  have hi : i = 0 := by
    have hi := hs ∅ rfl
    match i, hi with
    | 0, _ => rfl
    | 1, hi => exact absurd (Option.some.inj hi).symm hne
    | 2, hi => exact absurd (Option.some.inj hi).symm hne
  obtain rfl : j = 0 := by omega
  exact hne (Option.some.inj (hp greeted rfl))

end Emma.SnapshotRuns

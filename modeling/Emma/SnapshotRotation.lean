import Emma.SqliteMemory

/-!
# What a rotation can cost

Writing a snapshot touches the two generations only in its last two moves. The
new copy was checked; the generation that is moved down was not. When that one
is corrupt it lands on the older, good one, and until the second move has put
the new copy in place no good generation is left.
-/

set_option autoImplicit false

namespace Emma.SnapshotRotation
open FaultyProgram Emma.Python Emma.DatabaseFiles Emma.SelfRepair Emma.SqliteMemory

variable {σ : Type}

def Recoverable (files : Directory σ) : Prop :=
  isHealthy (files .snapshot) = true ∨ isHealthy (files .snapshotPrev) = true

instance (files : Directory σ) : Decidable (Recoverable files) :=
  inferInstanceAs (Decidable (_ ∨ _))

structure ReachesRotation (plan : Plan Call) (m : Machine σ) : Prop where
  connected : m.connection = some ⟨none⟩
  live : isHealthy (m.files .database) = true
  cleared : plan .unlinkOld = .runs
  copied : ∀ step, plan (.vacuum step) = .runs
  checked : plan (.check .snapshotTmp) = .runs
  survived : plan .chmod ≠ .dies

/-- The corrupt newest generation is moved onto the other one and the new copy
does not follow it. -/
structure LosesBoth (plan : Plan Call) (m : Machine σ) : Prop where
  reaches : ReachesRotation plan m
  newestPresent : (m.files .snapshot).isSome = true
  newestCorrupt : isHealthy (m.files .snapshot) = false
  looked : plan .snapshotPresent = .runs
  movedDown : plan (.replace .snapshot) = .runs
  notReplaced : plan (.replace .snapshotTmp) ≠ .runs

def Generations (newest older : Option (Content σ)) (m : Machine σ) : Prop :=
  m.files .snapshot = newest ∧ m.files .snapshotPrev = older

theorem generations_ignore (newest older : Option (Content σ)) (file : FileName)
    (hs : .snapshot ≠ file) (hp : .snapshotPrev ≠ file) :
    Ignores (Generations newest older) file :=
  fun m content h => ⟨by simpa [hs] using h.1,by simpa [hp] using h.2⟩

/-- Clearing away the copy that was not rotated in costs no generation. -/
theorem exceptOSError_unlink_generations (plan : Plan Call) (m m1 : Machine σ)
    (text : String) (newest older : Option (Content σ)) (h : Generations newest older m1)
    (hrotate : rotate plan m = (.raised (.osError text),m1)) :
    Generations newest older (rotateIn plan m).2 := by
  have hkeeps := keeps_unlink (generations_ignore newest older .snapshotTmp (by decide)
    (by decide)) .unlinkUnrotated plan m1 h
  simpa [rotateIn, exceptOSError, attempt_apply, hrotate] using hkeeps

theorem finish_generations (plan : Plan Call) (m m1 : Machine σ) (copy : Content σ)
    (newest older : Option (Content σ)) (h : Generations newest older m1)
    (htmp : m1.files .snapshotTmp = some copy)
    (hrotate : rotate plan m = move (.replace .snapshotTmp) .snapshotTmp .snapshot plan m1) :
    Generations (if plan (.replace .snapshotTmp) = .runs then some copy else newest) older
      (rotateIn plan m).2 := by
  cases hm : plan (.replace .snapshotTmp) with
  | runs =>
    simp [rotateIn, exceptOSError, attempt_apply, hrotate, move, perform_apply, hm, bind_apply,
      htmp, Generations, h.2]
  | fails text =>
    rw [if_neg (by simp)]
    apply exceptOSError_unlink_generations plan m m1 text _ _ h
    simp [hrotate, move, perform_apply, hm]
  | dies =>
    rw [if_neg (by simp)]
    simpa [rotateIn, exceptOSError, attempt_apply, hrotate, move, perform_apply, hm] using h

theorem rotateIn_generations (plan : Plan Call) (m : Machine σ) (copy : Content σ)
    (htmp : m.files .snapshotTmp = some copy) :
    Generations
      (if plan .snapshotPresent = .runs then
        if (m.files .snapshot).isSome ∧ plan (.replace .snapshot) ≠ .runs then m.files .snapshot
        else if plan (.replace .snapshotTmp) = .runs then some copy else none
      else m.files .snapshot)
      (if plan .snapshotPresent = .runs ∧ (m.files .snapshot).isSome ∧
          plan (.replace .snapshot) = .runs
        then m.files .snapshot else m.files .snapshotPrev)
      (rotateIn plan m).2 := by
  cases hp : plan .snapshotPresent with
  | dies =>
    simp [rotateIn, exceptOSError, attempt_apply, rotate, bind_apply, present, perform_apply, hp,
      Generations]
  | fails text =>
    simp only [reduceCtorEq, if_false, false_and]
    apply exceptOSError_unlink_generations plan m m text _ _ ⟨rfl,rfl⟩
    simp [rotate, bind_apply, present, perform_apply, hp]
  | runs =>
    simp only [if_true, true_and]
    cases hs : m.files .snapshot with
    | none =>
      simp only [Option.isSome_none, Bool.false_eq_true, false_and, if_false]
      apply finish_generations plan m m copy _ _ ⟨hs,rfl⟩ htmp
      simp [rotate, bind_apply, present, perform_apply, hp, hs]
    | some content =>
      simp only [Option.isSome_some, true_and]
      cases hd : plan (.replace .snapshot) with
      | runs =>
        simp only [ne_eq, not_true_eq_false, if_false, if_true]
        apply finish_generations plan m
          ((m.put .snapshot none).put .snapshotPrev (some content)) copy _ _
          ⟨by simp,by simp⟩ (by simpa using htmp)
        simp [rotate, bind_apply, present, perform_apply, hp, hs, move, hd]
      | fails text =>
        simp only [ne_eq, reduceCtorEq, not_false_eq_true, if_true, if_false]
        apply exceptOSError_unlink_generations plan m m text _ _ ⟨hs,rfl⟩
        simp [rotate, bind_apply, present, perform_apply, hp, hs, move, hd]
      | dies =>
        simp [rotateIn, exceptOSError, attempt_apply, rotate, bind_apply, present, perform_apply,
          hp, hs, move, hd, Generations]

section
variable [EmptyCollection σ]

theorem keeps_vacuumInto {I : Machine σ → Prop} {target : FileName} (h : Ignores I target) :
    Keeps I (vacuumInto target) := by
  refine keeps_bind (keeps_look _) fun connection => ?_
  have hcopy : Keeps I (onView fun state => do
      if ← look fun m => (m.files target).isSome then
        raise (.databaseError "output file already exists")
      else writeOut .vacuum .databaseError target (.healthy state) : Action σ Unit) := by
    refine keeps_onView fun state => keeps_bind (keeps_look _) fun taken => ?_
    split
    · exact keeps_raise _
    · exact keeps_writeOut h _ _ _
  rcases connection with _ | ⟨_ | pending⟩
  · exact hcopy
  · exact hcopy
  · exact keeps_raise _

theorem keeps_writeCopy {I : Machine σ → Prop} (h : Ignores I .snapshotTmp) :
    Keeps I writeCopy := by
  refine keeps_attempt ?_ fun _ => keeps_bind (keeps_unlink h _) fun _ => keeps_pure _
  exact keeps_bind (keeps_unlink h _) fun _ =>
    keeps_bind (keeps_vacuumInto h) fun _ => keeps_pure _

theorem vacuumInto_returned (plan : Plan Call) (m m' : Machine σ)
    (h : vacuumInto .snapshotTmp plan m = (.returned (),m'))
    (hopen : m.connection.isSome = true) :
    m.connection = some ⟨none⟩ ∧ (∀ step, plan (.vacuum step) = .runs) ∧
      ∃ state, stateOf (m.files .database) = some state ∧
        m' = m.put .snapshotTmp (some (.healthy state)) := by
  obtain ⟨files,connection⟩ := m
  rcases connection with _ | ⟨_ | pending⟩
  · simp at hopen
  · cases hd : stateOf (files .database) with
    | none => simp [vacuumInto, bind_apply, onView, view, hd] at h
    | some state =>
      cases ht : (files .snapshotTmp).isSome with
      | true => simp [vacuumInto, bind_apply, onView, view, hd, ht] at h
      | false =>
        simp only [vacuumInto, bind_apply, onView, view, hd, ht, look_apply] at h
        obtain ⟨hruns,hm⟩ := writeOut_eq_returned.mp h
        exact ⟨rfl,hruns,state,rfl,hm⟩
  · simp [vacuumInto, bind_apply] at h

/-- A copy was built only by a connection with nothing pending on a healthy
database, and only if every operation on the way ran. -/
theorem writeCopy_true (plan : Plan Call) (m m' : Machine σ)
    (hopen : m.connection.isSome = true) (h : writeCopy plan m = (.returned true,m')) :
    m.connection = some ⟨none⟩ ∧ plan .unlinkOld = .runs ∧
      (∀ step, plan (.vacuum step) = .runs) ∧
      ∃ state, stateOf (m.files .database) = some state ∧
        m' = m.put .snapshotTmp (some (.healthy state)) := by
  rcases attempt_eq_returned.mp h with hbody | ⟨e,m1,-,hhandler⟩
  · obtain ⟨_,m1,hunlink,hrest⟩ := bind_eq_returned.mp hbody
    obtain ⟨_,m2,hvacuum,hdone⟩ := bind_eq_returned.mp hrest
    obtain ⟨hcleared,hput⟩ := perform_eq_returned.mp hunlink
    simp only [change_apply, Prod.mk.injEq, true_and] at hput
    subst hput
    obtain ⟨hc,hruns,state,hstate,hm2⟩ := vacuumInto_returned plan _ m2 hvacuum hopen
    simp only [pure_apply, Prod.mk.injEq, true_and] at hdone
    refine ⟨hc,hcleared,hruns,state,by simpa using hstate,?_⟩
    rw [← hdone, hm2, put_put]
  · obtain ⟨_,m2,_,hdone⟩ := bind_eq_returned.mp hhandler
    simp at hdone

theorem writeCopy_runs (plan : Plan Call) (m : Machine σ) (hconnected : m.connection = some ⟨none⟩)
    (hcleared : plan .unlinkOld = .runs) (hcopied : ∀ step, plan (.vacuum step) = .runs)
    (state : σ) (hstate : stateOf (m.files .database) = some state) :
    writeCopy plan m = (.returned true,m.put .snapshotTmp (some (.healthy state))) := by
  simp [writeCopy, attempt_apply, bind_apply, unlink, perform_apply, hcleared, vacuumInto,
    hconnected, onView, view, hstate, writeOut, hcopied, put_put]

/-- The rotation starts from the old generations and a copy that was checked. -/
theorem writeSnapshot_rotates (plan : Plan Call) (m : Machine σ) (h : ReachesRotation plan m) :
    ∃ state, writeSnapshot plan m =
      rotateIn plan (m.put .snapshotTmp (some (.healthy state))) := by
  obtain ⟨state,hstate⟩ := Option.isSome_iff_exists.mp h.live
  have hopen := requireOpen_apply plan m (by simp [h.connected])
  refine ⟨state,?_⟩
  have hcopy := writeCopy_runs plan m h.connected h.cleared h.copied state hstate
  have hhealthy := checkCopy_checked plan (by decide)
    (m.put .snapshotTmp (some (.healthy state))) h.checked (by simp)
  rw [writeSnapshot, bind_returned hopen, bind_returned hcopy, if_pos rfl, bind_returned hhealthy]
  have hsurvived := h.survived
  cases hch : plan .chmod with
  | dies => exact absurd hch hsurvived
  | runs => simp [bind_apply, perform_apply, isHealthy, hch, exceptOSError, attempt_apply]
  | fails text => simp [bind_apply, perform_apply, isHealthy, hch, exceptOSError, attempt_apply]

theorem writeSnapshot_stays (plan : Plan Call) (m : Machine σ) (h : ¬ReachesRotation plan m) :
    Generations (m.files .snapshot) (m.files .snapshotPrev) (writeSnapshot plan m).2 := by
  have hignore := generations_ignore (m.files .snapshot) (m.files .snapshotPrev) .snapshotTmp
    (by decide) (by decide)
  by_cases hopen : m.connection.isSome = true
  · have hkeeps := keeps_writeCopy hignore plan m ⟨rfl,rfl⟩
    rw [writeSnapshot, bind_returned (requireOpen_apply plan m hopen)]
    rcases hcopy : writeCopy plan m with ⟨_ | _ | _,m1⟩
    · rename_i written
      rw [hcopy] at hkeeps
      rw [bind_returned hcopy]
      cases written with
      | false => exact hkeeps
      | true =>
        obtain ⟨hc,hu,hv,state,hstate,rfl⟩ := writeCopy_true plan m m1 hopen hcopy
        have hlive : isHealthy (m.files .database) = true := by simp [isHealthy, hstate]
        cases hk : plan (.check .snapshotTmp) with
        | dies => simpa [bind_apply, fileIsHealthy, attempt_apply, perform_apply, hk] using hkeeps
        | fails text =>
          have hdiscard := keeps_unlink hignore .unlinkUnhealthy plan _ hkeeps
          simpa [bind_apply, fileIsHealthy, attempt_apply, perform_apply, hk] using hdiscard
        | runs =>
          have hch : plan .chmod = .dies := by
            by_contra hne
            exact h ⟨hc,hlive,hu,hv,hk,hne⟩
          have hhealthy := checkCopy_checked plan (by decide)
            (m.put .snapshotTmp (some (.healthy state))) hk (by simp)
          simpa [bind_apply, hhealthy, attempt_apply, perform_apply, isHealthy, exceptOSError,
            hch] using hkeeps
    · rw [bind_raised hcopy]
      rwa [hcopy] at hkeeps
    · rw [bind_killed hcopy]
      rwa [hcopy] at hkeeps
  · have hraised : requireOpen plan m =
        (.raised (.runtimeError "call open() on the conversation memory before using it"),m) := by
      simp [requireOpen, bind_apply, hopen]
    rw [writeSnapshot, bind_raised hraised]
    exact ⟨rfl,rfl⟩

/-- One good generation before the call leaves one after it, unless the rotation
moved a corrupt newest generation down and stopped there. -/
theorem writeSnapshot_recoverable_iff (plan : Plan Call) (m : Machine σ)
    (h : Recoverable m.files) :
    Recoverable (writeSnapshot plan m).2.files ↔ ¬LosesBoth plan m := by
  by_cases hreach : ReachesRotation plan m
  · obtain ⟨state,hrotates⟩ := writeSnapshot_rotates plan m hreach
    obtain ⟨hnewest,holder⟩ := rotateIn_generations plan
      (m.put .snapshotTmp (some (.healthy state))) (.healthy state) (by simp)
    rw [hrotates, Recoverable, hnewest, holder]
    have hloses : LosesBoth plan m ↔ (m.files .snapshot).isSome = true ∧
        isHealthy (m.files .snapshot) = false ∧ plan .snapshotPresent = .runs ∧
        plan (.replace .snapshot) = .runs ∧ plan (.replace .snapshotTmp) ≠ .runs :=
      ⟨fun hl => ⟨hl.2,hl.3,hl.4,hl.5,hl.6⟩,
        fun ⟨h1,h2,h3,h4,h5⟩ => ⟨hreach,h1,h2,h3,h4,h5⟩⟩
    rw [hloses]
    simp only [put_files, reduceCtorEq, if_false]
    by_cases hp : plan .snapshotPresent = .runs <;>
      by_cases hs : (m.files .snapshot).isSome = true <;>
      by_cases hd : plan (.replace .snapshot) = .runs <;>
      by_cases ht : plan (.replace .snapshotTmp) = .runs <;>
      cases hh : isHealthy (m.files .snapshot) <;>
      simp_all [Recoverable, isHealthy]
  · obtain ⟨hnewest,holder⟩ := writeSnapshot_stays plan m hreach
    have hno : ¬LosesBoth plan m := fun hl => hreach hl.reaches
    simpa [Recoverable, hnewest, holder, hno] using h

end

def rottenNewest : Machine MessageTable where
  files
    | .database => some (.healthy ∅)
    | .snapshot => some (.unreadable (.of 0 0 []))
    | .snapshotPrev => some (.healthy ∅)
    | _ => none
  connection := some ⟨none⟩

def secondMoveFails : Plan Call := fun site =>
  if site = .replace .snapshotTmp then .fails "No space left on device" else .runs

theorem rotation_destroys_the_last_good_copy :
    Recoverable rottenNewest.files ∧
      ¬Recoverable (writeSnapshot secondMoveFails rottenNewest).2.files := by
  decide

theorem secondMoveFails_loses_both : LosesBoth secondMoveFails rottenNewest ∧
    ¬Recoverable (writeSnapshot secondMoveFails rottenNewest).2.files := by
  have hloses : LosesBoth secondMoveFails rottenNewest :=
    ⟨⟨by decide,by decide,by decide,fun step => by cases step <;> decide,by decide,by decide⟩,
      by decide,by decide,by decide,by decide,by decide⟩
  exact ⟨hloses,fun hr => (writeSnapshot_recoverable_iff secondMoveFails rottenNewest
    (by decide)).mp hr hloses⟩

end Emma.SnapshotRotation

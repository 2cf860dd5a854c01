import Emma.Library.Runs
import Mathlib.Logic.Function.Basic

/-!
# The lock of the watcher

Claiming the lock takes several steps: look whether the file is there, read the
number in it, ask whether that process is alive, open the file, write into it,
set the trap. Any number of watchers of any users take these steps in any order,
are killed at any of them, or end: they run their trap, and are gone a little later.
A file that was opened stays the file that is written to, whatever its name stands
for by then. The process of another user looks to `kill -0` as one that is gone.
-/

set_option autoImplicit false

namespace Emma.WatcherLock
open Runs

inductive Phase where
  | gone
  | other
  | testing
  | reading
  | checking (owner : Option ℕ)
  | refused
  | opening
  | writing (file : ℕ)
  | trapping
  | watching (trap : Bool)
  | removing
  | ending
  deriving DecidableEq, Repr

/-- The processes by their numbers with their users, the file that `LOCK_FILE` names,
and the number in the first line of each file, if that is what the line is. -/
structure Machine where
  phase : ℕ → Phase
  user : ℕ → ℕ
  lockFile : Option ℕ
  firstLine : ℕ → Option ℕ
  files : ℕ

inductive Move where
  | starts (pid user : ℕ)
  | proceeds (pid : ℕ)
  | fails (pid : ℕ)
  | exits (pid : ℕ)
  | killed (pid : ℕ)
  | otherStarts (pid user : ℕ)
  deriving DecidableEq, Repr

namespace Machine

def setPhase (m : Machine) (pid : ℕ) (phase : Phase) : Machine :=
  { m with phase := Function.update m.phase pid phase }

/-- `head -1`. -/
def owner (m : Machine) : Option ℕ := m.lockFile.bind m.firstLine

def permits (m : Machine) (caller pid : ℕ) : Prop :=
  m.user caller = 0 ∨ m.user caller = m.user pid

instance (m : Machine) (caller pid : ℕ) : Decidable (m.permits caller pid) :=
  inferInstanceAs (Decidable (_ ∨ _))

/-- `kill -0`; the number 0 stands for the caller's own group. -/
def alive (m : Machine) (caller pid : ℕ) : Bool :=
  pid = 0 ∨ m.phase pid ≠ .gone ∧ m.permits caller pid

def truncate (m : Machine) : Machine × ℕ :=
  match m.lockFile with
  | some file => ({ m with firstLine := Function.update m.firstLine file none },file)
  | none => ({ m with
      lockFile := some m.files
      firstLine := Function.update m.firstLine m.files none
      files := m.files+1 },m.files)

/-- The process `pid` is a new one. -/
def born (m : Machine) (pid user : ℕ) (phase : Phase) : Machine :=
  if pid ≠ 0 ∧ m.phase pid = .gone then
    { m with user := Function.update m.user pid user }.setPhase pid phase
  else m

/-- The next step of `claim_the_lock`, or of an exit. -/
def proceed (m : Machine) (pid : ℕ) : Machine :=
  match m.phase pid with
  | .testing => m.setPhase pid (if m.lockFile.isSome then .reading else .opening)
  | .reading => m.setPhase pid (.checking m.owner)
  | .checking owner => m.setPhase pid (if owner.any (m.alive pid) then .refused else .opening)
  | .refused => m.setPhase pid .gone
  | .opening =>
    let (m,file) := m.truncate
    m.setPhase pid (.writing file)
  | .writing file =>
    { m with firstLine := Function.update m.firstLine file (some pid) }.setPhase pid .trapping
  | .trapping => m.setPhase pid (.watching true)
  | .removing => { m with lockFile := none }.setPhase pid .ending
  | .ending => m.setPhase pid .gone
  | _ => m

/-- The file cannot be read, written or removed. -/
def fail (m : Machine) (pid : ℕ) : Machine :=
  match m.phase pid with
  | .reading => m.setPhase pid (.checking none)
  | .opening => m.setPhase pid (.watching false)
  | .writing _ => m.setPhase pid (.watching false)
  | .removing => m.setPhase pid .ending
  | _ => m

def step (m : Machine) : Move → Machine
  | .starts pid user => m.born pid user .testing
  | .proceeds pid => m.proceed pid
  | .fails pid => m.fail pid
  | .exits pid =>
    match m.phase pid with
    | .watching trap => m.setPhase pid (if trap then .removing else .ending)
    | _ => m
  | .killed pid => m.setPhase pid .gone
  | .otherStarts pid user => m.born pid user .other

end Machine

/-- No watcher is there yet; a lock may be left from earlier. -/
def before (others : ℕ → Option ℕ) (lock : Option (Option ℕ)) : Machine where
  phase pid := if (others pid).isSome then .other else .gone
  user pid := (others pid).getD 0
  lockFile := lock.map fun _ => 0
  firstLine _ := lock.join
  files := 1

def Claims : Phase → Prop
  | .opening => True
  | .writing _ => True
  | .trapping => True
  | .watching _ => True
  | .removing => True
  | .ending => True
  | _ => False

/-- Its number was written, and its trap has not removed the file. -/
def Holds : Phase → Prop
  | .trapping => True
  | .watching true => True
  | .removing => True
  | _ => False

/-- It is past `claim_the_lock`, and not gone. -/
def Past : Phase → Prop
  | .watching _ => True
  | .removing => True
  | .ending => True
  | _ => False

/-- At most one process is past `claim_the_lock`. -/
def Exclusive (m : Machine) : Prop := ∀ p q, Past (m.phase p) → Past (m.phase q) → p = q

/-- The trap of one process removes the file with the number of another live one. -/
def RemovesAnothers (m : Machine) : Move → Prop
  | .proceeds p => m.phase p = .removing ∧ ∃ q, q ≠ p ∧ m.owner = some q ∧ Holds (m.phase q)
  | _ => False

def Judges (m : Machine) : Move → Prop
  | .proceeds q => m.phase q = .testing ∧ m.lockFile = none ∨
      ∃ owner, m.phase q = .checking owner ∧ owner.any (m.alive q) = false
  | _ => False

/-- A process finds the lock free, while another that found it so before has not
written its number (and may never), or has removed it and is not gone, or is named in
the file: it was written since the one looked, could not be read, or is another user's. -/
def Misjudges (m : Machine) (move : Move) : Prop :=
  Judges m move ∧ ∃ p, move ≠ .proceeds p ∧ Claims (m.phase p) ∧
    (¬Holds (m.phase p) ∨ m.owner = some p)

/-- Two watchers may come of it without anybody else finding the lock free. -/
def Headed (m : Machine) : Prop :=
  ∃ moves, Throughout Machine.step (fun m move => ¬Judges m move) moves m ∧
    ¬Exclusive (after Machine.step moves m)

structure Held (m : Machine) : Prop where
  one : ∀ p q, Claims (m.phase p) → Claims (m.phase q) → p = q
  named : ∀ p, Holds (m.phase p) → m.owner = some p
  opened : ∀ p file, m.phase p = .writing file → m.lockFile = some file

theorem holds_claims {phase : Phase} (h : Holds phase) : Claims phase := by
  unfold Holds at h
  split at h
  · trivial
  · trivial
  · trivial
  · cases h

theorem past_claims {phase : Phase} (h : Past phase) : Claims phase := by
  unfold Past at h
  split at h
  · trivial
  · trivial
  · trivial
  · cases h

theorem before_held (others : ℕ → Option ℕ) (lock : Option (Option ℕ)) :
    Held (before others lock) := by
  have hnone : ∀ p, ¬Claims ((before others lock).phase p) := by
    intro p hp
    dsimp only [before] at hp
    split at hp
    · exact hp
    · exact hp
  constructor
  · exact fun p q hp => absurd hp (hnone p)
  · exact fun p hp => absurd (holds_claims hp) (hnone p)
  · intro p file hp
    exact absurd (by rw [hp]; trivial) (hnone p)

namespace Machine
variable (m : Machine) (pid : ℕ)

@[simp] theorem setPhase_phase (phase : Phase) (p : ℕ) :
    (m.setPhase pid phase).phase p = if p = pid then phase else m.phase p := by
  simp [setPhase, Function.update_apply]

@[simp] theorem setPhase_lockFile (phase : Phase) :
    (m.setPhase pid phase).lockFile = m.lockFile := rfl

@[simp] theorem setPhase_owner (phase : Phase) : (m.setPhase pid phase).owner = m.owner := rfl

@[simp] theorem truncate_phase : m.truncate.1.phase = m.phase := by
  unfold truncate
  split <;> rfl

theorem truncate_lockFile : m.truncate.1.lockFile = some m.truncate.2 := by
  unfold truncate
  split
  · rename_i file h
    exact h
  · rfl

end Machine

/-! What one step does to the lock. -/

section
variable {m : Machine} {pid : ℕ}

theorem held_alone (halone : ∀ p, p ≠ pid → ¬Claims (m.phase p)) (phase : Phase)
    (hnamed : Holds phase → m.owner = some pid)
    (hopened : ∀ file, phase = .writing file → m.lockFile = some file) :
    Held (m.setPhase pid phase) := by
  have honly : ∀ p, Claims ((m.setPhase pid phase).phase p) → p = pid := by
    intro p hp
    by_contra hother
    rw [Machine.setPhase_phase, if_neg hother] at hp
    exact halone p hother hp
  have hown : (m.setPhase pid phase).phase pid = phase := by
    rw [Machine.setPhase_phase, if_pos rfl]
  constructor
  · intro p q hp hq
    rw [honly p hp, honly q hq]
  · intro p hp
    obtain rfl := honly p (holds_claims hp)
    exact hnamed (hown ▸ hp)
  · intro p file hp
    obtain rfl := honly p (by rw [hp]; trivial)
    exact hopened file (hown ▸ hp)

theorem Held.alone (h : Held m) (hclaims : Claims (m.phase pid)) (p : ℕ) (hp : p ≠ pid) :
    ¬Claims (m.phase p) :=
  fun hother => hp (h.one p pid hother hclaims)

theorem held_aside (h : Held m) (phase : Phase) (hphase : ¬Claims phase) :
    Held (m.setPhase pid phase) := by
  constructor
  · intro p q hp hq
    rw [Machine.setPhase_phase] at hp hq
    split at hp
    · exact absurd hp hphase
    split at hq
    · exact absurd hq hphase
    exact h.one p q hp hq
  · intro p hp
    rw [Machine.setPhase_phase] at hp
    split at hp
    · exact absurd (holds_claims hp) hphase
    exact h.named p hp
  · intro p file hp
    rw [Machine.setPhase_phase] at hp
    split at hp
    · exact absurd (by rw [hp]; trivial) hphase
    exact h.opened p file hp

theorem held_born (h : Held m) (user : ℕ) (phase : Phase) (hphase : ¬Claims phase) :
    Held (m.born pid user phase) := by
  have hsame : Held { m with user := Function.update m.user pid user } :=
    ⟨h.one,h.named,h.opened⟩
  rw [Machine.born]
  split
  · exact held_aside hsame phase hphase
  · exact h

/-- A process that finds the lock free, and rightly so, is the only one that does. -/
theorem judged_alone (h : Held m) (hjudges : Judges m (.proceeds pid))
    (hrightly : ¬Misjudges m (.proceeds pid)) (p : ℕ) (hp : p ≠ pid) : ¬Claims (m.phase p) := by
  intro hclaims
  apply hrightly
  refine ⟨hjudges,p,?_,hclaims,?_⟩
  · rintro ⟨⟩
    exact hp rfl
  · by_cases hholds : Holds (m.phase p)
    · exact .inr (h.named p hholds)
    · exact .inl hholds

theorem proceed_held (h : Held m) (hrightly : ¬Misjudges m (.proceeds pid)) :
    Held (m.proceed pid) := by
  unfold Machine.proceed
  split
  · rename_i hphase
    split
    · exact held_aside h .reading id
    · rename_i hnone
      have hjudges : Judges m (.proceeds pid) := .inl ⟨hphase,by simpa using hnone⟩
      exact held_alone (judged_alone h hjudges hrightly) .opening (by simp [Holds]) (by simp)
  · exact held_aside h _ id
  · rename_i owner hphase
    split
    · exact held_aside h .refused id
    · rename_i hdead
      have hjudges : Judges m (.proceeds pid) := .inr ⟨owner,hphase,by simpa using hdead⟩
      exact held_alone (judged_alone h hjudges hrightly) .opening (by simp [Holds]) (by simp)
  · exact held_aside h .gone id
  · rename_i hphase
    have halone : ∀ p, p ≠ pid → ¬Claims (m.truncate.1.phase p) := by
      rw [Machine.truncate_phase]
      exact h.alone (by rw [hphase]; trivial)
    apply held_alone halone (.writing m.truncate.2) (by simp [Holds])
    rintro file ⟨⟩
    exact m.truncate_lockFile
  · rename_i file hphase
    have hfile := h.opened pid file hphase
    apply held_alone _ _ _ (by simp)
    · exact h.alone (by rw [hphase]; trivial)
    · intro _
      simp [Machine.owner, hfile]
  · rename_i hphase
    apply held_alone _ _ _ (by simp)
    · exact h.alone (by rw [hphase]; trivial)
    · intro _
      exact h.named pid (by rw [hphase]; trivial)
  · rename_i hphase
    have halone : ∀ p, p ≠ pid → ¬Claims (m.phase p) := h.alone (by rw [hphase]; trivial)
    exact @held_alone { m with lockFile := none } pid halone .ending (by simp [Holds]) (by simp)
  · exact held_aside h .gone id
  · exact h

theorem fail_held (h : Held m) : Held (m.fail pid) := by
  unfold Machine.fail
  split
  · exact held_aside h (.checking none) id
  · rename_i hphase
    exact held_alone (h.alone (by rw [hphase]; trivial)) _ (by simp [Holds]) (by simp)
  · rename_i hphase
    exact held_alone (h.alone (by rw [hphase]; trivial)) _ (by simp [Holds]) (by simp)
  · rename_i hphase
    exact held_alone (h.alone (by rw [hphase]; trivial)) _ (by simp [Holds]) (by simp)
  · exact h

theorem exit_held (h : Held m) : Held (m.step (.exits pid)) := by
  dsimp only [Machine.step]
  split
  · rename_i trap hphase
    have halone : ∀ p, p ≠ pid → ¬Claims (m.phase p) := h.alone (by rw [hphase]; trivial)
    cases trap with
    | true => exact held_alone halone _ (fun _ => h.named pid (by rw [hphase]; trivial)) (by simp)
    | false => exact held_alone halone _ (by simp [Holds]) (by simp)
  · exact h

theorem step_held (h : Held m) (move : Move) (hrightly : ¬Misjudges m move) :
    Held (m.step move) := by
  cases move with
  | starts pid user => exact held_born h user .testing id
  | proceeds pid => exact proceed_held h hrightly
  | fails pid => exact fail_held h
  | exits pid => exact exit_held h
  | killed pid => exact held_aside h .gone id
  | otherStarts pid user => exact held_born h user .other id

theorem held_exclusive (h : Held m) : Exclusive m := by
  intro p q hp hq
  exact h.one p q (past_claims hp) (past_claims hq)

theorem held_removes_own (h : Held m) (move : Move) : ¬RemovesAnothers m move := by
  cases move with
  | proceeds p =>
    rintro ⟨hp,q,hne,-,hq⟩
    exact hne (h.one q p (holds_claims hq) (by rw [hp]; trivial))
  | _ => exact id

theorem held_not_headed (h : Held m) : ¬Headed m := by
  rintro ⟨moves,hmoves,htwo⟩
  apply htwo
  apply held_exclusive
  apply hmoves.keeps Held _ h
  intro m move hm hjudges
  exact step_held hm move fun hmis => hjudges hmis.1

end

/-! Once two processes find the lock free, both may go on. -/

theorem proceed_other (m : Machine) {pid p : ℕ} (hp : p ≠ pid) :
    (m.proceed pid).phase p = m.phase p := by
  unfold Machine.proceed
  split <;> simp [hp]

/-- The steps that are left of `claim_the_lock`. -/
def remaining : Phase → ℕ
  | .opening => 3
  | .writing _ => 2
  | .trapping => 1
  | _ => 0

theorem proceed_claims (m : Machine) (pid : ℕ) (h : 0 < remaining (m.phase pid)) :
    remaining ((m.proceed pid).phase pid)+1 = remaining (m.phase pid) ∧
      Claims ((m.proceed pid).phase pid) ∧ ¬Judges m (.proceeds pid) := by
  generalize hphase : m.phase pid = phase at h
  cases phase with
  | opening => simp [Machine.proceed, hphase, Claims, remaining, Judges]
  | writing file => simp [Machine.proceed, hphase, Claims, remaining, Judges]
  | trapping => simp [Machine.proceed, hphase, Claims, remaining, Judges]
  | _ => exact absurd h (Nat.lt_irrefl 0)

theorem claims_past {phase : Phase} (h : Claims phase) (hdone : remaining phase = 0) :
    Past phase := by
  cases phase with
  | opening => cases hdone
  | writing file => cases hdone
  | trapping => cases hdone
  | watching trap => trivial
  | removing => trivial
  | ending => trivial
  | _ => cases h

/-- A process that found the lock free takes the steps it has left. -/
theorem proceeds_past (n : ℕ) (m : Machine) (pid : ℕ) (h : Claims (m.phase pid))
    (hn : remaining (m.phase pid) = n) :
    let moves := List.replicate n (Move.proceeds pid)
    Past ((after Machine.step moves m).phase pid) ∧
      (∀ p, p ≠ pid → (after Machine.step moves m).phase p = m.phase p) ∧
      Throughout Machine.step (fun m move => ¬Judges m move) moves m := by
  induction n generalizing m with
  | zero => exact ⟨claims_past h hn,fun _ _ => rfl,throughout_nil m⟩
  | succ n ih =>
    obtain ⟨hfewer,hnext,hjudges⟩ := proceed_claims m pid (by omega)
    obtain ⟨hpast,hothers,hrest⟩ := ih (m.proceed pid) hnext (by omega)
    refine ⟨hpast,?_,?_⟩
    · exact fun p hp => (hothers p hp).trans (proceed_other m hp)
    · exact (throughout_cons _ _ m).mpr ⟨hjudges,hrest⟩

theorem two_headed (m : Machine) (p q : ℕ) (hne : p ≠ q) (hp : Claims (m.phase p))
    (hq : Claims (m.phase q)) : Headed m := by
  obtain ⟨hpast,hothers,hquiet⟩ := proceeds_past _ m p hp rfl
  generalize hm : after Machine.step (List.replicate (remaining (m.phase p)) (Move.proceeds p)) m =
    m' at hpast hothers
  have hq' : Claims (m'.phase q) := by
    rw [hothers q hne.symm]
    exact hq
  obtain ⟨hpast',hothers',hquiet'⟩ := proceeds_past _ m' q hq' rfl
  refine ⟨List.replicate (remaining (m.phase p)) (.proceeds p) ++
    List.replicate (remaining (m'.phase q)) (.proceeds q),?_,?_⟩
  · rw [throughout_append, hm]
    exact ⟨hquiet,hquiet'⟩
  · intro hexclusive
    rw [after_append, hm] at hexclusive
    rw [← hothers' p hne] at hpast
    exact hne (hexclusive p q hpast hpast')

theorem misjudged_headed (m : Machine) (move : Move) (h : Misjudges m move) :
    Headed (m.step move) := by
  obtain ⟨hjudges,p,hother,hclaims,-⟩ := h
  cases move with
  | proceeds q =>
    have hne : p ≠ q := fun hpq => hother (by rw [hpq])
    have hopening : (m.proceed q).phase q = .opening := by
      rcases hjudges with ⟨hphase,hnone⟩ | ⟨owner,hphase,hdead⟩
      · simp [Machine.proceed, hphase, hnone]
      · simp [Machine.proceed, hphase, hdead]
    apply two_headed (m.proceed q) p q hne
    · rw [proceed_other m hne]
      exact hclaims
    · rw [hopening]
      trivial
  | _ => cases hjudges

/-- There is one watcher at a time, none removes the lock of another, and two never
become unavoidable, exactly when nobody finds the lock free wrongly. -/
theorem one_watcher_iff (others : ℕ → Option ℕ) (lock : Option (Option ℕ)) (moves : List Move) :
    (Always Machine.step Exclusive moves (before others lock) ∧
      Throughout Machine.step (fun m move => ¬RemovesAnothers m move) moves (before others lock)) ∧
      Always Machine.step (fun m => ¬Headed m) moves (before others lock) ↔
    Throughout Machine.step (fun m move => ¬Misjudges m move) moves (before others lock) := by
  have hstart := before_held others lock
  have hsafe : Always Machine.step (fun m => ¬Headed m) moves (before others lock) ↔
      Always Machine.step Held moves (before others lock) := by
    have hstep : ∀ m move, Held m → ¬Headed (Machine.step m move) → Held (m.step move) := by
      intro m move hm hunheaded
      exact step_held hm move fun hmis => hunheaded (misjudged_headed m move hmis)
    exact (always_congr (fun _ h => held_not_headed h) hstep moves _ hstart).symm
  have hheld : Always Machine.step Held moves (before others lock) ↔
      Throughout Machine.step (fun m move => ¬Misjudges m move) moves (before others lock) := by
    apply always_iff Held _ moves _ hstart
    intro m move hm
    constructor
    · exact fun hnext hmis => held_not_headed hnext (misjudged_headed m move hmis)
    · exact step_held hm move
  rw [hsafe, hheld]
  constructor
  · exact fun h => h.2
  · intro h
    have hall := hheld.mpr h
    refine ⟨⟨fun front back hmoves => held_exclusive (hall front back hmoves),?_⟩,h⟩
    exact fun front move back hmoves => held_removes_own (hall front _ hmoves) move

def race : List Move := [.starts 10 1000,.starts 11 1000,.proceeds 10,.proceeds 11,.proceeds 10,
  .proceeds 10,.proceeds 10,.proceeds 11,.proceeds 11,.proceeds 11]

/-- Two watchers run, and the first to end removes the lock of the other. -/
theorem race_is_lost :
    ¬Always Machine.step Exclusive (race ++ [.exits 10,.proceeds 10])
      (before (fun _ => none) none) ∧
    ¬Throughout Machine.step (fun m move => ¬RemovesAnothers m move)
      (race ++ [.exits 10,.proceeds 10]) (before (fun _ => none) none) := by
  constructor
  · intro h
    have htwo : 10 = 11 := h race [.exits 10,.proceeds 10] rfl 10 11 trivial trivial
    cases htwo
  · intro h
    refine h (race ++ [.exits 10]) (.proceeds 10) [] rfl ⟨rfl,11,by decide,rfl,?_⟩
    exact trivial

/-! Where claims and exits come one after the other, the lock does what it is for. -/

def Inside : Phase → Prop
  | .reading => True
  | .checking _ => True
  | .opening => True
  | .writing _ => True
  | .ending => True
  | _ => False

def Serial (m : Machine) : Move → Prop
  | .proceeds p => (m.phase p = .testing ∨ m.phase p = .removing → ∀ q, ¬Inside (m.phase q)) ∧
      ∀ q, m.phase p = .checking (some q) → m.permits p q
  | .fails _ => False
  | _ => True

structure Orderly (m : Machine) : Prop where
  held : Held m
  apart : ∀ p q, Inside (m.phase p) → Inside (m.phase q) → p = q
  read : ∀ p owner, m.phase p = .checking owner → m.lockFile = none ∨ m.owner = owner
  locked : ∀ p, m.phase p ≠ .watching false

/-- A process that claims the lock is inside, or it has the lock. -/
theorem orderly_claims {m : Machine} (h : Orderly m) {p : ℕ} (hp : Claims (m.phase p)) :
    Inside (m.phase p) ∨ m.owner = some p := by
  generalize hphase : m.phase p = phase at hp
  cases phase with
  | opening => exact .inl trivial
  | writing file => exact .inl trivial
  | trapping => exact .inr (h.held.named p (by rw [hphase]; trivial))
  | watching trap =>
    cases trap with
    | true => exact .inr (h.held.named p (by rw [hphase]; trivial))
    | false => exact absurd hphase (h.locked p)
  | removing => exact .inr (h.held.named p (by rw [hphase]; trivial))
  | ending => exact .inl trivial
  | _ => cases hp

theorem orderly_judges_rightly {m : Machine} (h : Orderly m) (move : Move)
    (hserial : Serial m move) : ¬Misjudges m move := by
  rintro ⟨hjudges,p,hother,hclaims,-⟩
  cases move with
  | proceeds q =>
    have hne : p ≠ q := fun hpq => hother (by rw [hpq])
    rcases hjudges with ⟨hphase,hnone⟩ | ⟨owner,hphase,hdead⟩
    · rcases orderly_claims h hclaims with hinside | howner
      · exact hserial.1 (.inl hphase) p hinside
      · simp [Machine.owner, hnone] at howner
    · rcases orderly_claims h hclaims with hinside | howner
      · exact hne (h.apart p q hinside (by rw [hphase]; trivial))
      · rcases h.read q owner hphase with hnone | hsame
        · simp [Machine.owner, hnone] at howner
        · rw [← hsame, howner] at hphase hdead
          have halive : m.alive q p = true := by
            have hthere : m.phase p ≠ .gone := by
              intro hgone
              rw [hgone] at hclaims
              exact hclaims
            simp [Machine.alive, hthere, hserial.2 p hphase]
          rw [Option.any_some, halive] at hdead
          cases hdead
  | _ => cases hjudges

/-- One process moves, and what others read of the lock stays true. -/
theorem orderly_of {m m' : Machine} (h : Orderly m) (hheld : Held m') (pid : ℕ)
    (hothers : ∀ p, p ≠ pid → m'.phase p = m.phase p)
    (hentered : Inside (m'.phase pid) → Inside (m.phase pid) ∨ ∀ q, ¬Inside (m.phase q))
    (hlock : m'.lockFile = none ∨ m'.lockFile = m.lockFile ∧ m'.owner = m.owner ∨
      Inside (m.phase pid))
    (hread : ∀ owner, m'.phase pid = .checking owner → m'.owner = owner)
    (hlocked : m'.phase pid ≠ .watching false) : Orderly m' := by
  have hentered' : ∀ q, q ≠ pid → Inside (m'.phase pid) → ¬Inside (m.phase q) := by
    intro q hq hinside hother
    rcases hentered hinside with hbefore | hnobody
    · exact hq (h.apart q pid hother hbefore)
    · exact hnobody q hother
  constructor
  · exact hheld
  · intro p q hp hq
    by_cases hpid : p = pid
    · by_contra hne
      have hqid : q ≠ pid := fun hqid => hne (hpid.trans hqid.symm)
      rw [hothers q hqid] at hq
      exact hentered' q hqid (hpid ▸ hp) hq
    · rw [hothers p hpid] at hp
      by_cases hqid : q = pid
      · exact absurd hp (hentered' p hpid (hqid ▸ hq))
      · rw [hothers q hqid] at hq
        exact h.apart p q hp hq
  · intro p owner hp
    by_cases hpid : p = pid
    · exact .inr (hread owner (hpid ▸ hp))
    rw [hothers p hpid] at hp
    rcases hlock with hnone | ⟨hfile,howner⟩ | hinside
    · exact .inl hnone
    · rw [hfile, howner]
      exact h.read p owner hp
    · exact absurd (h.apart p pid (by rw [hp]; trivial) hinside) hpid
  · intro p
    by_cases hpid : p = pid
    · rw [hpid]
      exact hlocked
    · rw [hothers p hpid]
      exact h.locked p

/-- A process that is inside is the only one, and may do as it likes. -/
theorem orderly_inside {m m' : Machine} (h : Orderly m) (hheld : Held m') (pid : ℕ)
    (hothers : ∀ p, p ≠ pid → m'.phase p = m.phase p) (hinside : Inside (m.phase pid))
    (hread : ∀ owner, m'.phase pid = .checking owner → m'.owner = owner)
    (hlocked : m'.phase pid ≠ .watching false) : Orderly m' :=
  orderly_of h hheld pid hothers (fun _ => .inl hinside) (.inr (.inr hinside)) hread hlocked

theorem orderly_aside {m : Machine} (h : Orderly m) (pid : ℕ) (phase : Phase)
    (hheld : Held (m.setPhase pid phase)) (houtside : ¬Inside phase)
    (hlocked : phase ≠ .watching false) : Orderly (m.setPhase pid phase) := by
  have hown : (m.setPhase pid phase).phase pid = phase := by simp
  apply orderly_of h hheld pid
  · intro p hp
    simp [hp]
  · rw [hown]
    exact fun hinside => absurd hinside houtside
  · exact .inr (.inl ⟨rfl,rfl⟩)
  · intro owner hchecking
    rw [hown] at hchecking
    rw [hchecking] at houtside
    exact absurd trivial houtside
  · rwa [hown]

theorem orderly_born {m : Machine} (h : Orderly m) (pid user : ℕ) (phase : Phase)
    (hphase : ¬Claims phase) (houtside : ¬Inside phase) (hlocked : phase ≠ .watching false) :
    Orderly (m.born pid user phase) := by
  have hsame : Orderly { m with user := Function.update m.user pid user } :=
    ⟨⟨h.held.one,h.held.named,h.held.opened⟩,h.apart,h.read,h.locked⟩
  rw [Machine.born]
  split
  · exact orderly_aside hsame pid phase (held_aside hsame.held phase hphase) houtside hlocked
  · exact h

theorem proceed_orderly {m : Machine} (h : Orderly m) (pid : ℕ)
    (hserial : Serial m (.proceeds pid)) : Orderly (m.proceed pid) := by
  have hheld : Held (m.proceed pid) := proceed_held h.held (orderly_judges_rightly h _ hserial)
  have hothers : ∀ p, p ≠ pid → (m.proceed pid).phase p = m.phase p :=
    fun p hp => proceed_other m hp
  generalize hphase : m.phase pid = phase
  cases phase with
  | testing =>
    apply orderly_of h hheld pid hothers
    · exact fun _ => .inr (hserial.1 (.inl hphase))
    · simp [Machine.proceed, hphase]
    · intro owner
      cases hfile : m.lockFile <;> simp [Machine.proceed, hphase, hfile]
    · cases hfile : m.lockFile <;> simp [Machine.proceed, hphase, hfile]
  | reading =>
    apply orderly_inside h hheld pid hothers (by rw [hphase]; trivial)
    · simp [Machine.proceed, hphase]
    · simp [Machine.proceed, hphase]
  | checking owner =>
    apply orderly_inside h hheld pid hothers (by rw [hphase]; trivial)
    · intro read
      cases halive : owner.any (m.alive pid) <;> simp [Machine.proceed, hphase, halive]
    · cases halive : owner.any (m.alive pid) <;> simp [Machine.proceed, hphase, halive]
  | opening =>
    apply orderly_inside h hheld pid hothers (by rw [hphase]; trivial)
    · simp [Machine.proceed, hphase]
    · simp [Machine.proceed, hphase]
  | writing file =>
    apply orderly_inside h hheld pid hothers (by rw [hphase]; trivial)
    · simp [Machine.proceed, hphase]
    · simp [Machine.proceed, hphase]
  | ending =>
    apply orderly_inside h hheld pid hothers (by rw [hphase]; trivial)
    · simp [Machine.proceed, hphase]
    · simp [Machine.proceed, hphase]
  | removing =>
    apply orderly_of h hheld pid hothers
    · exact fun _ => .inr (hserial.1 (.inr hphase))
    · simp [Machine.proceed, hphase]
    · simp [Machine.proceed, hphase]
    · simp [Machine.proceed, hphase]
  | refused =>
    have hstep : m.proceed pid = m.setPhase pid .gone := by simp [Machine.proceed, hphase]
    rw [hstep] at hheld ⊢
    exact orderly_aside h pid .gone hheld id (by simp)
  | trapping =>
    have hstep : m.proceed pid = m.setPhase pid (.watching true) := by
      simp [Machine.proceed, hphase]
    rw [hstep] at hheld ⊢
    exact orderly_aside h pid (.watching true) hheld id (by simp)
  | gone => simpa [Machine.proceed, hphase] using h
  | other => simpa [Machine.proceed, hphase] using h
  | watching trap => simpa [Machine.proceed, hphase] using h

theorem exit_orderly {m : Machine} (h : Orderly m) (pid : ℕ) : Orderly (m.step (.exits pid)) := by
  have hheld := @exit_held m pid h.held
  dsimp only [Machine.step] at hheld ⊢
  split
  · rename_i trap hphase
    rw [hphase] at hheld
    cases trap with
    | true => exact orderly_aside h pid .removing hheld id (by simp)
    | false => exact absurd hphase (h.locked pid)
  · exact h

theorem step_orderly {m : Machine} (h : Orderly m) (move : Move) (hserial : Serial m move) :
    Orderly (m.step move) := by
  have hheld : Held (m.step move) := step_held h.held move (orderly_judges_rightly h move hserial)
  cases move with
  | starts pid user => exact orderly_born h pid user .testing id id (by simp)
  | proceeds pid => exact proceed_orderly h pid hserial
  | fails pid => exact hserial.elim
  | exits pid => exact exit_orderly h pid
  | killed pid => exact orderly_aside h pid .gone hheld id (by simp)
  | otherStarts pid user => exact orderly_born h pid user .other id id (by simp)

theorem before_orderly (others : ℕ → Option ℕ) (lock : Option (Option ℕ)) :
    Orderly (before others lock) := by
  have hphase : ∀ p, (before others lock).phase p = .other ∨
      (before others lock).phase p = .gone := by
    intro p
    dsimp only [before]
    split
    · exact .inl rfl
    · exact .inr rfl
  have houtside : ∀ p, ¬Inside ((before others lock).phase p) := by
    intro p
    rcases hphase p with hp | hp <;> simp [hp, Inside]
  constructor
  · exact before_held others lock
  · exact fun p q hp => absurd hp (houtside p)
  · intro p owner hp
    exact absurd (by rw [hp]; trivial) (houtside p)
  · intro p
    rcases hphase p with hp | hp <;> simp [hp]

/-- Claimed and removed by one process after the other, the lock lets one watcher through. -/
theorem serial_claims_exclude (others : ℕ → Option ℕ) (lock : Option (Option ℕ)) (moves : List Move)
    (h : Throughout Machine.step Serial moves (before others lock)) :
    Always Machine.step Exclusive moves (before others lock) := by
  rintro front back rfl
  have hfront := ((throughout_append front back _).mp h).1
  exact held_exclusive (hfront.keeps Orderly (fun m move hm hserial => step_orderly hm move hserial)
    (before_orderly others lock)).held

end Emma.WatcherLock

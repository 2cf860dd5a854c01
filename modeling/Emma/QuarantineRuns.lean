import Emma.Library.Runs
import Emma.CrashRecovery
import Emma.MemoryWindow

/-!
# What becomes of the databases that were put aside

A damaged database moves to a name made of the second the recovery began in,
and takes the place of whatever had that name. Between openings anything may
happen to the files in use, and nothing else touches what was put aside. The
history variable records each database that failed its check, with the stamp of
the opening that found it.
-/

set_option autoImplicit false

namespace Emma.QuarantineRuns
open FaultyProgram Runs Emma.ConversationMemory Emma.DatabaseFiles Emma.SelfRepair
open Emma.SqliteMemory Emma.MemoryWindow Emma.CrashRecovery

def InUse (file : FileName) : Prop := ∀ stamp, file ≠ .corrupt stamp

inductive Move where
  | opened (stamp : String)
  | changed (file : {file : FileName // InUse file}) (content : Option (Content MessageTable))
  | appended (c : ConversationId) (message : StoredMessage) (now : ℚ)
  | closed
  | killed

structure Watched where
  machine : Machine MessageTable
  failed : List (String × Content MessageTable)

def damaged {σ : Type} (m : Machine σ) : Option (Content σ) :=
  (m.files .database).filter fun content => !isHealthy (some content)

section
variable (parent : String) (maxMessages : ℕ+)

def Move.machine : Move → Machine MessageTable → Machine MessageTable
  | .opened stamp, m => (openMemory parent stamp smooth m).2
  | .changed file content, m => m.put file content
  | .appended c message now, m => (append maxMessages c message now smooth m).2
  | .closed, m => (closeMemory smooth m).2
  | .killed, m => m.restarted

def Move.found : Move → Machine MessageTable → List (String × Content MessageTable)
  | .opened stamp, m => ((damaged m).map fun content => (stamp,content)).toList
  | _, _ => []

def Move.step (w : Watched) (move : Move) : Watched :=
  ⟨move.machine parent maxMessages w.machine,w.failed ++ move.found w.machine⟩

end

def watching (m : Machine MessageTable) : Watched := ⟨m,[]⟩

/-- Every database that failed its check is still there under some stamp. -/
def Kept (w : Watched) : Prop :=
  ∀ old ∈ w.failed, ∃ stamp, w.machine.files (.corrupt stamp) = some old.2

/-- A recovery whose second already names the one copy of another failed database. -/
def Overwrites (w : Watched) : Move → Prop
  | .opened stamp => ∃ content, damaged w.machine = some content ∧ ∃ old ∈ w.failed,
      old.2 ≠ content ∧ w.machine.files (.corrupt stamp) = some old.2 ∧
        ∀ other, w.machine.files (.corrupt other) = some old.2 → other = stamp
  | _ => False

theorem damaged_eq_some {σ : Type} {m : Machine σ} {content : Content σ} :
    damaged m = some content ↔
      m.files .database = some content ∧ isHealthy (m.files .database) = false := by
  constructor
  · intro h
    obtain ⟨hfile,hsick⟩ := Option.filter_eq_some_iff.mp h
    rw [hfile]
    exact ⟨rfl,by simpa using hsick⟩
  · rintro ⟨hfile,hsick⟩
    rw [hfile] at hsick
    exact Option.filter_eq_some_iff.mpr ⟨hfile,by simpa using hsick⟩

theorem opened_corrupt {σ : Type} [EmptyCollection σ] (parent stamp other : String)
    (m : Machine σ) : (openMemory parent stamp smooth m).2.files (.corrupt other) =
      if other = stamp then (damaged m).or (m.files (.corrupt other))
      else m.files (.corrupt other) := by
  have hverified : (openMemory parent stamp smooth m).2.files (.corrupt other) =
      (verified stamp m).files (.corrupt other) := by
    rw [openMemory_smooth]
    simp [rotated, Machine.committed]
  rw [hverified]
  cases hd : damaged m with
  | none =>
    have hkept : (verified stamp m).files (.corrupt other) = m.files (.corrupt other) := by
      cases hfile : m.files .database with
      | none => simp only [verified, hfile]
      | some content =>
        have hgood : isHealthy (some content) = true := by
          by_contra hsick
          rw [damaged_eq_some.mpr ⟨hfile,by rw [hfile]; simpa using hsick⟩] at hd
          cases hd
        simp only [verified, hfile, hgood, if_true]
        rfl
    simp [hkept]
  | some content =>
    obtain ⟨hfile,hsick⟩ := damaged_eq_some.mp hd
    have haside : (aside stamp (released .database m)).files (.corrupt other) =
        if other = stamp then some content else m.files (.corrupt other) := by
      rw [← hfile]
      rfl
    rw [verified_damaged stamp m (by simp [hfile]) hsick]
    cases newest m.files with
    | none => simpa using haside
    | some state => simpa using haside

section
variable {parent : String} {maxMessages : ℕ+}

def Aside (files : Directory MessageTable) (m : Machine MessageTable) : Prop :=
  ∀ stamp, m.files (.corrupt stamp) = files (.corrupt stamp)

theorem aside_ignores (files : Directory MessageTable) (file : FileName) (h : InUse file) :
    Ignores (Aside files) file := by
  intro m content hm stamp
  rw [put_files, if_neg (h stamp).symm]
  exact hm stamp

theorem append_aside (c : ConversationId) (message : StoredMessage) (now : ℚ)
    (m : Machine MessageTable) : Aside m.files (append maxMessages c message now smooth m).2 := by
  apply keeps_append (I := Aside m.files) (fun _ _ h => h)
  · exact fun other state h => aside_ignores _ .database (fun _ => by simp) other _ h
  · exact fun _ => rfl

theorem close_aside (m : Machine MessageTable) : Aside m.files (closeMemory smooth m).2 := by
  have hsnapshot : Keeps (Aside m.files) writeSnapshot :=
    keeps_writeSnapshot (aside_ignores _ _ fun _ => by simp) (aside_ignores _ _ fun _ => by simp)
      (aside_ignores _ _ fun _ => by simp)
  have hclose : Keeps (Aside m.files) closeMemory := by
    refine keeps_bind (keeps_look _) fun up => ?_
    split
    · exact keeps_bind hsnapshot fun _ => keeps_perform (keeps_change fun _ h => h)
    · exact keeps_pure _
  exact hclose smooth m fun _ => rfl

theorem kept_congr {w w' : Watched} (hfailed : w'.failed = w.failed)
    (haside : Aside w.machine.files w'.machine) : Kept w' ↔ Kept w := by
  unfold Kept
  simp only [hfailed, haside _]

/-- Only an opening that finds the database damaged adds to what was put aside. -/
theorem step_cases (w : Watched) (move : Move) :
    (∃ stamp content, move = .opened stamp ∧ damaged w.machine = some content) ∨
      (move.step parent maxMessages w).failed = w.failed ∧
        Aside w.machine.files (move.step parent maxMessages w).machine ∧ ¬Overwrites w move := by
  cases move with
  | opened stamp =>
    cases hd : damaged w.machine with
    | some content => exact .inl ⟨stamp,content,rfl,rfl⟩
    | none =>
      refine .inr ⟨by simp [Move.step, Move.found, hd],?_,?_⟩
      · intro other
        simp [Move.step, Move.machine, opened_corrupt, hd]
      · rintro ⟨content,hsick,-⟩
        rw [hd] at hsick
        cases hsick
  | changed file content =>
    exact .inr ⟨List.append_nil _,aside_ignores _ file file.2 w.machine content fun _ => rfl,id⟩
  | appended c message now =>
    exact .inr ⟨List.append_nil _,append_aside c message now w.machine,id⟩
  | closed => exact .inr ⟨List.append_nil _,close_aside w.machine,id⟩
  | killed => exact .inr ⟨List.append_nil _,fun _ => rfl,id⟩

theorem opened_failed (w : Watched) (stamp : String) (content : Content MessageTable)
    (h : damaged w.machine = some content) :
    (Move.step parent maxMessages w (.opened stamp)).failed = w.failed ++ [(stamp,content)] := by
  simp [Move.step, Move.found, h]

theorem opened_damaged (w : Watched) (stamp other : String) (content : Content MessageTable)
    (h : damaged w.machine = some content) :
    (Move.step parent maxMessages w (.opened stamp)).machine.files (.corrupt other) =
      if other = stamp then some content else w.machine.files (.corrupt other) := by
  simp [Move.step, Move.machine, opened_corrupt, h]

/-- One more damaged database is put aside, at the cost of what had its name. -/
theorem kept_opened_iff (w : Watched) (stamp : String) (content : Content MessageTable)
    (h : damaged w.machine = some content) (hw : Kept w) :
    Kept (Move.step parent maxMessages w (.opened stamp)) ↔ ¬Overwrites w (.opened stamp) := by
  unfold Kept
  rw [opened_failed w stamp content h]
  simp only [opened_damaged w stamp _ content h]
  constructor
  · rintro hkept ⟨content',hsick,old,hold,hne,hat,honly⟩
    obtain rfl : content = content' := Option.some.inj (h.symm.trans hsick)
    obtain ⟨other,hother⟩ := hkept old (List.mem_append_left _ hold)
    by_cases hsame : other = stamp
    · rw [if_pos hsame] at hother
      exact hne (Option.some.inj hother).symm
    · rw [if_neg hsame] at hother
      exact hsame (honly other hother)
  · intro hspared old hmem
    rcases List.mem_append.mp hmem with hold | hnew
    · by_cases hsame : old.2 = content
      · exact ⟨stamp,by rw [if_pos rfl, hsame]⟩
      obtain ⟨place,hplace⟩ := hw old hold
      by_contra hlost
      have helse : ∀ other, w.machine.files (.corrupt other) = some old.2 → other = stamp := by
        intro other hother
        by_contra hapart
        exact hlost ⟨other,by rw [if_neg hapart, hother]⟩
      obtain rfl := helse place hplace
      exact hspared ⟨content,h,old,hold,hsame,hplace,helse⟩
    · obtain rfl := List.mem_singleton.mp hnew
      exact ⟨stamp,if_pos rfl⟩

theorem step_kept_iff (w : Watched) (move : Move) (hw : Kept w) :
    Kept (move.step parent maxMessages w) ↔ ¬Overwrites w move := by
  rcases @step_cases parent maxMessages w move with ⟨stamp,content,rfl,hsick⟩ |
    ⟨hfailed,haside,hspared⟩
  · exact kept_opened_iff w stamp content hsick hw
  · exact iff_of_true ((kept_congr hfailed haside).mpr hw) hspared

end

/-- Where every database that failed was put is where it still is. -/
def Filed (w : Watched) : Prop :=
  ∀ old ∈ w.failed, w.machine.files (.corrupt old.1) = some old.2

def FreshStamp (w : Watched) : Move → Prop
  | .opened stamp => ∀ old ∈ w.failed, old.1 ≠ stamp
  | _ => True

theorem step_filed (parent : String) (maxMessages : ℕ+) (w : Watched) (move : Move) (hw : Filed w)
    (hfresh : FreshStamp w move) : Filed (move.step parent maxMessages w) := by
  intro old hmem
  rcases @step_cases parent maxMessages w move with ⟨stamp,content,rfl,hsick⟩ | ⟨hfailed,haside,-⟩
  · rw [opened_failed w stamp content hsick] at hmem
    rw [opened_damaged w stamp old.1 content hsick]
    rcases List.mem_append.mp hmem with hold | hnew
    · rw [if_neg (hfresh old hold)]
      exact hw old hold
    · obtain rfl := List.mem_singleton.mp hnew
      exact if_pos rfl
  · rw [haside]
    exact hw old (hfailed ▸ hmem)

/-- No two recoveries of one second: then nothing is overwritten. -/
theorem fresh_stamps_keep (parent : String) (maxMessages : ℕ+) (moves : List Move)
    (m : Machine MessageTable)
    (h : Throughout (Move.step parent maxMessages) FreshStamp moves (watching m)) :
    Always (Move.step parent maxMessages) Kept moves (watching m) := by
  rintro front back rfl
  have hfront := ((throughout_append front back (watching m)).mp h).1
  have hfiled := hfront.keeps Filed (step_filed parent maxMessages) fun _ hold => nomatch hold
  exact fun old hold => ⟨old.1,hfiled old hold⟩

def withDatabase (junk : Junk) : Move :=
  .changed ⟨.database,fun _ => by simp⟩ (some (.unreadable junk))

def firstJunk : Junk := .of 1 1 []

def secondJunk : Junk := .of 2 2 []

def sameSecond : List Move := [withDatabase firstJunk,.opened "20261025-023000",
  withDatabase secondJunk,.opened "20261025-023000"]

end Emma.QuarantineRuns

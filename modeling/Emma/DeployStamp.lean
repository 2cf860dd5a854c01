import Emma.Library.Runs
import Mathlib.Data.Finset.Filter
import Mathlib.Data.Finset.Union
import Mathlib.Logic.Function.Basic

/-!
# What the machine runs

A deploy names the commit, looks at the working tree, takes the time, packs the tree,
unpacks it on the server and leaves a stamp there with the commit and the time. At its
start the service compares the times of the files with the stamp. Deploys fail where
they are, others write to files on either side, each file then has the time of the
clock, and the service starts when it likes; one clock tells the time on both machines.
The stamp is kept apart from the other files.
-/

set_option autoImplicit false

namespace Emma.DeployStamp
open Runs

abbrev File := List String

structure Entry where
  content : String
  modified : ℕ
  deriving DecidableEq, Repr

structure Files where
  entry : File → Option Entry
  names : Finset File
  covers : ∀ f, (entry f).isSome = true → f ∈ names

namespace Files

def content (d : Files) (f : File) : Option String := (d.entry f).map Entry.content

def put (d : Files) (f : File) (e : Option Entry) : Files where
  entry := Function.update d.entry f e
  names := insert f d.names
  covers := by
    intro other hother
    by_cases hsame : other = f
    · rw [hsame]
      exact Finset.mem_insert_self f d.names
    · rw [Function.update_of_ne hsame] at hother
      exact Finset.mem_insert_of_mem (d.covers other hother)

theorem entry_put (d : Files) (f : File) (e : Option Entry) (other : File) :
    (d.put f e).entry other = if other = f then e else d.entry other :=
  Function.update_apply ..

def only (d : Files) (p : File → Bool) : Files where
  entry f := if p f then d.entry f else none
  names := d.names.filter fun f => p f = true
  covers := by
    intro f hf
    split at hf
    · rename_i hp
      exact Finset.mem_filter.mpr ⟨d.covers f hf,hp⟩
    · cases hf

end Files

def second : ℕ := 1000000000

def Entry.unpacked (e : Entry) : Entry := ⟨e.content,e.modified/second*second⟩

theorem le_unpacked {built : ℕ} (hwhole : second ∣ built) (e : Entry) (h : built ≤ e.modified) :
    built ≤ e.unpacked.modified := by
  obtain ⟨n,rfl⟩ := hwhole
  have hseconds : n ≤ e.modified/second :=
    (Nat.le_div_iff_mul_le (by decide)).mpr (Nat.mul_comm second n ▸ h)
  rw [Entry.unpacked, Nat.mul_comm second n]
  exact Nat.mul_le_mul_right second hseconds

def changesOnItsOwn : List String :=
  [".venv","data","__pycache__",".cache",".git",".pytest_cache",".ruff_cache"]

def stampFilename : String := "VERSION"

/-- The names that `tar` leaves out, wherever they are in a path. -/
def excluded : List String :=
  [".env","data",".venv",".git",".cache","__pycache__",".pytest_cache",".ruff_cache","uv.lock",
    "VERSION"]

def isCompiled (part : String) : Bool := ".pyc".toList.isSuffixOf part.toList

def shipped (f : File) : Bool := !f.any fun part => part ∈ excluded || isCompiled part

def testCaches : List String := [".pytest_cache","__pycache__"]

structure Stamp where
  commit : Files
  built : ℕ
  whole : second ∣ built

/-- `date -Is`. -/
def Stamp.dated (commit : Files) (now : ℕ) : Stamp :=
  ⟨commit,now/second*second,Nat.dvd_mul_left second (now/second)⟩

/-- `modified_since_deploy`, without the order of its list. -/
def modifiedSinceDeploy (stamp : Option Stamp) (d : Files) : Finset File :=
  match stamp with
  | none => ∅
  | some stamp => d.names.filter fun f =>
      f.any (· ∈ changesOnItsOwn) = false ∧ f.getLast? ≠ some stampFilename ∧
        (d.entry f).any (fun e => stamp.built+second < e.modified) = true

/-- The service, with the files as it found them and those it reported. -/
structure Running where
  loaded : Files
  drifted : Finset File

inductive Phase where
  | idle
  | named (commit : Files)
  | checked (commit : Files)
  | dated (stamp : Stamp)
  | packed (stamp : Stamp) (archive : Files)
  | extracting (stamp : Stamp) (archive : Files) (remaining : Finset File)
  | stamped

/-- The development machine, the server and the deploy under way. -/
structure Site where
  now : ℕ
  tree : Files
  head : Files
  installed : Files
  stamp : Option Stamp
  running : Option Running
  phase : Phase

inductive Move where
  | waits (nanoseconds : ℕ)
  | edits (f : File) (content : String)
  | deletes (f : File)
  | commits
  | begins
  | checks
  | dates
  | packs
  | stops
  | extracts (f : File)
  | stamps (whole : Bool)
  | tests (f : File) (content : String)
  | starts
  | fails
  | serverEdits (f : File) (content : String)
  | serverDeletes (f : File)
  | restarts
  | halts

/-- `git status` has nothing to say. -/
def clean (ignored : File → Bool) (tree head : Files) : Bool :=
  ∀ f ∈ tree.names ∪ head.names, tree.content f = head.content f ∨
    head.content f = none ∧ ignored f = true

namespace Site

def load (m : Site) : Running := ⟨m.installed,modifiedSinceDeploy m.stamp m.installed⟩

def step (ignored : File → Bool) (m : Site) : Move → Site
  | .waits nanoseconds => { m with now := m.now+nanoseconds }
  | .edits f content => { m with tree := m.tree.put f (some ⟨content,m.now⟩) }
  | .deletes f => { m with tree := m.tree.put f none }
  | .commits => { m with head := m.tree }
  | .begins =>
    match m.phase with
    | .idle => { m with phase := .named m.head }
    | _ => m
  | .checks =>
    match m.phase with
    | .named commit =>
      { m with phase := if clean ignored m.tree m.head then .checked commit else .idle }
    | _ => m
  | .dates =>
    match m.phase with
    | .checked commit => { m with phase := .dated (.dated commit m.now) }
    | _ => m
  | .packs =>
    match m.phase with
    | .dated stamp => { m with phase := .packed stamp (m.tree.only shipped) }
    | _ => m
  | .stops =>
    match m.phase with
    | .packed stamp archive =>
      { m with running := none, phase := .extracting stamp archive archive.names }
    | _ => m
  | .extracts f =>
    match m.phase with
    | .extracting stamp archive remaining =>
      if f ∈ remaining then
        { m with
          installed := match archive.entry f with
            | some e => m.installed.put f (some e.unpacked)
            | none => m.installed
          phase := .extracting stamp archive (remaining.erase f) }
      else m
    | _ => m
  | .stamps whole =>
    match m.phase with
    | .extracting stamp _ remaining =>
      if remaining = ∅ then
        if whole then { m with stamp := some stamp, phase := .stamped }
        else { m with stamp := none, phase := .idle }
      else m
    | _ => m
  | .tests f content =>
    match m.phase with
    | .stamped =>
      if f.any (· ∈ testCaches) then
        { m with installed := m.installed.put f (some ⟨content,m.now⟩) }
      else m
    | _ => m
  | .starts =>
    match m.phase with
    | .stamped => { m with running := some (m.running.getD m.load), phase := .idle }
    | _ => m
  | .fails => { m with phase := .idle }
  | .serverEdits f content => { m with installed := m.installed.put f (some ⟨content,m.now⟩) }
  | .serverDeletes f => { m with installed := m.installed.put f none }
  | .restarts => { m with running := some m.load }
  | .halts => { m with running := none }

end Site

/-- Nobody starts the service over half an archive or writes the stamp by hand, and the
deploy is not disturbed: no commit comes between the name and the check, the working
tree stays until the time was taken, and no file is deleted before they are packed. -/
def careful (m : Site) : Move → Bool
  | .restarts => match m.phase with
    | .extracting _ _ _ => false
    | _ => true
  | .commits => match m.phase with
    | .named _ => false
    | _ => true
  | .edits _ _ => match m.phase with
    | .checked _ => false
    | _ => true
  | .deletes _ => match m.phase with
    | .checked _ => false
    | .dated _ => false
    | _ => true
  | .serverEdits f _ => f ≠ [stampFilename]
  | .serverDeletes f => f ≠ [stampFilename]
  | _ => true

def Near (stamp : Stamp) (remaining : Finset File) (d : Files) : Prop :=
  ∀ f e c, shipped f = true → stamp.commit.content f = some c → f ∉ remaining →
    d.entry f = some e → e.content = c ∨ stamp.built ≤ e.modified

/-- Where a loaded file is not the one of the commit it was reported, if it was not
written within a second after the deploy began; and none was reported wrongly. -/
structure Told (stamp : Stamp) (r : Running) : Prop where
  admitted : ∀ f e c, shipped f = true → stamp.commit.content f = some c →
    r.loaded.entry f = some e → e.content = c ∨ f ∈ r.drifted ∨
      stamp.built ≤ e.modified ∧ e.modified ≤ stamp.built+second
  reported : ∀ f ∈ r.drifted, ∃ e, r.loaded.entry f = some e ∧
    stamp.built+second < e.modified

def Phase.stamp : Phase → Option Stamp
  | .dated stamp => some stamp
  | .packed stamp _ => some stamp
  | .extracting stamp _ _ => some stamp
  | _ => none

def Underway (m : Site) : Prop :=
  match m.phase with
  | .named commit => commit = m.head
  | .checked commit => ∀ f c, commit.content f = some c → m.tree.content f = some c
  | .dated stamp => ∀ f c, stamp.commit.content f = some c → (m.tree.entry f).isSome = true
  | .packed stamp archive => Near stamp ∅ archive ∧
      (∀ old, m.stamp = some old → Near old ∅ archive) ∧
      ∀ f c, shipped f = true → stamp.commit.content f = some c → (archive.entry f).isSome = true
  | .extracting stamp archive remaining => Near stamp ∅ archive ∧
      (∀ old, m.stamp = some old → Near old ∅ archive) ∧
      (∀ f c, shipped f = true → stamp.commit.content f = some c →
        (archive.entry f).isSome = true) ∧
      m.running = none ∧ Near stamp remaining m.installed
  | _ => True

structure Sound (m : Site) : Prop where
  begun : ∀ stamp, m.phase.stamp = some stamp → stamp.built ≤ m.now ∧ Near stamp ∅ m.tree
  built : ∀ stamp, m.stamp = some stamp → stamp.built ≤ m.now ∧ Near stamp ∅ m.tree
  installed : ∀ stamp, m.stamp = some stamp → Near stamp ∅ m.installed
  running : ∀ stamp r, m.stamp = some stamp → m.running = some r → Told stamp r
  underway : Underway m

section
variable {stamp : Stamp} {remaining : Finset File} {d : Files}

/-- One file is replaced, by what the commit holds or by what is new. -/
theorem Near.put (h : Near stamp remaining d) (f : File) (e : Entry)
    (he : ∀ c, shipped f = true → stamp.commit.content f = some c →
      e.content = c ∨ stamp.built ≤ e.modified) :
    Near stamp (remaining.erase f) (d.put f (some e)) := by
  intro other found c hshipped hcommit hunpacked hfound
  rw [Files.entry_put] at hfound
  split at hfound
  · rename_i hsame
    obtain rfl := Option.some.inj hfound
    rw [hsame] at hshipped hcommit
    exact he c hshipped hcommit
  · rename_i hother
    exact h other found c hshipped hcommit
      (fun hmem => hunpacked (Finset.mem_erase.mpr ⟨hother,hmem⟩)) hfound

/-- Whatever is written now is newer than a deploy that began before. -/
theorem Near.write (h : Near stamp remaining d) (f : File) (content : String) (now : ℕ)
    (hbuilt : stamp.built ≤ now) : Near stamp remaining (d.put f (some ⟨content,now⟩)) := by
  intro other found c hshipped hcommit hunpacked hfound
  rw [Files.entry_put] at hfound
  split at hfound
  · obtain rfl := Option.some.inj hfound
    exact .inr hbuilt
  · exact h other found c hshipped hcommit hunpacked hfound

theorem Near.delete (h : Near stamp remaining d) (f : File) :
    Near stamp remaining (d.put f none) := by
  intro other found c hshipped hcommit hunpacked hfound
  rw [Files.entry_put] at hfound
  split at hfound
  · cases hfound
  · exact h other found c hshipped hcommit hunpacked hfound

theorem Near.only (h : Near stamp remaining d) (p : File → Bool) :
    Near stamp remaining (d.only p) := by
  intro f e c hshipped hcommit hunpacked hfound
  rw [Files.only] at hfound
  dsimp only at hfound
  split at hfound
  · exact h f e c hshipped hcommit hunpacked hfound
  · cases hfound

theorem content_some {f : File} {c : String} (h : d.content f = some c) :
    ∃ e, d.entry f = some e ∧ e.content = c :=
  Option.map_eq_some_iff.mp h

theorem clean_content {ignored : File → Bool} {tree head : Files}
    (h : clean ignored tree head = true) (f : File) (c : String)
    (hcommit : head.content f = some c) : tree.content f = some c := by
  have hall : ∀ f ∈ tree.names ∪ head.names, tree.content f = head.content f ∨
      head.content f = none ∧ ignored f = true := by
    simpa [clean] using h
  obtain ⟨e,he,-⟩ := content_some hcommit
  rcases hall f (Finset.mem_union_right _ (head.covers f (by rw [he]; rfl))) with hsame | ⟨hnone,-⟩
  · exact hsame.trans hcommit
  · rw [hnone] at hcommit
    cases hcommit

theorem shipped_watched {f : File} (h : shipped f = true) :
    f.any (· ∈ changesOnItsOwn) = false ∧ f.getLast? ≠ some stampFilename := by
  have hnone : ∀ part ∈ f, part ∉ excluded := by
    intro part hpart hexcluded
    rw [shipped, List.not_any_eq_all_not, List.all_eq_true] at h
    simpa [hexcluded] using h part hpart
  have hsubset : ∀ part ∈ changesOnItsOwn, part ∈ excluded := by decide
  constructor
  · rw [List.any_eq_false]
    intro part hpart hown
    exact hnone part hpart (hsubset part (by simpa using hown))
  · intro hlast
    exact hnone stampFilename (List.mem_of_getLast? hlast) (by decide)

theorem load_told (m : Site) (hstamp : m.stamp = some stamp)
    (hinstalled : Near stamp ∅ m.installed) : Told stamp m.load := by
  constructor
  · intro f e c hshipped hcommit hfound
    rcases hinstalled f e c hshipped hcommit (by simp) hfound with hsame | hlater
    · exact .inl hsame
    by_cases hnew : stamp.built+second < e.modified
    · right
      left
      obtain ⟨hown,hlast⟩ := shipped_watched hshipped
      have hthere : m.installed.entry f = some e := hfound
      simp only [Site.load, modifiedSinceDeploy, hstamp]
      refine Finset.mem_filter.mpr ⟨m.installed.covers f (by rw [hthere]; rfl),hown,hlast,?_⟩
      rw [hthere, Option.any_some]
      exact decide_eq_true hnew
    · exact .inr (.inr ⟨hlater,Nat.not_lt.mp hnew⟩)
  · intro f hf
    simp only [Site.load, modifiedSinceDeploy, hstamp] at hf
    obtain ⟨-,-,-,hnew⟩ := Finset.mem_filter.mp hf
    obtain ⟨e,he,hnewer⟩ := (Option.any_eq_true _ _).mp hnew
    exact ⟨e,he,of_decide_eq_true hnewer⟩

/-! One move keeps it all. -/

variable {m : Site}

theorem Sound.tree_moved (h : Sound m) (tree : Files)
    (hnear : ∀ stamp, stamp.built ≤ m.now → Near stamp ∅ m.tree → Near stamp ∅ tree)
    (hchecked : ∀ commit, m.phase ≠ .checked commit)
    (hdated : ∀ stamp, m.phase = .dated stamp → ∀ f, (m.tree.entry f).isSome = true →
      (tree.entry f).isSome = true) : Sound { m with tree := tree } where
  begun stamp hstamp := by
    obtain ⟨hbuilt,htree⟩ := h.begun stamp hstamp
    exact ⟨hbuilt,hnear stamp hbuilt htree⟩
  built stamp hstamp := by
    obtain ⟨hbuilt,htree⟩ := h.built stamp hstamp
    exact ⟨hbuilt,hnear stamp hbuilt htree⟩
  installed := h.installed
  running := h.running
  underway := by
    have hunderway := h.underway
    unfold Underway at hunderway ⊢
    dsimp only
    cases hphase : m.phase with
    | checked commit => exact absurd hphase (hchecked commit)
    | dated stamp =>
      rw [hphase] at hunderway
      exact fun f c hcommit => hdated stamp hphase f (hunderway f c hcommit)
    | _ =>
      rw [hphase] at hunderway
      exact hunderway

theorem Sound.committed (h : Sound m) (hnamed : ∀ commit, m.phase ≠ .named commit) :
    Sound { m with head := m.tree } where
  begun := h.begun
  built := h.built
  installed := h.installed
  running := h.running
  underway := by
    have hunderway := h.underway
    unfold Underway at hunderway ⊢
    dsimp only
    cases hphase : m.phase with
    | named commit => exact absurd hphase (hnamed commit)
    | _ =>
      rw [hphase] at hunderway
      exact hunderway

theorem Sound.server_moved (h : Sound m) (installed : Files)
    (hnear : ∀ stamp remaining, stamp.built ≤ m.now → Near stamp remaining m.installed →
      Near stamp remaining installed) : Sound { m with installed := installed } where
  begun := h.begun
  built := h.built
  installed stamp hstamp := hnear stamp ∅ (h.built stamp hstamp).1 (h.installed stamp hstamp)
  running := h.running
  underway := by
    have hunderway := h.underway
    have hbegun := h.begun
    unfold Underway at hunderway ⊢
    dsimp only
    cases hphase : m.phase with
    | extracting stamp archive remaining =>
      rw [hphase] at hunderway hbegun
      obtain ⟨harchive,hold,hwhole,hstopped,hinstalled⟩ := hunderway
      exact ⟨harchive,hold,hwhole,hstopped,hnear stamp remaining (hbegun stamp rfl).1 hinstalled⟩
    | _ =>
      rw [hphase] at hunderway
      exact hunderway

theorem Sound.waited (h : Sound m) (n : ℕ) : Sound { m with now := m.now+n } where
  begun stamp hstamp := (h.begun stamp hstamp).imp_left fun hle => Nat.le_add_right_of_le hle
  built stamp hstamp := (h.built stamp hstamp).imp_left fun hle => Nat.le_add_right_of_le hle
  installed := h.installed
  running := h.running
  underway := h.underway

/-- Between deploys, or within one that does not unpack, anything sound may run. -/
theorem Sound.ran (h : Sound m) (running : Option Running)
    (htold : ∀ stamp r, m.stamp = some stamp → running = some r → Told stamp r)
    (hstopped : ∀ stamp archive remaining, m.phase = .extracting stamp archive remaining →
      running = none) : Sound { m with running := running } where
  begun := h.begun
  built := h.built
  installed := h.installed
  running := htold
  underway := by
    have hunderway := h.underway
    unfold Underway at hunderway ⊢
    dsimp only
    cases hphase : m.phase with
    | extracting stamp archive remaining =>
      rw [hphase] at hunderway
      obtain ⟨harchive,hold,hwhole,-,hinstalled⟩ := hunderway
      exact ⟨harchive,hold,hwhole,hstopped stamp archive remaining hphase,hinstalled⟩
    | _ =>
      rw [hphase] at hunderway
      exact hunderway

theorem Sound.ended (h : Sound m) : Sound { m with phase := .idle } where
  begun := by
    intro _ hstamp
    cases hstamp
  built := h.built
  installed := h.installed
  running := h.running
  underway := trivial

theorem Sound.loads (h : Sound m) (stamp : Stamp) (r : Running) (hstamp : m.stamp = some stamp)
    (hr : some m.load = some r) : Told stamp r := by
  rw [← Option.some.inj hr]
  exact load_told m hstamp (h.installed stamp hstamp)

theorem Sound.begins (h : Sound m) : Sound { m with phase := .named m.head } where
  begun := by
    intro _ hstamp
    cases hstamp
  built := h.built
  installed := h.installed
  running := h.running
  underway := rfl

theorem Sound.checks {ignored : File → Bool} (h : Sound m) (commit : Files)
    (hphase : m.phase = .named commit) (hclean : clean ignored m.tree m.head = true) :
    Sound { m with phase := .checked commit } where
  begun := by
    intro _ hstamp
    cases hstamp
  built := h.built
  installed := h.installed
  running := h.running
  underway := by
    have hnamed := h.underway
    rw [Underway, hphase] at hnamed
    intro f c hcommit
    rw [hnamed] at hcommit
    exact clean_content hclean f c hcommit

theorem Sound.dates (h : Sound m) (commit : Files) (hphase : m.phase = .checked commit) :
    Sound { m with phase := .dated (.dated commit m.now) } := by
  have hsame := h.underway
  rw [Underway, hphase] at hsame
  refine ⟨?_,h.built,h.installed,h.running,?_⟩
  · rintro stamp ⟨⟩
    refine ⟨Nat.div_mul_le_self ..,?_⟩
    intro f e c _ hcommit _ hfound
    have hcontent := hsame f c hcommit
    rw [Files.content, hfound, Option.map_some] at hcontent
    exact .inl (Option.some.inj hcontent)
  · intro f c hcommit
    obtain ⟨e,he,-⟩ := content_some (hsame f c hcommit)
    exact he ▸ rfl

theorem Sound.packs (h : Sound m) (stamp : Stamp) (hphase : m.phase = .dated stamp) :
    Sound { m with phase := .packed stamp (m.tree.only shipped) } where
  begun := by
    rintro stamp ⟨⟩
    exact h.begun stamp (by rw [hphase]; rfl)
  built := h.built
  installed := h.installed
  running := h.running
  underway := by
    have hwhole := h.underway
    rw [Underway, hphase] at hwhole
    have hnear := (h.begun stamp (by rw [hphase]; rfl)).2
    refine ⟨hnear.only shipped,fun old hold => (h.built old hold).2.only shipped,?_⟩
    intro f c hshipped hcommit
    have hpacked : (m.tree.only shipped).entry f = m.tree.entry f := if_pos hshipped
    rw [hpacked]
    exact hwhole f c hcommit

theorem Sound.stops (h : Sound m) (stamp : Stamp) (archive : Files)
    (hphase : m.phase = .packed stamp archive) :
    Sound { m with running := none, phase := .extracting stamp archive archive.names } where
  begun := by
    rintro stamp ⟨⟩
    exact h.begun stamp (by rw [hphase]; rfl)
  built := h.built
  installed := h.installed
  running := by
    intro _ _ _ hr
    cases hr
  underway := by
    have hunderway := h.underway
    rw [Underway, hphase] at hunderway
    obtain ⟨harchive,hold,hwhole⟩ := hunderway
    refine ⟨harchive,hold,hwhole,rfl,?_⟩
    intro f e c hshipped hcommit hunpacked _
    exact absurd (archive.covers f (hwhole f c hshipped hcommit)) hunpacked

theorem Sound.extracts (h : Sound m) (stamp : Stamp) (archive : Files) (remaining : Finset File)
    (hphase : m.phase = .extracting stamp archive remaining) (f : File) :
    Sound { m with
      installed := match archive.entry f with
        | some e => m.installed.put f (some e.unpacked)
        | none => m.installed
      phase := .extracting stamp archive (remaining.erase f) } := by
  have hunderway := h.underway
  rw [Underway, hphase] at hunderway
  obtain ⟨harchive,hold,hwhole,hstopped,hinstalled⟩ := hunderway
  have hbegun : ∀ other, Phase.stamp (.extracting stamp archive (remaining.erase f)) = some other →
      other.built ≤ m.now ∧ Near other ∅ m.tree := by
    rintro other ⟨⟩
    exact h.begun stamp (by rw [hphase]; rfl)
  cases hentry : archive.entry f with
  | some e =>
    have hfresh : ∀ stamp : Stamp, Near stamp ∅ archive → ∀ c, shipped f = true →
        stamp.commit.content f = some c →
          e.unpacked.content = c ∨ stamp.built ≤ e.unpacked.modified :=
      fun stamp hnear c hshipped hcommit =>
        (hnear f e c hshipped hcommit (by simp) hentry).imp_right (le_unpacked stamp.whole e)
    constructor
    · exact hbegun
    · exact h.built
    · intro old hstamp
      simpa using (h.installed old hstamp).put f e.unpacked (hfresh old (hold old hstamp))
    · exact h.running
    · exact ⟨harchive,hold,hwhole,hstopped,hinstalled.put f e.unpacked (hfresh stamp harchive)⟩
  | none =>
    constructor
    · exact hbegun
    · exact h.built
    · exact h.installed
    · exact h.running
    · refine ⟨harchive,hold,hwhole,hstopped,?_⟩
      intro other found c hshipped hcommit hunpacked hfound
      -- a name without a file is none of the commit's
      by_cases hsame : other = f
      · have hthere := hwhole other c hshipped hcommit
        rw [hsame, hentry] at hthere
        cases hthere
      · exact hinstalled other found c hshipped hcommit
          (fun hmem => hunpacked (Finset.mem_erase.mpr ⟨hsame,hmem⟩)) hfound

theorem Sound.stamps (h : Sound m) (stamp : Stamp) (archive : Files)
    (hphase : m.phase = .extracting stamp archive ∅) :
    Sound { m with stamp := some stamp, phase := .stamped } := by
  have hunderway := h.underway
  rw [Underway, hphase] at hunderway
  obtain ⟨-,-,-,hstopped,hinstalled⟩ := hunderway
  constructor
  · intro _ hstamp
    cases hstamp
  · rintro other ⟨⟩
    exact h.begun stamp (by rw [hphase]; rfl)
  · rintro other ⟨⟩
    exact hinstalled
  · intro _ r _ hr
    rw [hstopped] at hr
    cases hr
  · trivial

theorem sound_torn (m : Site) : Sound { m with stamp := none, phase := .idle } where
  begun := by
    intro _ hstamp
    cases hstamp
  built := by
    intro _ hstamp
    cases hstamp
  installed := by
    intro _ hstamp
    cases hstamp
  running := by
    intro _ _ hstamp
    cases hstamp
  underway := trivial

theorem step_sound {ignored : File → Bool} (h : Sound m) (move : Move)
    (hcareful : careful m move = true) : Sound (m.step ignored move) := by
  cases move with
  | waits n => exact h.waited n
  | edits f content =>
    apply h.tree_moved
    · exact fun stamp hbuilt hnear => hnear.write f content m.now hbuilt
    · intro commit hphase
      simp [careful, hphase] at hcareful
    · intro _ _ other hthere
      rw [Files.entry_put]
      split
      · rfl
      · exact hthere
  | deletes f =>
    apply h.tree_moved
    · exact fun stamp _ hnear => hnear.delete f
    · intro commit hphase
      simp [careful, hphase] at hcareful
    · intro stamp hphase
      simp [careful, hphase] at hcareful
  | commits =>
    apply h.committed
    intro commit hphase
    simp [careful, hphase] at hcareful
  | begins =>
    dsimp only [Site.step]
    split
    · exact h.begins
    · exact h
  | checks =>
    dsimp only [Site.step]
    split
    · rename_i commit hphase
      split
      · rename_i hclean
        exact h.checks commit hphase hclean
      · exact h.ended
    · exact h
  | dates =>
    dsimp only [Site.step]
    split
    · rename_i commit hphase
      exact h.dates commit hphase
    · exact h
  | packs =>
    dsimp only [Site.step]
    split
    · rename_i stamp hphase
      exact h.packs stamp hphase
    · exact h
  | stops =>
    dsimp only [Site.step]
    split
    · rename_i stamp archive hphase
      exact h.stops stamp archive hphase
    · exact h
  | extracts f =>
    dsimp only [Site.step]
    split
    · rename_i stamp archive remaining hphase
      split
      · exact h.extracts stamp archive remaining hphase f
      · exact h
    · exact h
  | stamps whole =>
    dsimp only [Site.step]
    split
    · rename_i stamp archive remaining hphase
      split
      · rename_i hdone
        split
        · exact h.stamps stamp archive (hdone ▸ hphase)
        · exact sound_torn m
      · exact h
    · exact h
  | tests f content =>
    dsimp only [Site.step]
    split
    · split
      · exact h.server_moved _ fun stamp remaining hbuilt hnear =>
          hnear.write f content m.now hbuilt
      · exact h
    · exact h
  | starts =>
    dsimp only [Site.step]
    split
    · apply h.ended.ran
      · intro stamp r hstamp hr
        cases hrunning : m.running with
        | some old =>
          rw [hrunning] at hr
          exact h.running stamp r hstamp (hrunning.trans hr)
        | none =>
          rw [hrunning] at hr
          exact h.loads stamp r hstamp hr
      · intro _ _ _ hphase
        cases hphase
    · exact h
  | fails => exact h.ended
  | serverEdits f content =>
    exact h.server_moved _ fun stamp remaining hbuilt hnear => hnear.write f content m.now hbuilt
  | serverDeletes f => exact h.server_moved _ fun stamp remaining _ hnear => hnear.delete f
  | restarts =>
    apply h.ran
    · exact fun stamp r hstamp hr => h.loads stamp r hstamp hr
    · intro stamp archive remaining hphase
      simp [careful, hphase] at hcareful
  | halts =>
    apply h.ran
    · intro _ _ _ hr
      cases hr
    · exact fun _ _ _ _ => rfl

end

def nothing : Files := ⟨fun _ => none,∅,fun _ h => by cases h⟩

def beforeDeploys : Site := ⟨1756640000*second,nothing,nothing,nothing,none,none,.idle⟩

def mainFile : File := ["main.py"]

def noneIgnored : File → Bool := fun _ => false

def hotFix : List Move :=
  [.edits mainFile "first",.commits,.begins,.checks,.dates,.packs,.stops,.extracts mainFile,
    .stamps true,.tests [".pytest_cache","lastfailed"] "{}",.starts,.waits (2*second),
    .serverEdits mainFile "second",.restarts]

end Emma.DeployStamp

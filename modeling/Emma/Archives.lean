import Mathlib.Data.List.ModifyLast
import Emma.DatabasePath
import Emma.DeployStamp

/-!
# What an archive brings back

The script packs the project without what can be made again and without `data`, and
beside it a snapshot of the database. Whoever unpacks it copies the project to its
place, and the snapshot into its `data`. A log that a former database left there is
taken for the snapshot's own, and a `.env` stays where the archive brings none.
-/

set_option autoImplicit false

namespace Emma.Archives
open Emma.Python Emma.DatabasePath
open Emma.DeployStamp (File isCompiled)

/-- The `.env` of an installation, and the regular files of its machine by their
paths without links. -/
structure Machine (γ : Type) where
  place : Installation
  settings : Option EnvFile
  disk : PyPath → Option γ

structure Database (γ : Type) where
  main : γ
  wal : Option γ
  journal : Option γ

/-- `VACUUM INTO`, with what a failure leaves of the copy, and `PRAGMA integrity_check`. -/
structure Sqlite3 (γ : Type) where
  vacuumInto : Database γ → Except (Option γ) γ
  integrity : γ → Bool

inductive DbStatus where
  | nothing
  | notInstalled
  | consistent
  | discarded
  | failed
  deriving DecidableEq

structure Archive (γ : Type) where
  members : List (File × γ)
  settings : Option EnvFile
  status : DbStatus
  database : Option γ

def DbStatus.text : DbStatus → String
  | .nothing => "no database file (nothing to snapshot)"
  | .notInstalled => "NOT INCLUDED: sqlite3 is not installed (apt install sqlite3)"
  | .consistent => "emma.db (consistent snapshot, integrity verified)"
  | .discarded => "NOT INCLUDED: the snapshot failed its integrity check"
  | .failed => "NOT INCLUDED: VACUUM INTO failed (is the database corrupt?)"

def below (d : Directory) (f : File) : PyPath := ⟨true,d.parts ++ f⟩

def projectName (d : Directory) : String := d.parts.getLast?.getD "/"

def passes (names : List String) (path : List String) : Bool :=
  path.tails.any fun rest => names.isPrefixOf rest

/-- What `tar` leaves out, where the name of the project has no wildcards. -/
def excluded (name : String) (f : File) : Bool :=
  let path := name::f
  [".venv","venv","data",".cache"].any (fun part => passes [name,part] path) ||
    path.any (fun part =>
      part ∈ ["__pycache__",".pytest_cache",".ruff_cache"] || isCompiled part) ||
    path.tails.any fun rest => [name,".git","objects","pack"].isPrefixOf rest &&
      (rest.drop 4).head?.any fun part => startsWith part "tmp_"

def dataFile : File := ["data","emma.db"]

def beside (ending : String) (path : PyPath) : PyPath :=
  ⟨path.absolute,path.parts.modifyLast (· ++ ending)⟩

def walEnding : String := "-wal"

def journalEnding : String := "-journal"

def logFile (ending : String) : File := ["data","emma.db" ++ ending]

section
variable {γ : Type}

def Machine.file (m : Machine γ) (path : PyPath) : Option γ := m.disk (m.place.canonical path)

/-- SQLite looks for the logs where the file is, not where a link to it is. -/
def Machine.log (m : Machine γ) (ending : String) (path : PyPath) : Option γ :=
  m.disk (beside ending (m.place.canonical path))

def Machine.database (m : Machine γ) (path : PyPath) : Option (Database γ) :=
  (m.file path).map fun db => ⟨db,m.log walEnding path,m.log journalEnding path⟩

/-- `DB_STATUS`, and the file that is in the staging directory in the end. -/
def snapshot (tool : Option (Sqlite3 γ)) (live : Option (Database γ)) : DbStatus × Option γ :=
  match live, tool with
  | none, _ => (.nothing,none)
  | some _, none => (.notInstalled,none)
  | some db, some sqlite3 =>
    match sqlite3.vacuumInto db with
    | .ok copy => if sqlite3.integrity copy then (.consistent,some copy) else (.discarded,none)
    -- nobody removes what there is of it
    | .error left => (.failed,left)

/-- `backup.sh`, with the files that `tar` finds in the project. -/
def backup (tool : Option (Sqlite3 γ)) (walk : List File) (m : Machine γ) : Archive γ :=
  let taken := snapshot tool (m.database (memoryDb m.place (m.settings.map EnvFile.lines)))
  { members := (walk.filter fun f => !excluded (projectName m.place.root) f).filterMap fun f =>
      (m.file (below m.place.root f)).map (f,·)
    settings := m.settings
    status := taken.1
    database := taken.2 }

/-- The steps under `Restore` in the manifest. -/
def restore (a : Archive γ) (m : Machine γ) : Machine γ :=
  let place := fun f => m.place.canonical (below m.place.root f)
  let copied := a.members.foldl
    (fun disk member => Function.update disk (place member.1) (some member.2)) m.disk
  { m with
    settings := a.settings.or m.settings
    disk := match a.database with
      | none => copied
      | some db => Function.update copied (place dataFile) (some db) }

def opened (environ : Option String) (m : Machine γ) : Option (Database γ) :=
  (memoryDbPath m.place environ (valueIn m.settings)).toOption.bind m.database

/-- A place for an archive with this `.env`: nothing is left beside the place of the
snapshot, no other name of the project leads there, and there is no `.env` that
would stay. -/
structure Ready (file : Option EnvFile) (m : Machine γ) : Prop where
  settings : file = none → m.settings = none
  swept : ∀ ending ∈ [walEnding,journalEnding], m.log ending (below m.place.root dataFile) = none
  apart : ∀ ending ∈ [walEnding,journalEnding], ∀ f, m.place.canonical (below m.place.root f) =
    beside ending (m.place.canonical (below m.place.root dataFile)) → f = logFile ending

/-- Wherever an installation was archived with a snapshot that was verified, and
wherever the archive is restored to such a place, the service opens the snapshot
and nothing else. -/
def HistoryReturns (γ : Type) (environ : Option String) (file : Option EnvFile) : Prop :=
  ∀ (sqlite3 : Sqlite3 γ) (walk : List File) (m m' : Machine γ) (db : Database γ) (copy : γ),
    m.settings = file → opened environ m = some db → sqlite3.vacuumInto db = .ok copy →
    sqlite3.integrity copy = true → Ready file m' →
    opened environ (restore (backup (some sqlite3) walk m) m') = some ⟨copy,none,none⟩

def inData : PyPath := ⟨false,dataFile⟩

structure InPlace (environ value : Option String) : Prop where
  service : PyPath.ofText (said environ value) = inData
  script : PyPath.ofText (held value) = inData

theorem under_inData (d : Directory) : under d inData = below d dataFile := rfl

theorem beside_below (ending : String) (d : Directory) :
    beside ending (below d dataFile) = below d (logFile ending) := by
  rw [beside, below, List.modifyLast_append_of_right_ne_nil _ _ _ (by simp [dataFile])]
  rfl

theorem endings : walEnding ∈ [walEnding,journalEnding] ∧
    journalEnding ∈ [walEnding,journalEnding] := by
  simp

theorem opened_under (environ : Option String) (m : Machine γ)
    (hhome : (PyPath.ofText (said environ (valueIn m.settings))).homeRelative = false) :
    opened environ m =
      m.database (under m.place.root (.ofText (said environ (valueIn m.settings)))) := by
  obtain ⟨path,hpath,hsame⟩ := memoryDbPath_under m.place environ (valueIn m.settings) hhome
  rw [opened, hpath]
  change m.database path = _
  rw [Machine.database, Machine.database, Machine.file, Machine.log, Machine.log, hsame]
  rfl

theorem restore_settings (a : Archive γ) (m : Machine γ)
    (h : a.settings = none → m.settings = none) : (restore a m).settings = a.settings := by
  cases hsettings : a.settings with
  | none => rw [restore, hsettings, Option.none_or, h hsettings]
  | some file => rw [restore, hsettings, Option.some_or]

theorem opened_restored (environ : Option String) (a : Archive γ) (m : Machine γ)
    (hready : a.settings = none → m.settings = none)
    (hhome : (PyPath.ofText (said environ (valueIn a.settings))).homeRelative = false) :
    opened environ (restore a m) = (restore a m).database
      (under m.place.root (.ofText (said environ (valueIn a.settings)))) := by
  have hsettings := restore_settings a m hready
  rw [opened_under environ (restore a m) (by rw [hsettings]; exact hhome), hsettings]
  rfl

theorem memoryDb_under (m : Machine γ) : memoryDb m.place (m.settings.map EnvFile.lines) =
    under m.place.root (.ofText (held (valueIn m.settings))) :=
  anchored_under m.place m.settings

theorem backup_database (sqlite3 : Sqlite3 γ) (walk : List File) (m : Machine γ) :
    (backup (some sqlite3) walk m).database = (snapshot (some sqlite3)
      (m.database (under m.place.root (.ofText (held (valueIn m.settings)))))).2 := by
  rw [backup, memoryDb_under]

theorem backup_settings (tool : Option (Sqlite3 γ)) (walk : List File) (m : Machine γ) :
    (backup tool walk m).settings = m.settings := rfl

theorem snapshot_verified (sqlite3 : Sqlite3 γ) (db : Database γ) (copy : γ)
    (hcopy : sqlite3.vacuumInto db = .ok copy) (hintegrity : sqlite3.integrity copy = true) :
    snapshot (some sqlite3) (some db) = (.consistent,some copy) := by
  rw [snapshot, hcopy]
  exact if_pos hintegrity

/-- A database is in the archive where it was verified, and the manifest says so, or
where `VACUUM INTO` failed and left it. -/
theorem snapshot_cases (tool : Option (Sqlite3 γ)) (live : Option (Database γ)) (copy : γ)
    (h : (snapshot tool live).2 = some copy) :
    ∃ sqlite3 db, tool = some sqlite3 ∧ live = some db ∧
      ((snapshot tool live).1 = .consistent ∧ sqlite3.vacuumInto db = .ok copy ∧
          sqlite3.integrity copy = true ∨
        (snapshot tool live).1 = .failed ∧ sqlite3.vacuumInto db = .error (some copy)) := by
  rcases live with _ | db
  · cases h
  · rcases tool with _ | sqlite3
    · cases h
    · refine ⟨sqlite3,db,rfl,rfl,?_⟩
      rw [snapshot] at h ⊢
      cases hvacuum : sqlite3.vacuumInto db with
      | error left =>
        rw [hvacuum] at h
        exact .inr ⟨rfl,congrArg Except.error h⟩
      | ok found =>
        rw [hvacuum] at h
        dsimp only at h ⊢
        split at h
        · rename_i hintegrity
          obtain rfl := Option.some.inj h
          rw [if_pos hintegrity]
          exact .inl ⟨rfl,rfl,hintegrity⟩
        · cases h

theorem restored_file (a : Archive γ) (m : Machine γ) (db : γ) (h : a.database = some db) :
    (restore a m).file (below m.place.root dataFile) = some db := by
  rw [restore, h]
  exact Function.update_self _ _ _

/-- Where writes to one place agree, what is there in the end is what they wrote. -/
theorem writes_at {α κ β : Type} [DecidableEq κ] (key : α → κ) (content : α → β) (ws : List α)
    (s : κ → β) (k : κ) (v : β) (hv : ∀ w ∈ ws, key w = k → content w = v) :
    ws.foldl (fun s w => Function.update s (key w) (content w)) s k =
      if k ∈ ws.map key then v else s k := by
  induction ws generalizing s with
  | nil => rfl
  | cons w ws ih =>
    rw [List.foldl_cons, ih _ fun w' hw' => hv w' (List.mem_cons_of_mem _ hw'), List.map_cons]
    by_cases hlater : k ∈ ws.map key
    · rw [if_pos hlater, if_pos (List.mem_cons_of_mem _ hlater)]
    · rw [if_neg hlater]
      by_cases hnow : key w = k
      · rw [if_pos (by simp [hnow]), hnow, Function.update_self, hv w (by simp) hnow]
      · rw [Function.update_of_ne (Ne.symm hnow), if_neg]
        rw [List.mem_cons, not_or]
        exact ⟨Ne.symm hnow,hlater⟩

theorem excluded_data (name : String) (rest : List String) :
    excluded name ("data"::rest) = true := by
  have hpasses : passes [name,"data"] (name::"data"::rest) = true := by
    rw [passes, List.any_eq_true]
    exact ⟨_,(List.mem_tails _ _).mpr (List.suffix_refl _),by simp⟩
  rw [excluded, Bool.or_eq_true, Bool.or_eq_true]
  exact .inl (.inl (List.any_eq_true.mpr ⟨"data",by simp,hpasses⟩))

theorem member_not_data (tool : Option (Sqlite3 γ)) (walk : List File) (m : Machine γ)
    (member : File × γ) (h : member ∈ (backup tool walk m).members) (rest : List String) :
    member.1 ≠ "data"::rest := by
  intro hdata
  obtain ⟨f,hf,hmember⟩ := List.mem_filterMap.mp h
  obtain ⟨c,-,rfl⟩ := Option.map_eq_some_iff.mp hmember
  have hexcluded := (List.mem_filter.mp hf).2
  change f = "data"::rest at hdata
  rw [hdata, excluded_data] at hexcluded
  cases hexcluded

theorem restored_log (a : Archive γ) (m : Machine γ) (hready : Ready a.settings m)
    (hmembers : ∀ member ∈ a.members, ∀ rest, member.1 ≠ "data"::rest) (ending : String)
    (hending : ending ∈ [walEnding,journalEnding]) :
    (restore a m).log ending (below m.place.root dataFile) = none := by
  have hcopied : a.members.foldl (fun disk member => Function.update disk
      (m.place.canonical (below m.place.root member.1)) (some member.2)) m.disk
        (beside ending (m.place.canonical (below m.place.root dataFile))) = none := by
    rw [writes_at _ (fun member => some member.2) a.members m.disk _ none]
    · rw [ite_eq_left_iff]
      exact fun _ => hready.swept ending hending
    · intro member hmember hplace
      exact absurd (hready.apart ending hending member.1 hplace) (hmembers member hmember _)
  rw [restore, Machine.log]
  cases a.database with
  | none => exact hcopied
  | some db =>
    dsimp only
    rw [Function.update_of_ne]
    · exact hcopied
    · intro hplace
      have hfile := hready.apart ending hending dataFile hplace.symm
      obtain rfl | rfl : ending = walEnding ∨ ending = journalEnding := by
        simpa using hending
      all_goals revert hfile; decide

theorem restored_database (a : Archive γ) (m : Machine γ) (hready : Ready a.settings m)
    (hmembers : ∀ member ∈ a.members, ∀ rest, member.1 ≠ "data"::rest) (db : γ)
    (h : a.database = some db) :
    (restore a m).database (below m.place.root dataFile) = some ⟨db,none,none⟩ := by
  rw [Machine.database, restored_file a m db h,
    restored_log a m hready hmembers walEnding endings.1,
    restored_log a m hready hmembers journalEnding endings.2]
  rfl

theorem InPlace.returns {environ : Option String} {file : Option EnvFile}
    (h : InPlace environ (valueIn file)) : HistoryReturns γ environ file := by
  rintro sqlite3 walk m m' db copy rfl hopened hcopy hintegrity hready
  have hhome : (PyPath.ofText (said environ (valueIn m.settings))).homeRelative = false := by
    rw [h.service]
    decide
  have hlive : m.database (under m.place.root (.ofText (held (valueIn m.settings)))) = some db := by
    rw [opened_under environ m hhome, h.service] at hopened
    rw [h.script]
    exact hopened
  have hdatabase : (backup (some sqlite3) walk m).database = some copy := by
    rw [backup_database, hlive, snapshot_verified sqlite3 db copy hcopy hintegrity]
  have hrestored := opened_restored environ (backup (some sqlite3) walk m) m' hready.settings hhome
  rw [hrestored, backup_settings, h.service, under_inData]
  exact restored_database _ m' hready (member_not_data _ walk m) copy hdatabase

/-! Where a text is another path, there are machines for which it does not return. -/

def bare (d : Directory) (file : Option EnvFile) (disk : PyPath → Option γ) : Machine γ :=
  ⟨plain d,file,disk⟩

def copier : Sqlite3 γ := ⟨fun db => .ok db.main,fun _ => true⟩

theorem bare_root (d : Directory) (file : Option EnvFile) (disk : PyPath → Option γ) :
    (bare d file disk).place.root = d := rfl

theorem bare_settings (d : Directory) (file : Option EnvFile) (disk : PyPath → Option γ) :
    (bare d file disk).settings = file := rfl

theorem bare_database (d : Directory) (file : Option EnvFile) (disk : PyPath → Option γ)
    (path : PyPath) : (bare d file disk).database path = (disk path).map fun db =>
      ⟨db,disk (beside walEnding path),disk (beside journalEnding path)⟩ := rfl

theorem below_inj (d : Directory) (f g : File) (h : below d f = below d g) : f = g :=
  List.append_cancel_left (congrArg PyPath.parts h)

theorem bare_ready (d : Directory) (file : Option EnvFile) :
    Ready file (bare d file fun _ => (none : Option γ)) where
  settings h := h
  swept _ _ := rfl
  apart ending _ f h := below_inj d f (logFile ending) (h.trans (beside_below ending d))

theorem opened_bare (environ : Option String) (d : Directory) (file : Option EnvFile)
    (disk : PyPath → Option γ) (db : γ)
    (hhome : (PyPath.ofText (said environ (valueIn file))).homeRelative = false)
    (hdisk : disk (under d (.ofText (said environ (valueIn file)))) = some db) :
    ∃ wal journal, opened environ (bare d file disk) = some ⟨db,wal,journal⟩ := by
  have hfound := opened_under environ (bare d file disk) hhome
  rw [bare_database, bare_root, bare_settings, hdisk] at hfound
  exact ⟨_,_,hfound⟩

theorem restored_bare (d : Directory) (file : Option EnvFile) (a : Archive γ)
    (hmembers : a.members = []) (path : PyPath) (db : Database γ)
    (h : (restore a (bare d file fun _ => none)).database path = some db) :
    path = below d dataFile ∧ a.database = some db.main := by
  obtain ⟨content,hfile,rfl⟩ := Option.map_eq_some_iff.mp h
  rw [restore, Machine.file, hmembers] at hfile
  cases hdatabase : a.database with
  | none =>
    rw [hdatabase] at hfile
    cases hfile
  | some copy =>
    rw [hdatabase] at hfile
    dsimp only [List.foldl_nil, bare, plain, id] at hfile
    rw [Function.update_apply] at hfile
    split at hfile
    · rename_i hpath
      exact ⟨hpath,hfile⟩
    · cases hfile

theorem opened_homeless (environ : Option String) (m : Machine γ) (d : Directory)
    (hplace : m.place = plain d)
    (hhome : (PyPath.ofText (said environ (valueIn m.settings))).homeRelative = true) :
    opened environ m = none := by
  obtain ⟨e,he⟩ := memoryDbPath_homeless d environ (valueIn m.settings) hhome
  rw [opened, hplace, he]
  rfl

def homely (file : Option EnvFile) (db : γ) : Machine γ where
  place := { plain (deep 0) with home := fun _ => some ⟨true,[]⟩ }
  settings := file
  disk _ := some db

theorem opened_homely (environ : Option String) (file : Option EnvFile) (db : γ)
    (hhome : (PyPath.ofText (said environ (valueIn file))).homeRelative = true) :
    opened environ (homely file db) = some ⟨db,some db,some db⟩ := by
  have hpath : ∃ path, memoryDbPath (homely file db).place environ
      (valueIn (homely file db).settings) = .ok path := by
    change ∃ path, memoryDbPath _ environ (valueIn file) = .ok path
    rw [memoryDbPath, optional_said, DatabasePath.resolve, expanduser, if_pos hhome]
    exact ⟨_,rfl⟩
  obtain ⟨path,hpath⟩ := hpath
  rw [opened, hpath]
  rfl

/-- A text that is somebody's home does not return where that home is unknown. -/
theorem returns_homeless {environ : Option String} {file : Option EnvFile} (db : γ)
    (h : HistoryReturns γ environ file) :
    (PyPath.ofText (said environ (valueIn file))).homeRelative = false := by
  by_contra hhome
  have hhome' : (PyPath.ofText (said environ (valueIn file))).homeRelative = true := by
    simpa using hhome
  have hopened := opened_homely environ file db hhome'
  have hrestored := h copier [] (homely file db) (bare (deep 0) file fun _ => none) _ db rfl
    hopened rfl rfl (bare_ready (deep 0) file)
  generalize harchive : backup (some copier) [] (homely file db) = a at hrestored
  obtain rfl : a.settings = file := by
    rw [← harchive, backup_settings]
    rfl
  have hsettings := restore_settings a (bare (deep 0) a.settings fun _ => none) id
  have hlost := opened_homeless environ (restore a (bare (deep 0) a.settings fun _ => none))
    (deep 0) rfl (by rw [hsettings]; exact hhome')
  rw [hlost] at hrestored
  cases hrestored

/-- What follows for machines without links, from one directory to another. -/
theorem returns_bare {environ : Option String} {file : Option EnvFile} (db : γ)
    (h : HistoryReturns γ environ file) (d d' : Directory) (disk : PyPath → Option γ)
    (hdisk : disk (under d (.ofText (said environ (valueIn file)))) = some db) :
    under d' (.ofText (said environ (valueIn file))) = below d' dataFile ∧
      (backup (some copier) [] (bare d file disk)).database = some db := by
  have hhome := returns_homeless db h
  obtain ⟨wal,journal,hopened⟩ := opened_bare environ d file disk db hhome hdisk
  have hrestored := h copier [] (bare d file disk) (bare d' file fun _ => none) _ db rfl
    hopened rfl rfl (bare_ready d' file)
  have hmembers : (backup (some copier) [] (bare d file disk)).members = [] := rfl
  have hsettings := backup_settings (some copier) [] (bare d file disk)
  generalize backup (some copier) [] (bare d file disk) = a at *
  obtain rfl : a.settings = file := hsettings
  rw [opened_restored environ a (bare d' a.settings fun _ => none) id hhome] at hrestored
  exact restored_bare d' a.settings a hmembers _ _ hrestored

theorem returns_inPlace {environ : Option String} {file : Option EnvFile} (db : γ)
    (h : HistoryReturns γ environ file) : InPlace environ (valueIn file) := by
  have hservice : ∀ d, under d (.ofText (said environ (valueIn file))) = below d dataFile :=
    fun d => (returns_bare db h d d (fun _ => some db) rfl).1
  constructor
  · exact under_inj _ _ hservice
  · apply under_inj
    intro d
    let disk : PyPath → Option γ := Function.update (fun _ => none) (below d dataFile) (some db)
    have hdisk : disk (under d (.ofText (said environ (valueIn file)))) = some db := by
      rw [hservice]
      exact Function.update_self _ _ _
    have hdatabase := (returns_bare db h d d disk hdisk).2
    by_contra hother
    have hnothing : disk (under d (.ofText (held (valueIn file)))) = none :=
      Function.update_of_ne hother _ _
    rw [backup_database, bare_database, bare_root, bare_settings, hnothing] at hdatabase
    cases hdatabase

example : InPlace none none := ⟨rfl,rfl⟩

/-! The files of the project. -/

def packed (walk : List File) (m : Machine γ) (f : File) : Option γ :=
  if f ∈ walk ∧ excluded (projectName m.place.root) f = false then m.file (below m.place.root f)
  else none

theorem mem_members (tool : Option (Sqlite3 γ)) (walk : List File) (m : Machine γ) (f : File)
    (content : γ) : (f,content) ∈ (backup tool walk m).members ↔
      packed walk m f = some content := by
  rw [backup, packed]
  simp only [List.mem_filterMap, List.mem_filter, Bool.not_eq_true', Option.map_eq_some_iff,
    Prod.mk.injEq]
  constructor
  · rintro ⟨g,⟨hwalk,hexcluded⟩,c,hfile,rfl,rfl⟩
    rw [if_pos ⟨hwalk,hexcluded⟩]
    exact hfile
  · intro hpacked
    split at hpacked
    · rename_i hwalk
      exact ⟨f,hwalk,content,hpacked,rfl,rfl⟩
    · cases hpacked

end

end Emma.Archives

import Emma.QueueScript

/-!
# Where the database is

The service takes the path from its environment, into which the file of
settings was loaded, and resolves it. The scripts read the file by themselves.
A path is what is left of its text without empty parts and single dots; where
the project and the homes lie, and what a link stands for, is up to the
installation. The blanks of a script are those of the C locale.
-/

set_option autoImplicit false

namespace Emma.DatabasePath
open Emma.Python Emma.QueueScript

/-- The parts of a path, as `pathlib` keeps them. -/
def components (text : String) : List String :=
  ((Delimited.words (· = '/') text.toList).map String.ofList).filter (· ≠ ".")

@[ext] structure PyPath where
  absolute : Bool
  parts : List String
  deriving DecidableEq

/-- `Path(raw)`. -/
def PyPath.ofText (raw : String) : PyPath := ⟨startsWith raw "/",components raw⟩

/-- A directory below the root, by names that are parts of a path. -/
structure Directory where
  parts : List String
  proper : ∀ part ∈ parts, part ≠ "" ∧ part ≠ "." ∧ '/' ∉ part.toList

def Directory.text (d : Directory) : String := "/" ++ "/".intercalate d.parts

/-- The project directory, what a leading `~` or `~name` stands for, and the
path without links of a place. -/
structure Installation where
  root : Directory
  home : String → Option PyPath
  canonical : PyPath → PyPath
  canonical_canonical : ∀ path, canonical (canonical path) = canonical path

def PyPath.homeRelative (path : PyPath) : Bool :=
  !path.absolute && path.parts.head?.any fun first => startsWith first "~"

def expanduser (home : String → Option PyPath) (path : PyPath) : Except PyError PyPath :=
  if path.homeRelative then
    match home (path.parts.headD "") with
    | none => .error (.runtimeError "Could not determine home directory.")
    | some found => .ok ⟨found.absolute,found.parts ++ path.parts.tail⟩
  else .ok path

/-- `_resolve`. -/
def resolve (place : Installation) (raw : String) : Except PyError PyPath := do
  let path ← expanduser place.home (.ofText raw)
  return if path.absolute then path
    else place.canonical ⟨true,place.root.parts ++ path.parts⟩

def memoryDbPathKey : String := "MEMORY_DB_PATH"

def defaultMemoryDbPath : String := "data/emma.db"

/-- `_optional`, on what the environment holds under the name. -/
def optional (value : Option String) (default : String) : String :=
  let text := strip (value.getD "")
  if text = "" then default else text

/-- `load_dotenv(override=False)`: a variable that is there wins, a plain value
of the file is taken without the blanks around it. -/
def loadDotenv (environ value : Option String) : Option String := environ.or (value.map strip)

/-- The path of `load_config`. -/
def memoryDbPath (place : Installation) (environ value : Option String) :
    Except PyError PyPath :=
  resolve place (optional (loadDotenv environ value) defaultMemoryDbPath)

/-- What `sed` prints for a line, if it prints anything. -/
def settingOf (key line : String) : Option (List Char) :=
  let text := line.toList.dropWhile isBlank
  if key.toList.isPrefixOf text then
    match (text.drop key.toList.length).dropWhile isBlank with
    | '='::rest => some (rest.dropWhile isBlank)
    | _ => none
  else none

def unquoted (mark : Char) (text : List Char) : List Char :=
  let text := if text.getLast? = some mark then text.dropLast else text
  if text.head? = some mark then text.tail else text

def settled (text : List Char) (default : String) : String :=
  let value := unquoted '\'' (unquoted '"' (text.rdropWhile isBlank))
  if value = [] then default else String.ofList value

def readEnv (lines : Option (List String)) (key default : String) : String :=
  settled (((lines.getD []).filterMap (settingOf key)).getLast?.getD []) default

def anchored (place : Installation) (lines : Option (List String)) : PyPath :=
  let db := readEnv lines memoryDbPathKey defaultMemoryDbPath
  .ofText (if startsWith db "/" then db else place.root.text ++ "/" ++ db)

/-- `MEMORY_DB` of `backup.sh`. -/
def memoryDb (place : Installation) (lines : Option (List String)) : PyPath := anchored place lines

/-- `DB` of `task-queue.sh`. -/
def db (place : Installation) (lines : Option (List String)) : PyPath := anchored place lines

/-- A text on which `python-dotenv` does nothing but take the blanks around it off: it is
one line, begins with no quotation mark, and has no comment and no variable. -/
structure PlainValue (text : List Char) : Prop where
  line : '\n' ∉ text ∧ '\r' ∉ text
  unquoted : ∀ c ∈ (text.dropWhile isSpace).head?, c ≠ '\'' ∧ c ≠ '"'
  uncommented : ∀ c, isSpace c = true → ¬[c,'#'] <:+: text
  fixed : ¬['$','{'] <:+: text

/-- A file of settings with one plain line for the database, or with none. The other lines
say nothing of it to `sed`, and are taken to say nothing of it to `python-dotenv`. -/
structure EnvFile where
  before : List String
  value : Option String
  after : List String
  silent : ∀ line ∈ before ++ after, settingOf memoryDbPathKey line = none
  plain : ∀ text ∈ value, PlainValue text.toList

def EnvFile.lines (file : EnvFile) : List String :=
  file.before ++ (file.value.map fun value => memoryDbPathKey ++ "=" ++ value).toList ++ file.after

def valueIn (file : Option EnvFile) : Option String := file.bind EnvFile.value

/-- Wherever the project and the homes lie, the three agree on the place. -/
def SameDatabase (environ : Option String) (file : Option EnvFile) : Prop :=
  ∀ place : Installation, ∃ path, memoryDbPath place environ (valueIn file) = .ok path ∧
    place.canonical path = place.canonical (memoryDb place (file.map EnvFile.lines)) ∧
    place.canonical path = place.canonical (db place (file.map EnvFile.lines))

def said (environ value : Option String) : String :=
  let text := strip (environ.getD (value.getD ""))
  if text = "" then defaultMemoryDbPath else text

def held (value : Option String) : String :=
  settled ((value.getD "").toList.dropWhile isBlank) defaultMemoryDbPath

def OneText (environ value : Option String) : Prop :=
  PyPath.ofText (said environ value) = .ofText (held value) ∧
    (PyPath.ofText (said environ value)).homeRelative = false

theorem optional_said (environ value : Option String) :
    optional (loadDotenv environ value) defaultMemoryDbPath = said environ value := by
  have hstrip : strip ((loadDotenv environ value).getD "") =
      strip (environ.getD (value.getD "")) := by
    cases environ with
    | some text => rw [loadDotenv, Option.some_or, Option.getD_some, Option.getD_some]
    | none =>
      rw [loadDotenv, Option.none_or, Option.getD_none]
      cases value with
      | none => rw [Option.map_none]
      | some text => rw [Option.map_some, Option.getD_some, Option.getD_some, strip_strip]
  rw [optional, said, hstrip]

theorem settingOf_line (key value : String) (c : Char) (cs : List Char)
    (hkey : key.toList = c::cs) (hblank : isBlank c = false) :
    settingOf key (key ++ "=" ++ value) = some (value.toList.dropWhile isBlank) := by
  have hline : (key ++ "=" ++ value).toList = key.toList ++ '='::value.toList := by
    simp [String.toList_append]
  have hstart : (key.toList ++ '='::value.toList).dropWhile isBlank =
      key.toList ++ '='::value.toList := by
    rw [hkey, List.cons_append, List.dropWhile_cons, hblank]
    rfl
  have hequals : isBlank '=' = false := by decide
  rw [settingOf, hline, hstart, if_pos (by simp), List.drop_left, List.dropWhile_cons, hequals]
  rfl

theorem readEnv_lines (file : Option EnvFile) :
    readEnv (file.map EnvFile.lines) memoryDbPathKey defaultMemoryDbPath =
      held (valueIn file) := by
  cases file with
  | none => rfl
  | some file =>
    have hsilent : ∀ lines : List String, (∀ line ∈ lines, line ∈ file.before ++ file.after) →
        lines.filterMap (settingOf memoryDbPathKey) = [] := by
      intro lines hlines
      rw [List.filterMap_eq_nil_iff]
      exact fun line hline => file.silent line (hlines line hline)
    have hbefore := hsilent file.before fun line hline => List.mem_append_left _ hline
    have hafter := hsilent file.after fun line hline => List.mem_append_right _ hline
    rw [readEnv, held, Option.map_some, Option.getD_some, EnvFile.lines, List.filterMap_append,
      List.filterMap_append, hbefore, hafter, List.nil_append, List.append_nil]
    dsimp only [valueIn, Option.bind]
    cases file.value with
    | none => rfl
    | some value =>
      have hline := settingOf_line memoryDbPathKey value 'M' _ rfl (by decide)
      simp only [Option.map_some, Option.toList_some, List.filterMap_cons, List.filterMap_nil, hline]
      rfl

theorem words_directory (d : Directory) :
    Delimited.words (· = '/') ("/".intercalate d.parts).toList = d.parts.map String.toList := by
  rw [String.toList_intercalate]
  apply Delimited.words_join _ '/' (by simp)
  intro word hword
  obtain ⟨part,hpart,rfl⟩ := List.mem_map.mp hword
  obtain ⟨hsome,-,hslash⟩ := d.proper part hpart
  constructor
  · simpa using hsome
  · intro c hc
    have hother : c ≠ '/' := by
      rintro rfl
      exact hslash hc
    simpa using hother

theorem components_below (d : Directory) (text : String) :
    components (d.text ++ "/" ++ text) = d.parts ++ components text := by
  have hwords : Delimited.words (· = '/') (d.text ++ "/" ++ text).toList =
      d.parts.map String.toList ++ Delimited.words (· = '/') text.toList := by
    have htext : (d.text ++ "/" ++ text).toList =
        ([] ++ '/'::("/".intercalate d.parts).toList) ++ '/'::text.toList := by
      simp [Directory.text, String.toList_append]
    rw [htext, Delimited.words_append_break _ _ _ _ (by simp),
      Delimited.words_append_break _ _ _ _ (by simp), words_directory]
    rfl
  have hproper : d.parts.filter (· ≠ ".") = d.parts := by
    rw [List.filter_eq_self]
    intro part hpart
    simpa using (d.proper part hpart).2.1
  have hback : (d.parts.map String.toList).map String.ofList = d.parts := by simp
  rw [components, hwords, List.map_append, List.filter_append, hback, hproper]
  rfl

def under (d : Directory) (path : PyPath) : PyPath :=
  if path.absolute then path else ⟨true,d.parts ++ path.parts⟩

theorem anchored_under (place : Installation) (file : Option EnvFile) :
    anchored place (file.map EnvFile.lines) = under place.root (.ofText (held (valueIn file))) := by
  rw [anchored, readEnv_lines]
  generalize held (valueIn file) = text
  have hunder : under place.root (.ofText text) = if startsWith text "/" = true then .ofText text
      else ⟨true,place.root.parts ++ components text⟩ := rfl
  rw [hunder]
  by_cases habsolute : startsWith text "/" = true
  · rw [if_pos habsolute, if_pos habsolute]
  · rw [if_neg habsolute, if_neg habsolute, PyPath.ofText, components_below]
    have hroot : startsWith (place.root.text ++ "/" ++ text) "/" = true := by
      rw [Directory.text, String.append_assoc, String.append_assoc]
      exact startsWith_append "/" _
    rw [hroot]

/-- A path that is nobody's home is canonical below the project, or as given. -/
theorem memoryDbPath_under (place : Installation) (environ value : Option String)
    (hhome : (PyPath.ofText (said environ value)).homeRelative = false) :
    ∃ path, memoryDbPath place environ value = .ok path ∧
      place.canonical path =
        place.canonical (under place.root (.ofText (said environ value))) := by
  rw [memoryDbPath, optional_said, resolve, expanduser, hhome]
  refine ⟨_,rfl,?_⟩
  rw [under]
  split
  · rfl
  · exact place.canonical_canonical _

def deep (n : ℕ) : Directory where
  parts := List.replicate n "emma"
  proper := by
    intro part hpart
    obtain rfl := List.eq_of_mem_replicate hpart
    decide

theorem under_ne (a b : PyPath) (ha : a.absolute = true) (hb : b.absolute = false) :
    under (deep (a.parts.length+1)) a ≠ under (deep (a.parts.length+1)) b := by
  intro h
  rw [under, if_pos ha, under, if_neg (by simp [hb])] at h
  have hlength := congrArg (fun path : PyPath => path.parts.length) h
  simp only [deep, List.length_append, List.length_replicate] at hlength
  omega

theorem under_inj (a b : PyPath) (h : ∀ d, under d a = under d b) : a = b := by
  cases ha : a.absolute with
  | true =>
    cases hb : b.absolute with
    | true =>
      have hsame := h (deep 0)
      rwa [under, if_pos ha, under, if_pos hb] at hsame
    | false => exact absurd (h _) (under_ne a b ha hb)
  | false =>
    cases hb : b.absolute with
    | true => exact absurd (h _).symm (under_ne b a hb ha)
    | false =>
      have hsame := h (deep 0)
      rw [under, if_neg (by simp [ha]), under, if_neg (by simp [hb])] at hsame
      ext1
      · rw [ha, hb]
      · exact List.append_cancel_left (congrArg PyPath.parts hsame)

def plain (root : Directory) : Installation := ⟨root,fun _ => none,id,fun _ => rfl⟩

theorem memoryDbPath_homeless (root : Directory) (environ value : Option String)
    (hhome : (PyPath.ofText (said environ value)).homeRelative = true) :
    ∃ e, memoryDbPath (plain root) environ value = .error e := by
  rw [memoryDbPath, optional_said, resolve, expanduser, if_pos hhome]
  exact ⟨_,rfl⟩

/-- The three agree everywhere exactly when the service and the scripts are told
one path, and it is nobody's home. -/
theorem same_database_iff (environ : Option String) (file : Option EnvFile) :
    SameDatabase environ file ↔ OneText environ (valueIn file) := by
  constructor
  · intro hsame
    have hhome : (PyPath.ofText (said environ (valueIn file))).homeRelative = false := by
      by_contra hhome
      obtain ⟨path,hpath,-⟩ := hsame (plain (deep 0))
      obtain ⟨e,he⟩ := memoryDbPath_homeless (deep 0) environ (valueIn file) (by simpa using hhome)
      rw [hpath] at he
      cases he
    refine ⟨under_inj _ _ fun d => ?_,hhome⟩
    obtain ⟨path,hpath,hbackup,-⟩ := hsame (plain d)
    obtain ⟨path',hpath',hunder⟩ := memoryDbPath_under (plain d) environ (valueIn file) hhome
    rw [hpath] at hpath'
    obtain rfl := Except.ok.inj hpath'
    rw [memoryDb, anchored_under] at hbackup
    rw [hbackup] at hunder
    have hplain : ∀ one other : PyPath, (plain d).canonical (under (plain d).root one) =
        (plain d).canonical (under (plain d).root other) → under d one = under d other :=
      fun one other h => h
    exact (hplain _ _ hunder).symm
  · rintro ⟨htext,hhome⟩ place
    obtain ⟨path,hpath,hunder⟩ := memoryDbPath_under place environ (valueIn file) hhome
    refine ⟨path,hpath,?_,?_⟩
    · rw [memoryDb, anchored_under, hunder, htext]
    · rw [db, anchored_under, hunder, htext]

/-- The variable of the process names another file, and there is no file of
settings. -/
theorem variable_is_missed_by_the_scripts : ¬SameDatabase (some "/srv/emma.db") none := by
  intro hsame
  obtain ⟨path,hpath,hbackup,-⟩ := hsame (plain (deep 1))
  have hservice : memoryDbPath (plain (deep 1)) (some "/srv/emma.db") none =
      .ok ⟨true,["srv","emma.db"]⟩ := by
    rfl
  have hscript : memoryDb (plain (deep 1)) none = ⟨true,["emma","data","emma.db"]⟩ := by
    rfl
  rw [valueIn, Option.bind_none, hservice] at hpath
  obtain rfl := Except.ok.inj hpath
  rw [Option.map_none, hscript] at hbackup
  revert hbackup
  decide

end Emma.DatabasePath

import Emma.Configuration
import Emma.Library.Bases
import Emma.QueueBrief

/-!
# How many archives are kept

The service checks the number when it starts, and the script that makes the archives
reads it by itself at night. It takes ASCII digits only, to bash a leading zero is the
mark of an octal number, numbers have 64 bits, and blanks are those of the C locale.
-/

set_option autoImplicit false

namespace Emma.BackupKeep
open Bases Emma.Python Emma.Integers Emma.QueueScript Emma.DatabasePath Emma.Configuration
open Emma.QueueBrief (isNumber arithmetic)

def backupKeepKey : String := "BACKUP_KEEP"

/-- The number that `load_config` starts with. -/
def started (environ value : Option String) : Except Raised ℤ :=
  positiveInt backupKeepKey (optional (loadDotenv environ value) defaultBackupKeep)

/-- `${BACKUP_KEEP:-$(read_env BACKUP_KEEP 14)}`. -/
def scriptText (environ : Option String) (lines : Option (List String)) : String :=
  if environ.getD "" = "" then readEnv lines backupKeepKey defaultBackupKeep
  else environ.getD ""

def bashNumber (n : ℕ) : ℤ := (n : ℤ).bmod (2^64)

/-- `BACKUP_KEEP` of `backup.sh`, which dies of anything but a positive number. -/
def backupKeep (environ : Option String) (lines : Option (List String)) : Option ℤ :=
  let text := (scriptText environ lines).toList
  if isNumber text then ((arithmetic text).map bashNumber).filter (1 ≤ ·) else none

/-- A file of settings with one line for the number, or with none. Nothing in its value
has a meaning of its own to `python-dotenv`. -/
structure KeepFile where
  before : List String
  value : Option String
  after : List String
  silent : ∀ line ∈ before ++ after, settingOf backupKeepKey line = none
  plain : ∀ text ∈ value, ∀ c ∈ text.toList, c ∉ ['\'','"','#','$','\n','\r']

def KeepFile.lines (file : KeepFile) : List String :=
  file.before ++ (file.value.map fun value => backupKeepKey ++ "=" ++ value).toList ++ file.after

def valueIn (file : Option KeepFile) : Option String := file.bind KeepFile.value

/-- The text as it is given: the variable, or what the line holds between its blanks. -/
def given (environ value : Option String) : List Char :=
  match environ with
  | some text => text.toList
  | none => ((value.getD "").toList.dropWhile isBlank).rdropWhile isBlank

structure Plain (text : List Char) (n : ℤ) : Prop where
  digits : text.all Char.isDigit = true
  small : n < 2^63
  leading : text.head? = some '0' → n < 8

/-! What the service makes of digits. -/

theorem digit_bounds {c : Char} (h : c.isDigit = true) : 48 ≤ c.toNat ∧ c.toNat ≤ 57 := by
  rw [Char.isDigit_iff_toNat] at h
  exact h

theorem digit_not_space {c : Char} (h : c.isDigit = true) : isSpace c = false := by
  have hbounds := digit_bounds h
  simp only [isSpace, Bool.or_eq_false_iff, Bool.and_eq_false_imp, decide_eq_true_eq,
    decide_eq_false_iff_not]
  omega

theorem strip_digits (text : List Char) (h : ∀ c ∈ text, c.isDigit = true) :
    strip (String.ofList text) = String.ofList text := by
  apply strip_of_ends
  · intro c hc
    rw [String.toList_ofList] at hc
    exact digit_not_space (h c (List.mem_of_head? hc))
  · intro c hc
    rw [String.toList_ofList] at hc
    exact digit_not_space (h c (List.mem_of_getLast? hc))

theorem decimalValue_digit {c : Char} (h : c.isDigit = true) :
    decimalValue c = some (c.toNat-48) := by
  have hbounds := digit_bounds h
  rw [decimalValue, decimalZeros, List.find?_cons_of_pos (by simpa using hbounds)]
  rfl

theorem valueOf_digits (text : List Char) (h : ∀ c ∈ text, c.isDigit = true) :
    valueOf (text.filterMap decimalValue) = Nat.ofDigitChars 10 text 0 := by
  have hvalues : text.filterMap decimalValue = text.map fun c => c.toNat-48 := by
    rw [← List.filterMap_eq_map']
    exact List.filterMap_congr fun c hc => decimalValue_digit (h c hc)
  rw [hvalues, valueOf, List.foldl_map, Nat.ofDigitChars_eq_foldl]
  rfl

/-- If `int` takes them, it takes them as decimal digits. -/
theorem parseInt_digits (text : List Char) (hsome : text ≠ [])
    (hdigits : ∀ c ∈ text, c.isDigit = true) (n : ℤ) (h : parseInt (String.ofList text) = .ok n) :
    n = Nat.ofDigitChars 10 text 0 := by
  have hsigned : signed text = (false,text) := by
    obtain ⟨c,rest,rfl⟩ := List.exists_cons_of_ne_nil hsome
    have hbounds := digit_bounds (hdigits c (by simp))
    rw [signed]
    · rintro rest' ⟨⟩
      exact absurd hbounds (by decide)
    · rintro rest' ⟨⟩
      exact absurd hbounds (by decide)
  rw [parseInt, strip_digits text hdigits, String.toList_ofList, hsigned] at h
  dsimp only at h
  rw [unsigned] at h
  split at h
  · rename_i m hm
    split at hm
    · split at hm
      · cases hm
      · obtain rfl := Except.ok.inj hm
        rw [← Except.ok.inj h, valueOf_digits text hdigits]
        rfl
    · cases hm
  · cases h

/-! What the script makes of them. -/

theorem bashNumber_le (n : ℕ) : bashNumber n ≤ n := by
  unfold bashNumber
  rw [Int.bmod_def]
  split <;> omega

theorem bashNumber_eq_iff (n : ℕ) : bashNumber n = n ↔ (n : ℤ) < 2^63 := by
  unfold bashNumber
  rw [Int.bmod_def]
  split <;> omega

/-- In bash's arithmetic a text of digits is at most what it is in decimal, and it is
as much where no zero leads to other digits. -/
theorem arithmetic_le (text : List Char) (n : ℕ) (h : arithmetic text = some n) :
    n ≤ Nat.ofDigitChars 10 text 0 := by
  rw [arithmetic] at h
  by_cases hzero : text.head? = some '0'
  · rw [if_pos hzero] at h
    split at h
    · obtain rfl := Option.some.inj h
      exact ofDigitChars_mono (by norm_num) text le_rfl
    · cases h
  · rw [if_neg hzero] at h
    split at h
    · exact (Option.some.inj h).ge
    · cases h

theorem arithmetic_eq_iff (text : List Char) (hdigits : ∀ c ∈ text, c.isDigit = true) :
    arithmetic text = some (Nat.ofDigitChars 10 text 0) ↔
      (text.head? = some '0' → Nat.ofDigitChars 10 text 0 < 8) := by
  have hdecimal : ∀ c ∈ text, c.toNat < '0'.toNat+10 := fun c hc =>
    Nat.lt_succ_of_le (digit_bounds (hdigits c hc)).2
  rw [arithmetic]
  by_cases hzero : text.head? = some '0'
  · rw [if_pos hzero]
    by_cases hoctal : ∀ c ∈ text, c.toNat < '0'.toNat+8
    · rw [if_pos (by simpa using hoctal), Option.some.injEq,
        ofDigitChars_eq_iff (by norm_num) (by norm_num) text hoctal]
      exact ⟨fun hless _ => hless,fun hless => hless hzero⟩
    · rw [if_neg (by simpa using hoctal)]
      push Not at hoctal
      obtain ⟨c,hc,hmore⟩ := hoctal
      have hvalue := digit_le (by norm_num : 0 < 10) text c hc
      have hzero' : '0'.toNat = 48 := rfl
      constructor
      · intro hnone
        cases hnone
      · intro hless
        have hsmall := hless hzero
        omega
  · rw [if_neg hzero, if_pos (by simpa using hdecimal)]
    simp [hzero]

theorem counted (text : List Char) (n m : ℤ) (hn : n = Nat.ofDigitChars 10 text 0)
    (h : ((arithmetic text).map bashNumber).filter (1 ≤ ·) = some m) : m ≤ n := by
  obtain ⟨hmap,-⟩ := Option.filter_eq_some_iff.mp h
  obtain ⟨k,hk,rfl⟩ := Option.map_eq_some_iff.mp hmap
  have hle := arithmetic_le text k hk
  have hwrapped := bashNumber_le k
  omega

theorem counted_eq_iff (text : List Char) (hdigits : ∀ c ∈ text, c.isDigit = true) (n : ℤ)
    (hn : n = Nat.ofDigitChars 10 text 0) (hpos : 0 < n) :
    ((arithmetic text).map bashNumber).filter (1 ≤ ·) = some n ↔
      n < 2^63 ∧ (text.head? = some '0' → n < 8) := by
  have heq := arithmetic_eq_iff text hdigits
  have hbash := bashNumber_eq_iff (Nat.ofDigitChars 10 text 0)
  constructor
  · intro h
    obtain ⟨hmap,-⟩ := Option.filter_eq_some_iff.mp h
    obtain ⟨k,hk,hvalue⟩ := Option.map_eq_some_iff.mp hmap
    have hle := arithmetic_le text k hk
    have hwrapped := bashNumber_le k
    obtain rfl : k = Nat.ofDigitChars 10 text 0 := by omega
    have hlead := heq.mp hk
    exact ⟨by omega,fun hzero => by have hless := hlead hzero; omega⟩
  · rintro ⟨hsmall,hlead⟩
    have harithmetic := heq.mpr fun hzero => by have hless := hlead hzero; omega
    rw [harithmetic, Option.map_some, hbash.mpr (by omega), ← hn]
    exact if_pos (decide_eq_true (by omega))

/-! The text that each of them reads. -/

theorem unquoted_plain (mark : Char) (text : List Char) (h : mark ∉ text) :
    unquoted mark text = text := by
  have hlast : text.getLast? ≠ some mark := fun hlast => h (List.mem_of_getLast? hlast)
  have hhead : text.head? ≠ some mark := fun hhead => h (List.mem_of_head? hhead)
  rw [unquoted, if_neg hlast, if_neg hhead]

theorem readEnv_given (file : Option KeepFile) :
    readEnv (file.map KeepFile.lines) backupKeepKey defaultBackupKeep =
      if given none (valueIn file) = [] then defaultBackupKeep
      else String.ofList (given none (valueIn file)) := by
  rcases file with _ | ⟨before,value,after,hsilent,hplain⟩
  · rfl
  · have hnone : ∀ lines : List String, (∀ line ∈ lines, line ∈ before ++ after) →
        lines.filterMap (settingOf backupKeepKey) = [] := by
      intro lines hlines
      rw [List.filterMap_eq_nil_iff]
      exact fun line hline => hsilent line (hlines line hline)
    have hbefore := hnone before fun line hline => List.mem_append_left _ hline
    have hafter := hnone after fun line hline => List.mem_append_right _ hline
    rw [readEnv, Option.map_some, Option.getD_some, KeepFile.lines, List.filterMap_append,
      List.filterMap_append, hbefore, hafter, List.nil_append, List.append_nil]
    cases value with
    | none => rfl
    | some value =>
      have hline := settingOf_line backupKeepKey value 'B' _ rfl (by decide)
      have hmarks : ∀ c ∈ (value.toList.dropWhile isBlank).rdropWhile isBlank,
          c ∉ ['\'','"','#','$','\n','\r'] := fun c hc =>
        hplain value rfl c ((List.dropWhile_suffix _).subset
          ((List.rdropWhile_prefix _ _).subset hc))
      simp only [Option.map_some, Option.toList_some, List.filterMap_cons, List.filterMap_nil,
        hline, List.getLast?_singleton, Option.getD_some]
      rw [settled, unquoted_plain '"' _ fun hmark => hmarks _ hmark (by decide),
        unquoted_plain '\'' _ fun hmark => hmarks _ hmark (by decide)]
      rfl

theorem blank_space {c : Char} (h : isBlank c = true) : isSpace c = true := by
  simp only [isBlank, Bool.or_eq_true, Bool.and_eq_true, decide_eq_true_eq] at h
  rcases h with rfl | h
  · decide
  · simp only [isSpace, Bool.or_eq_true, Bool.and_eq_true, decide_eq_true_eq]
    omega

/-- The blanks of a line around digits are what `str.strip` takes off. -/
theorem stripChars_digits (text : List Char)
    (h : ∀ c ∈ (text.dropWhile isBlank).rdropWhile isBlank, c.isDigit = true) :
    stripChars text = (text.dropWhile isBlank).rdropWhile isBlank := by
  have hfront : ∀ c ∈ text.takeWhile isBlank, isSpace c = true := fun c hc =>
    blank_space (List.mem_takeWhile_imp hc)
  have hback : ∀ c ∈ (text.dropWhile isBlank).rtakeWhile isBlank, isSpace c = true := fun c hc =>
    blank_space (List.mem_rtakeWhile_imp hc)
  have htext : text = text.takeWhile isBlank ++ ((text.dropWhile isBlank).rdropWhile isBlank ++
      (text.dropWhile isBlank).rtakeWhile isBlank) := by
    rw [List.rdropWhile_append_rtakeWhile, List.takeWhile_append_dropWhile]
  generalize (text.dropWhile isBlank).rdropWhile isBlank = inner at *
  rw [stripChars, htext, List.dropWhile_append_of_pos hfront]
  cases inner with
  | nil =>
    rw [List.nil_append, List.dropWhile_eq_nil_iff.mpr hback]
    rfl
  | cons c rest =>
    rw [List.cons_append, List.dropWhile_cons, digit_not_space (h c (by simp)), ← List.cons_append]
    exact Delimited.rdropWhile_run isSpace _ _ hback fun last hlast =>
      digit_not_space (h last (List.mem_of_getLast? hlast))

theorem optional_given (environ value : Option String)
    (h : ∀ c ∈ given environ value, c.isDigit = true) :
    optional (loadDotenv environ value) defaultBackupKeep =
      if given environ value = [] then defaultBackupKeep
      else String.ofList (given environ value) := by
  have hstrip : strip ((loadDotenv environ value).getD "") =
      String.ofList (given environ value) := by
    cases environ with
    | some text =>
      have hdigits := strip_digits text.toList h
      rw [String.ofList_toList] at hdigits
      rw [loadDotenv, Option.some_or, Option.getD_some, hdigits, given, String.ofList_toList]
    | none =>
      have hvalue : strip ((value.map strip).getD "") = strip (value.getD "") := by
        cases value with
        | none => rfl
        | some text => rw [Option.map_some, Option.getD_some, Option.getD_some, strip_strip]
      rw [loadDotenv, Option.none_or, hvalue, strip, stripChars_digits _ h, given]
  rw [DatabasePath.optional, hstrip]
  simp only [String.ofList_eq_empty_iff]

/-- Unless the variable is there and empty, the script reads the same. -/
theorem scriptText_given (environ : Option String) (file : Option KeepFile)
    (hset : environ ≠ some "") :
    scriptText environ (file.map KeepFile.lines) = if given environ (valueIn file) = [] then
      defaultBackupKeep else String.ofList (given environ (valueIn file)) := by
  cases environ with
  | none => exact readEnv_given file
  | some text =>
    have hsome : text ≠ "" := fun hempty => hset (congrArg some hempty)
    rw [scriptText, Option.getD_some, if_neg hsome, given, if_neg (by simpa using hsome),
      String.ofList_toList]

theorem started_parsed {environ value : Option String} {n : ℤ}
    (h : started environ value = .ok n) :
    parseInt (optional (loadDotenv environ value) defaultBackupKeep) = .ok n ∧ 0 < n := by
  have hcases := positiveInt_cases backupKeepKey
    (optional (loadDotenv environ value) defaultBackupKeep)
  rcases hcases with ⟨m,hm,hparse,hpos⟩ | ⟨-,text,hrefused⟩
  · rw [started, hm] at h
    obtain rfl := Except.ok.inj h
    exact ⟨hparse,hpos⟩
  · rw [started, hrefused] at h
    cases h

/-- Where the service starts with a number, the nightly script dies or it keeps no more
archives than that, and it keeps as many exactly when the text is plain. -/
theorem keep_is_one_number (environ : Option String) (file : Option KeepFile) (n : ℤ)
    (hset : environ ≠ some "") (hstart : started environ (valueIn file) = .ok n) :
    (∀ m, backupKeep environ (file.map KeepFile.lines) = some m → m ≤ n) ∧
      (backupKeep environ (file.map KeepFile.lines) = some n ↔
        Plain (given environ (valueIn file)) n) := by
  obtain ⟨hparse,hpos⟩ := started_parsed hstart
  have htext := scriptText_given environ file hset
  by_cases hdigits : ∀ c ∈ given environ (valueIn file), c.isDigit = true
  · rw [optional_given environ _ hdigits] at hparse
    by_cases hempty : given environ (valueIn file) = []
    · rw [if_pos hempty] at htext hparse
      obtain rfl : n = 14 := (Except.ok.inj hparse).symm
      have hkept : backupKeep environ (file.map KeepFile.lines) = some 14 := by
        rw [backupKeep, htext]
        decide
      have hplain : Plain [] 14 := ⟨rfl,by norm_num,fun hzero => by cases hzero⟩
      rw [hkept, hempty]
      exact ⟨fun m hm => (Option.some.inj hm).ge,fun _ => hplain,fun _ => rfl⟩
    · rw [if_neg hempty] at htext hparse
      have hvalue := parseInt_digits _ hempty hdigits n hparse
      have hnumber : isNumber (given environ (valueIn file)) = true := by
        simpa [isNumber, hempty] using hdigits
      have hkept : backupKeep environ (file.map KeepFile.lines) =
          ((arithmetic (given environ (valueIn file))).map bashNumber).filter (1 ≤ ·) := by
        rw [backupKeep, htext, String.toList_ofList]
        exact if_pos hnumber
      rw [hkept]
      refine ⟨fun m => counted _ n m hvalue,?_⟩
      rw [counted_eq_iff _ hdigits n hvalue hpos]
      constructor
      · rintro ⟨hsmall,hlead⟩
        exact ⟨by simpa using hdigits,hsmall,hlead⟩
      · intro hplain
        exact ⟨hplain.small,hplain.leading⟩
  · have hempty : given environ (valueIn file) ≠ [] := by
      intro hempty
      rw [hempty] at hdigits
      exact hdigits fun c hc => absurd hc List.not_mem_nil
    have hnumber : ¬isNumber (given environ (valueIn file)) = true := by
      simpa [isNumber, hempty] using hdigits
    have hkept : backupKeep environ (file.map KeepFile.lines) = none := by
      rw [if_neg hempty] at htext
      rw [backupKeep, htext, String.toList_ofList]
      exact if_neg hnumber
    rw [hkept]
    refine ⟨fun m hm => ?_,fun hsome => ?_,fun hplain => ?_⟩
    · cases hm
    · cases hsome
    · exact absurd (by simpa using hplain.digits) hdigits

theorem digits_plain : ∀ text ∈ some "010", ∀ c ∈ text.toList,
    c ∉ ['\'','"','#','$','\n','\r'] := by
  rintro _ ⟨⟩
  exact @of_decide_eq_true _ (List.decidableBAll _ _) rfl

def octal : KeepFile := ⟨[],some "010",[],fun _ h => absurd h List.not_mem_nil,digits_plain⟩

theorem octal_keeps_fewer :
    (∀ m, backupKeep none (some octal.lines) = some m → m ≤ 10) ∧
      (backupKeep none (some octal.lines) = some 10 ↔ Plain (given none (some "010")) 10) :=
  keep_is_one_number none (some octal) 10 (by simp) rfl

theorem empty_variable (file : Option KeepFile) : started (some "") (valueIn file) = .ok 14 ∧
    backupKeep (some "") (file.map KeepFile.lines) =
      backupKeep none (file.map KeepFile.lines) := by
  have htext : ∀ lines, scriptText (some "") lines = scriptText none lines := fun lines => by
    rw [scriptText, scriptText, Option.getD_some, Option.getD_none, if_pos rfl]
  constructor
  · rw [started, loadDotenv, Option.some_or]
    rfl
  · rw [backupKeep, htext, backupKeep]

end Emma.BackupKeep

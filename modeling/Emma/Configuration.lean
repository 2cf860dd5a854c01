import Emma.DatabasePath
import Emma.Integers

/-!
# What becomes of the settings

The settings are read, checked and resolved in one order, and the first that
fails ends the loading. `main` has an answer for a `ConfigError`, and for no
other exception of the loading.
-/

set_option autoImplicit false

namespace Emma.Configuration
open Emma.Python Emma.DatabasePath Emma.Integers

/-- What an exception of the loading is to `main`. -/
inductive Raised where
  | configError (text : String)
  | other (e : PyError)

inductive PersonalityFile where
  | text (content : String)
  | osError (reason : String)
  | undecodable (reason : String)

/-- Where the process runs: the project, the homes, the links, the personality
files, and `str.lower`. A path that leads into a loop of links is refused with a
reason, the others are made absolute. -/
structure Host where
  root : Directory
  home : String → Option PyPath
  loop : PyPath → Option String
  canonical : PyPath → PyPath
  canonical_absolute : ∀ path, path.absolute = true → (canonical path).absolute = true
  personality : PyPath → PersonalityFile
  lower : String → String

/-- `os.environ`, once the file of settings was loaded into it. -/
abbrev Environment := String → Option String

structure Config where
  llmProvider : String
  anthropicApiKey : String
  anthropicModel : String
  groqApiKey : String
  groqModel : String
  telegramBotToken : String
  telegramAllowedUserId : ℤ
  maxHistoryMessages : ℤ
  memoryDbPath : PyPath
  systemPromptPath : PyPath
  backupDir : PyPath
  backupKeep : ℤ

def supportedProviders : List String := ["anthropic","groq"]

def defaultLlmProvider : String := "anthropic"

def defaultAnthropicModel : String := "claude-sonnet-4-6"

def defaultGroqModel : String := "llama-3.3-70b-versatile"

def defaultMaxHistoryMessages : String := "20"

def defaultSystemPromptPath : String := "prompts/system_prompt.txt"

def defaultBackupDir : String := "/mnt/backup/emma"

def defaultBackupKeep : String := "14"

/-- `_require`. -/
def require (env : Environment) (name : String) : Except Raised String :=
  let value := strip ((env name).getD "")
  if value = "" then .error (.configError ("required environment variable " ++ name ++
    " is missing or empty; copy .env.example to .env and fill it in"))
  else .ok value

/-- `_positive_int`. -/
def positiveInt (name raw : String) : Except Raised ℤ :=
  match parseInt raw with
  | .error (.valueError _) =>
    .error (.configError (name ++ " must be an integer, got '" ++ raw ++ "'"))
  | .error e => .error (.other e)
  | .ok value =>
    if value ≤ 0 then
      match intText value with
      | .ok text => .error (.configError (name ++ " must be greater than zero, got " ++ text))
      | .error e => .error (.other e)
    else .ok value

def symlinkLoop (reason : String) : PyError := .runtimeError ("Symlink loop from " ++ reason)

/-- `_resolve`. -/
def resolve (host : Host) (raw : String) : Except Raised PyPath :=
  match expanduser host.home (.ofText raw) with
  | .error e => .error (.other e)
  | .ok path =>
    if path.absolute then .ok path
    else
      let whole : PyPath := ⟨true,host.root.parts ++ path.parts⟩
      match host.loop whole with
      | some reason => .error (.other (symlinkLoop reason))
      | none => .ok (host.canonical whole)

def pathText (path : PyPath) : String :=
  (if path.absolute then "/" else "") ++ "/".intercalate path.parts

/-- `Config.read_system_prompt`. -/
def readSystemPrompt (host : Host) (config : Config) : Except Raised String :=
  match host.personality config.systemPromptPath with
  | .text content => .ok (strip content)
  | .osError reason => .error (.configError ("cannot read the system prompt at '" ++
      pathText config.systemPromptPath ++ "' (SYSTEM_PROMPT_PATH): " ++ reason))
  | .undecodable reason => .error (.configError ("the system prompt at '" ++
      pathText config.systemPromptPath ++ "' (SYSTEM_PROMPT_PATH) is not valid UTF-8: " ++ reason))

def provider (host : Host) (env : Environment) : Except Raised (String × String × String) :=
  let llmProvider := host.lower (optional (env "LLM_PROVIDER") defaultLlmProvider)
  if llmProvider ∉ supportedProviders then
    .error (.configError ("LLM_PROVIDER must be one of ('anthropic', 'groq'), got '" ++
      llmProvider ++ "'"))
  else if llmProvider = "anthropic" then do
    let anthropicApiKey ← require env "ANTHROPIC_API_KEY"
    return (llmProvider,anthropicApiKey,optional (env "GROQ_API_KEY") "")
  else do
    let groqApiKey ← require env "GROQ_API_KEY"
    return (llmProvider,optional (env "ANTHROPIC_API_KEY") "",groqApiKey)

/-- `load_config`. -/
def loadConfig (host : Host) (env : Environment) : Except Raised Config := do
  let (llmProvider,anthropicApiKey,groqApiKey) ← provider host env
  let telegramBotToken ← require env "TELEGRAM_BOT_TOKEN"
  let telegramAllowedUserId ←
    positiveInt "TELEGRAM_ALLOWED_USER_ID" (← require env "TELEGRAM_ALLOWED_USER_ID")
  let maxHistoryMessages ← positiveInt "MAX_HISTORY_MESSAGES"
    (optional (env "MAX_HISTORY_MESSAGES") defaultMaxHistoryMessages)
  let memoryDbPath ← resolve host (optional (env memoryDbPathKey) defaultMemoryDbPath)
  let systemPromptPath ←
    resolve host (optional (env "SYSTEM_PROMPT_PATH") defaultSystemPromptPath)
  let backupDir ← resolve host (optional (env "BACKUP_DIR") defaultBackupDir)
  let backupKeep ← positiveInt "BACKUP_KEEP" (optional (env "BACKUP_KEEP") defaultBackupKeep)
  let config : Config :=
    { llmProvider := llmProvider
      anthropicApiKey := anthropicApiKey
      anthropicModel := optional (env "ANTHROPIC_MODEL") defaultAnthropicModel
      groqApiKey := groqApiKey
      groqModel := optional (env "GROQ_MODEL") defaultGroqModel
      telegramBotToken := telegramBotToken
      telegramAllowedUserId := telegramAllowedUserId
      maxHistoryMessages := maxHistoryMessages
      memoryDbPath := memoryDbPath
      systemPromptPath := systemPromptPath
      backupDir := backupDir
      backupKeep := backupKeep }
  let _ ← readSystemPrompt host config
  return config

inductive Ended where
  | exit (code : ℕ)
  | traceback (e : PyError)

/-- `main`, around what building and serving the application comes to. -/
def main (host : Host) (env : Environment) (serve : Config → Ended) : Ended :=
  match loadConfig host env with
  | .ok config => serve config
  | .error (.configError _) => .exit 2
  | .error (.other e) => .traceback e

structure Valid (config : Config) : Prop where
  maxHistoryMessages : 0 < config.maxHistoryMessages
  backupKeep : 0 < config.backupKeep
  telegramAllowedUserId : 0 < config.telegramAllowedUserId
  key : (if config.llmProvider = "anthropic" then config.anthropicApiKey
    else config.groqApiKey) ≠ ""
  memoryDbPath : config.memoryDbPath.absolute = true
  systemPromptPath : config.systemPromptPath.absolute = true
  backupDir : config.backupDir.absolute = true

/-- The loading gives a valid configuration, or a `ConfigError` and exit code 2. -/
def Answered (host : Host) (env : Environment) : Prop :=
  (∃ config, loadConfig host env = .ok config ∧ Valid config) ∨
    ∃ text, loadConfig host env = .error (.configError text) ∧
      ∀ serve, main host env serve = .exit 2

/-- The text begins with a home that cannot be determined. -/
def Homeless (host : Host) (raw : String) : Prop :=
  (PyPath.ofText raw).homeRelative = true ∧ host.home ((PyPath.ofText raw).parts.headD "") = none

/-- The text is, its home apart, a path from the project into a loop of links. -/
def Looping (host : Host) (raw : String) : Prop :=
  ∃ path, expanduser host.home (.ofText raw) = .ok path ∧ path.absolute = false ∧
    host.loop ⟨true,host.root.parts ++ path.parts⟩ ≠ none

def ProviderKnown (host : Host) (env : Environment) : Prop :=
  let name := host.lower (optional (env "LLM_PROVIDER") defaultLlmProvider)
  name ∈ supportedProviders ∧
    strip ((env (if name = "anthropic" then "ANTHROPIC_API_KEY" else "GROQ_API_KEY")).getD "") ≠ ""

def Positive (raw : String) : Prop := ∃ n, parseInt raw = .ok n ∧ 0 < n

structure Begun (host : Host) (env : Environment) : Prop where
  provider : ProviderKnown host env
  token : strip ((env "TELEGRAM_BOT_TOKEN").getD "") ≠ ""
  allowedUserId : Positive (strip ((env "TELEGRAM_ALLOWED_USER_ID").getD ""))
  history : Positive (optional (env "MAX_HISTORY_MESSAGES") defaultMaxHistoryMessages)

def pathTexts (env : Environment) : List String :=
  [optional (env memoryDbPathKey) defaultMemoryDbPath,
    optional (env "SYSTEM_PROMPT_PATH") defaultSystemPromptPath,
    optional (env "BACKUP_DIR") defaultBackupDir]

/-- The check stops with a `ConfigError`. -/
def Refused {α : Type} (r : Except Raised α) : Prop := ∃ text, r = .error (.configError text)

theorem require_cases (env : Environment) (name : String) :
    (strip ((env name).getD "") ≠ "" ∧ require env name = .ok (strip ((env name).getD ""))) ∨
      (strip ((env name).getD "") = "" ∧ Refused (require env name)) := by
  by_cases hempty : strip ((env name).getD "") = ""
  · exact .inr ⟨hempty,_,if_pos hempty⟩
  · exact .inl ⟨hempty,if_neg hempty⟩

/-- A number is positive or refused; nothing else comes of any text. -/
theorem positiveInt_cases (name raw : String) :
    (∃ n, positiveInt name raw = .ok n ∧ parseInt raw = .ok n ∧ 0 < n) ∨
      (¬Positive raw ∧ Refused (positiveInt name raw)) := by
  unfold Positive
  cases hparsed : parseInt raw with
  | error e =>
    right
    obtain ⟨message,rfl⟩ := parseInt_error raw e hparsed
    constructor
    · rintro ⟨n,hn,-⟩
      cases hn
    · rw [positiveInt, hparsed]
      exact ⟨_,rfl⟩
  | ok n =>
    by_cases hn : n ≤ 0
    · right
      constructor
      · rintro ⟨m,hm,hpos⟩
        obtain rfl := Except.ok.inj hm
        omega
      · rw [positiveInt, hparsed]
        dsimp only
        rw [if_pos hn, intText_parsed raw n hparsed]
        exact ⟨_,rfl⟩
    · left
      refine ⟨n,?_,rfl,by omega⟩
      rw [positiveInt, hparsed]
      exact if_neg hn

theorem homeless_iff (host : Host) (raw : String) :
    Homeless host raw ↔ ∃ e, expanduser host.home (.ofText raw) = .error e := by
  unfold Homeless expanduser
  by_cases hhome : (PyPath.ofText raw).homeRelative = true
  · rw [if_pos hhome]
    cases hfound : host.home ((PyPath.ofText raw).parts.headD "") with
    | none => exact iff_of_true ⟨hhome,rfl⟩ ⟨_,rfl⟩
    | some found =>
      apply iff_of_false
      · rintro ⟨-,h⟩
        cases h
      · rintro ⟨e,h⟩
        cases h
  · rw [if_neg hhome]
    apply iff_of_false
    · exact fun h => hhome h.1
    · rintro ⟨e,h⟩
      cases h

/-- A path is made absolute, unless its home is unknown or it leads into a loop. -/
theorem resolve_cases (host : Host) (raw : String) :
    ((∃ path, resolve host raw = .ok path ∧ path.absolute = true) ∧
        ¬(Homeless host raw ∨ Looping host raw)) ∨
      ((∃ e, resolve host raw = .error (.other e)) ∧
        (Homeless host raw ∨ Looping host raw)) := by
  unfold resolve
  rw [homeless_iff, Looping]
  cases expanduser host.home (.ofText raw) with
  | error e => exact .inr ⟨⟨e,rfl⟩,.inl ⟨e,rfl⟩⟩
  | ok path =>
    by_cases habsolute : path.absolute = true
    · left
      constructor
      · exact ⟨path,if_pos habsolute,habsolute⟩
      · rintro (⟨e,h⟩ | ⟨other,h,hrelative,-⟩)
        · cases h
        · obtain rfl := Except.ok.inj h
          rw [habsolute] at hrelative
          cases hrelative
    · dsimp only
      rw [if_neg habsolute]
      cases hloop : host.loop ⟨true,host.root.parts ++ path.parts⟩ with
      | some reason =>
        right
        have hrelative : path.absolute = false := by simpa using habsolute
        exact ⟨⟨_,rfl⟩,.inr ⟨path,rfl,hrelative,by rw [hloop]; exact Option.some_ne_none reason⟩⟩
      | none =>
        left
        constructor
        · exact ⟨_,rfl,host.canonical_absolute _ rfl⟩
        · rintro (⟨e,h⟩ | ⟨other,h,-,hlooping⟩)
          · cases h
          · obtain rfl := Except.ok.inj h
            exact hlooping hloop

/-- A known provider whose key is there gives three texts, of which its own is not
empty; the others are refused. -/
theorem provider_cases (host : Host) (env : Environment) :
    ((∃ name anthropicKey groqKey, provider host env = .ok (name,anthropicKey,groqKey) ∧
        (if name = "anthropic" then anthropicKey else groqKey) ≠ "") ∧
      ProviderKnown host env) ∨ (¬ProviderKnown host env ∧ Refused (provider host env)) := by
  unfold provider ProviderKnown
  dsimp only
  generalize host.lower (optional (env "LLM_PROVIDER") defaultLlmProvider) = name
  by_cases hknown : name ∈ supportedProviders
  · rw [if_neg (not_not.mpr hknown)]
    by_cases hname : name = "anthropic"
    · rw [if_pos hname, if_pos hname]
      rcases require_cases env "ANTHROPIC_API_KEY" with ⟨hsome,hread⟩ | ⟨hnone,text,hread⟩
      · left
        rw [hread]
        refine ⟨⟨_,_,_,rfl,?_⟩,hknown,hsome⟩
        rw [if_pos hname]
        exact hsome
      · right
        rw [hread]
        exact ⟨fun h => h.2 hnone,text,rfl⟩
    · rw [if_neg hname, if_neg hname]
      rcases require_cases env "GROQ_API_KEY" with ⟨hsome,hread⟩ | ⟨hnone,text,hread⟩
      · left
        rw [hread]
        refine ⟨⟨_,_,_,rfl,?_⟩,hknown,hsome⟩
        rw [if_neg hname]
        exact hsome
      · right
        rw [hread]
        exact ⟨fun h => h.2 hnone,text,rfl⟩
  · right
    rw [if_pos hknown]
    exact ⟨fun h => hknown h.1,_,rfl⟩

theorem main_refused (host : Host) (env : Environment) (h : Refused (loadConfig host env)) :
    Answered host env := by
  obtain ⟨text,htext⟩ := h
  refine .inr ⟨text,htext,fun serve => ?_⟩
  rw [main, htext]

theorem not_answered (host : Host) (env : Environment) (e : PyError)
    (h : loadConfig host env = .error (.other e)) : ¬Answered host env := by
  rintro (⟨config,hconfig,-⟩ | ⟨text,htext,-⟩)
  · rw [h] at hconfig
    cases hconfig
  · rw [h] at htext
    cases htext

theorem not_positive_empty : ¬Positive "" := by
  rintro ⟨n,hn,-⟩
  have herror : parseInt "" = .error (.valueError "invalid literal for int() with base 10") := rfl
  rw [herror] at hn
  cases hn

def assembled (env : Environment) (name anthropicKey groqKey token : String) (userId history : ℤ)
    (db prompt backup : PyPath) (keep : ℤ) : Config :=
  ⟨name,anthropicKey,optional (env "ANTHROPIC_MODEL") defaultAnthropicModel,groqKey,
    optional (env "GROQ_MODEL") defaultGroqModel,token,userId,history,db,prompt,backup,keep⟩

def completed (host : Host) (env : Environment) (name anthropicKey groqKey token : String)
    (userId history : ℤ) : Except Raised Config := do
  let memoryDbPath ← resolve host (optional (env memoryDbPathKey) defaultMemoryDbPath)
  let systemPromptPath ←
    resolve host (optional (env "SYSTEM_PROMPT_PATH") defaultSystemPromptPath)
  let backupDir ← resolve host (optional (env "BACKUP_DIR") defaultBackupDir)
  let backupKeep ← positiveInt "BACKUP_KEEP" (optional (env "BACKUP_KEEP") defaultBackupKeep)
  let config := assembled env name anthropicKey groqKey token userId history memoryDbPath
    systemPromptPath backupDir backupKeep
  let _ ← readSystemPrompt host config
  return config

theorem loadConfig_begins (host : Host) (env : Environment) :
    (Begun host env ∧ ∃ name anthropicKey groqKey token userId history,
      loadConfig host env = completed host env name anthropicKey groqKey token userId history ∧
        (if name = "anthropic" then anthropicKey else groqKey) ≠ "" ∧ 0 < userId ∧ 0 < history) ∨
      (¬Begun host env ∧ Refused (loadConfig host env)) := by
  rcases provider_cases host env with ⟨⟨name,anthropicKey,groqKey,hprovider,hkey⟩,hknown⟩ |
    ⟨hunknown,text,hprovider⟩
  swap
  · exact .inr ⟨fun h => hunknown h.provider,text,
      by simp only [loadConfig, hprovider, bind, Except.bind]⟩
  rcases require_cases env "TELEGRAM_BOT_TOKEN" with ⟨htoken,hbot⟩ | ⟨hnone,text,hbot⟩
  swap
  · exact .inr ⟨fun h => h.token hnone,text,
      by simp only [loadConfig, hprovider, hbot, bind, Except.bind]⟩
  rcases require_cases env "TELEGRAM_ALLOWED_USER_ID" with ⟨hsome,huser⟩ | ⟨hnone,text,huser⟩
  swap
  · exact .inr ⟨fun h => not_positive_empty (hnone ▸ h.allowedUserId),text,
      by simp only [loadConfig, hprovider, hbot, huser, bind, Except.bind]⟩
  rcases positiveInt_cases "TELEGRAM_ALLOWED_USER_ID"
    (strip ((env "TELEGRAM_ALLOWED_USER_ID").getD "")) with ⟨userId,hid,hpositive⟩ | ⟨hno,text,hid⟩
  swap
  · exact .inr ⟨fun h => hno h.allowedUserId,text,
      by simp only [loadConfig, hprovider, hbot, huser, hid, bind, Except.bind]⟩
  rcases positiveInt_cases "MAX_HISTORY_MESSAGES"
    (optional (env "MAX_HISTORY_MESSAGES") defaultMaxHistoryMessages) with
    ⟨history,hhistory,hlong⟩ | ⟨hno,text,hhistory⟩
  swap
  · exact .inr ⟨fun h => hno h.history,text,
      by simp only [loadConfig, hprovider, hbot, huser, hid, hhistory, bind, Except.bind]⟩
  left
  refine ⟨⟨hknown,htoken,⟨userId,hpositive⟩,history,hlong⟩,name,anthropicKey,groqKey,
    strip ((env "TELEGRAM_BOT_TOKEN").getD ""),userId,history,?_,hkey,hpositive.2,hlong.2⟩
  simp only [loadConfig, hprovider, hbot, huser, hid, hhistory, bind, Except.bind, completed,
    assembled]

theorem readSystemPrompt_cases (host : Host) (config : Config) :
    (∃ text, readSystemPrompt host config = .ok text) ∨ Refused (readSystemPrompt host config) := by
  unfold readSystemPrompt
  cases host.personality config.systemPromptPath with
  | text content => exact .inl ⟨_,rfl⟩
  | osError reason => exact .inr ⟨_,rfl⟩
  | undecodable reason => exact .inr ⟨_,rfl⟩

/-- A lost path is the one thing that does not end well from there. -/
theorem completed_cases (host : Host) (env : Environment)
    (name anthropicKey groqKey token : String) (userId history : ℤ)
    (hkey : (if name = "anthropic" then anthropicKey else groqKey) ≠ "") (hid : 0 < userId)
    (hhistory : 0 < history) :
    let r := completed host env name anthropicKey groqKey token userId history
    ((∀ raw ∈ pathTexts env, ¬(Homeless host raw ∨ Looping host raw)) ∧
      ((∃ config, r = .ok config ∧ Valid config) ∨ Refused r)) ∨
    ((∃ raw ∈ pathTexts env, Homeless host raw ∨ Looping host raw) ∧
      ∃ e, r = .error (.other e)) := by
  dsimp only
  rcases resolve_cases host (optional (env memoryDbPathKey) defaultMemoryDbPath) with
    ⟨⟨db,hdb,hdbAbsolute⟩,hdbFound⟩ | ⟨⟨e,hdb⟩,hlost⟩
  swap
  · exact .inr ⟨⟨_,by simp [pathTexts],hlost⟩,e,by simp only [completed, hdb, bind, Except.bind]⟩
  rcases resolve_cases host (optional (env "SYSTEM_PROMPT_PATH") defaultSystemPromptPath) with
    ⟨⟨prompt,hprompt,hpromptAbsolute⟩,hpromptFound⟩ | ⟨⟨e,hprompt⟩,hlost⟩
  swap
  · exact .inr ⟨⟨_,by simp [pathTexts],hlost⟩,e,
      by simp only [completed, hdb, hprompt, bind, Except.bind]⟩
  rcases resolve_cases host (optional (env "BACKUP_DIR") defaultBackupDir) with
    ⟨⟨backup,hbackup,hbackupAbsolute⟩,hbackupFound⟩ | ⟨⟨e,hbackup⟩,hlost⟩
  swap
  · exact .inr ⟨⟨_,by simp [pathTexts],hlost⟩,e,
      by simp only [completed, hdb, hprompt, hbackup, bind, Except.bind]⟩
  left
  constructor
  · intro raw hraw
    simp only [pathTexts, List.mem_cons, List.not_mem_nil, or_false] at hraw
    rcases hraw with rfl | rfl | rfl
    · exact hdbFound
    · exact hpromptFound
    · exact hbackupFound
  rcases positiveInt_cases "BACKUP_KEEP" (optional (env "BACKUP_KEEP") defaultBackupKeep) with
    ⟨keep,hkeep,hpositive⟩ | ⟨-,text,hkeep⟩
  swap
  · exact .inr ⟨text,by simp only [completed, hdb, hprompt, hbackup, hkeep, bind, Except.bind]⟩
  have hprepared := readSystemPrompt_cases host
    (assembled env name anthropicKey groqKey token userId history db prompt backup keep)
  rcases hprepared with ⟨text,hread⟩ | ⟨text,hread⟩
  · left
    refine ⟨assembled env name anthropicKey groqKey token userId history db prompt backup keep,?_,
      hhistory,hpositive.2,hid,hkey,hdbAbsolute,hpromptAbsolute,hbackupAbsolute⟩
    simp only [completed, hdb, hprompt, hbackup, hkeep, hread, bind, Except.bind]
    rfl
  · right
    exact ⟨text,by simp only [completed, hdb, hprompt, hbackup, hkeep, hread, bind, Except.bind]⟩

/-- Every set of settings is answered by a valid configuration or a `ConfigError`,
exactly when no path that is reached is lost: with the settings before the paths in
order, none of the three begins with an unknown home or leads into a loop. -/
theorem settings_are_answered_iff (host : Host) (env : Environment) : Answered host env ↔
    (Begun host env → ∀ raw ∈ pathTexts env, ¬(Homeless host raw ∨ Looping host raw)) := by
  rcases loadConfig_begins host env with
    ⟨hbegun,name,anthropicKey,groqKey,token,userId,history,hload,hkey,hid,hhistory⟩ |
    ⟨hbegun,hrefused⟩
  swap
  · exact iff_of_true (main_refused host env hrefused) fun h => absurd h hbegun
  rcases completed_cases host env name anthropicKey groqKey token userId history hkey hid hhistory
    with ⟨hfound,hdone⟩ | ⟨⟨raw,hraw,hlost⟩,e,he⟩
  · apply iff_of_true _ fun _ => hfound
    rw [← hload] at hdone
    rcases hdone with hvalid | hrefused
    · exact .inl hvalid
    · exact main_refused host env hrefused
  · rw [← hload] at he
    exact iff_of_false (not_answered host env e he) fun h => h hbegun raw hraw hlost

def homelessHost : Host where
  root := ⟨["opt","emma"],by decide⟩
  home := fun _ => none
  loop := fun _ => none
  canonical := id
  canonical_absolute := fun _ h => h
  personality := fun _ => .text "Sei EMMA."
  lower := id

def tildeSettings : Environment
  | "ANTHROPIC_API_KEY" => some "sk-test"
  | "TELEGRAM_BOT_TOKEN" => some "123456789:AAtest"
  | "TELEGRAM_ALLOWED_USER_ID" => some "4242"
  | "BACKUP_DIR" => some "~nessuno/backup"
  | _ => none

theorem unknown_home_escapes : ¬Answered homelessHost tildeSettings := by
  apply not_answered homelessHost tildeSettings
    (.runtimeError "Could not determine home directory.")
  rfl

end Emma.Configuration

import Emma.Orchestrator
import Emma.Tasks
import Emma.ToolState

/-!
# The tools that commission development

The tables of the shared file go with the number of times the clock was read,
so that a run can be held against any sequence of readings. The tools of the
model and the other side of the queue, the developer's session, act on the same
tables.
-/

set_option autoImplicit false

namespace Emma.DevelopmentTools
open Emma.Python Emma.Numbers Emma.LanguageModel Emma.Orchestrator Emma.Tasks Emma.ToolState

structure Stores where
  toolState : ToolStateTable
  tasks : TaskTable
  lastSeen : Option ℚ
  readings : ℕ

def Stores.empty : Stores := ⟨∅,∅,none,0⟩

def Stores.ticked (s : Stores) : Stores := { s with readings := s.readings+1 }

/-- What the n-th reading of `time.time()` answers. -/
abbrev Clock := ℕ → ℚ

def onTasks {α : Type} (clock : Clock) (s : Stores)
    (f : TaskTable → ℚ → Except PyError (α × TaskTable)) : Except PyError α × Stores :=
  match f s.tasks (clock s.readings) with
  | .error e => (.error e,s.ticked)
  | .ok (a,tasks) => (.ok a,{ s.ticked with tasks := tasks })

def staleAfterSeconds : ℚ := 6*60*60

def stageLabel : Stage → String
  | .new => "in attesa che lo sviluppatore lo prenda in carico"
  | .understood => "capito, in attesa di procedere con l'implementazione"
  | .implemented => "implementato e testato, in attesa di essere committato"
  | .committed => "committato in locale, in attesa di essere pubblicato"
  | .pushed => "pubblicato su GitHub, in attesa del deploy"
  | .deployed => "deployato"

def rstrip (text : String) : String := String.ofList (text.toList.rdropWhile isSpace)

def shorten (text : String) (limit : ℕ) : String :=
  let text := strip text
  if text.length ≤ limit then text
  else rstrip (String.ofList (text.toList.take (limit-1))) ++ "..."

/-- `1 ora`, `3 ore`. -/
def counted (one many : String) (n : ℤ) : String :=
  if n = 1 then "1 " ++ one else toString n ++ " " ++ many

def describeAge (seconds : ℚ) : String :=
  let minutes := nearestDouble (seconds/60)
  let hours := nearestDouble (minutes/60)
  if seconds < 60 then "meno di un minuto fa"
  else if minutes < 90 then counted "minuto fa" "minuti fa" (roundHalfEven minutes)
  else if hours < 36 then counted "ora fa" "ore fa" (roundHalfEven hours)
  else counted "giorno fa" "giorni fa" (roundHalfEven (nearestDouble (hours/24)))

namespace RequestDevelopment

def name : String := "request_development"

def description : String :=
  "Record a request to change or extend EMMA's own code, so that a " ++
  "developer picks it up. Use it when the user asks for a capability you " ++
  "do not have, or when their message begins with 'sviluppo:'. Keep the " ++
  "user's own words: do not summarise and do not interpret, because " ++
  "whoever reads the request has the code in front of them and you do not."

def inputSchema : String :=
  "\x7b\"type\": \"object\", \"properties\": \x7b" ++
  "\"request\": \x7b\"type\": \"string\", \"description\": " ++
  "\"The request in the user's own words, complete enough to be " ++
  "understood without the rest of the conversation.\"\x7d\x7d, " ++
  "\"required\": [\"request\"]\x7d"

def run (clock : Clock) (arguments : Arguments) (s : Stores) : Outcome String × Stores :=
  match onTasks clock s fun tasks now => create tasks (arguments.text "request") now with
  | (.error (.valueError _),s) => (.ok "Richiesta vuota: non e' stato registrato nulla.",s)
  | (.error e,s) => (.error e.text,s)
  | (.ok taskId,s) => (.ok ("Registrata come lavoro #" ++ toString taskId ++
      ". Sara' presa in carico alla prossima sessione di sviluppo."),s)

end RequestDevelopment

namespace WorkStatus

def name : String := "work_status"

def description : String :=
  "List the open development jobs and any question waiting on the user. " ++
  "Use it whenever the user asks how the work is going, whether anything " ++
  "is pending, or what they have been asked. Do not answer from memory: " ++
  "the state changes between one question and the next."

def inputSchema : String :=
  "\x7b\"type\": \"object\", \"properties\": \x7b\x7d\x7d"

def describe (row : ℕ × Task) : String :=
  let (taskId,task) := row
  if task.status = .waitingUser ∧ task.note ≠ "" then
    "#" ++ toString taskId ++ " ATTENDE UNA RISPOSTA DELL'UTENTE.\n" ++
      "   Domanda da riferire per intero: " ++ task.note ++ "\n" ++
      "   (la richiesta originale era: " ++ shorten task.request 90 ++ ")"
  else "#" ++ toString taskId ++ " [" ++ stageLabel task.stage ++ "] " ++ task.request

def stalenessWarning (clock : Clock) (s : Stores) : String × Stores :=
  match s.lastSeen with
  | none => ("NOTA: nessuna sessione di sviluppo ha ancora letto la coda. " ++
      "Se ci sono lavori in attesa, la sessione non e' attiva.",s)
  | some seen =>
    let age := clock s.readings-seen
    (if age > staleAfterSeconds then
      "NOTA: l'ultimo contatto con la sessione di sviluppo risale a " ++ describeAge age ++
        ". Probabilmente non e' attiva."
    else "",s.ticked)

def header (tasks : List (ℕ × Task)) : String :=
  let waiting := tasks.countP fun row => row.2.status = .waitingUser
  (if tasks.length > 1 then toString tasks.length ++ " lavori di sviluppo aperti."
    else "1 lavoro di sviluppo aperto.") ++
  " Riferiscili TUTTI all'utente, ognuno con il suo numero, e riporta" ++
  " ogni domanda per intero: qui non riassumere e non sceglierne uno." ++
  (if waiting ≠ 0 then " " ++ toString waiting ++ " attendono una sua risposta." else "")

def run (clock : Clock) (_ : Arguments) (s : Stores) : Outcome String × Stores :=
  match openTasks s.tasks with
  | [] => (.ok "Nessun lavoro di sviluppo aperto.",s)
  | tasks =>
    let (warning,s) := stalenessWarning clock s
    (.ok ("\n".intercalate ([header tasks,""] ++ tasks.map describe ++
      (if warning = "" then [] else [warning]))),s)

end WorkStatus

namespace AnswerQuestion

def name : String := "answer_question"

def description : String :=
  "Record the user's answer to a question on a development job -- for " ++
  "instance their consent to proceed with a step. It needs the job " ++
  "number, which work_status gives you. If the user answers without " ++
  "saying which job they mean and more than one is waiting, ask them " ++
  "rather than guess."

def inputSchema : String :=
  "\x7b\"type\": \"object\", \"properties\": \x7b" ++
  "\"number\": \x7b\"type\": \"integer\", \"description\": " ++
  "\"The number of the job the user is answering.\"\x7d, " ++
  "\"answer\": \x7b\"type\": \"string\", \"description\": " ++
  "\"The user's answer, reported faithfully, including any " ++
  "condition or correction they attach to it.\"\x7d\x7d, " ++
  "\"required\": [\"number\", \"answer\"]\x7d"

def run (clock : Clock) (arguments : Arguments) (s : Stores) : Outcome String × Stores :=
  match arguments.integer "number" with
  | .error (.overflowError text) => (.error text,s)
  | .error _ => (.ok "Numero del lavoro mancante o non valido: non ho registrato nulla.",s)
  | .ok taskId =>
    match onTasks clock s fun tasks now =>
      recordAnswer tasks taskId (arguments.text "answer") now with
    | (.error e,s) => (.error e.text,s)
    | (.ok true,s) => (.ok ("Risposta registrata sul lavoro #" ++ toString taskId ++ "."),s)
    | (.ok false,s) => (.ok ("Il lavoro #" ++ toString taskId ++
        " non esiste o non ha una domanda in attesa. Non ho registrato nulla."),s)

end AnswerQuestion

namespace AbandonDevelopment

def name : String := "abandon_development"

def description : String :=
  "Drop a development job the user no longer wants, so it stops asking " ++
  "to be dealt with. It needs the job number, which work_status gives " ++
  "you. Only jobs that are still open can be dropped: one already " ++
  "finished stays as it is. Ask the user to confirm before calling this, " ++
  "and say which job you are about to drop, unless they already named " ++
  "the number themselves."

def inputSchema : String :=
  "\x7b\"type\": \"object\", \"properties\": \x7b" ++
  "\"number\": \x7b\"type\": \"integer\", \"description\": " ++
  "\"The number of the job to drop.\"\x7d, " ++
  "\"reason\": \x7b\"type\": \"string\", \"description\": " ++
  "\"Why it is being dropped, in the user's own words when " ++
  "they gave one. Kept with the job, which is not deleted.\"\x7d\x7d, " ++
  "\"required\": [\"number\"]\x7d"

def run (clock : Clock) (arguments : Arguments) (s : Stores) : Outcome String × Stores :=
  match arguments.integer "number" with
  | .error (.overflowError text) => (.error text,s)
  | .error _ => (.ok "Numero del lavoro mancante o non valido: non ho abbandonato nulla.",s)
  | .ok taskId =>
    if (openTasks s.tasks).all fun row => row.1 ≠ taskId then
      (.ok ("Il lavoro #" ++ toString taskId ++
        " non esiste o non e' piu' aperto. Non ho abbandonato nulla."),s)
    else
      let reason := strip (arguments.text "reason")
      let note := if reason = "" then "Abbandonato su richiesta dell'utente."
        else "Abbandonato su richiesta dell'utente: " ++ reason
      match onTasks clock s fun tasks now => abandon tasks taskId note now with
      | (.error e,s) => (.error e.text,s)
      | (.ok true,s) => (.ok ("Lavoro #" ++ toString taskId ++
          " abbandonato. Resta registrato, non e' stato cancellato."),s)
      | (.ok false,s) => (.ok ("Non sono riuscita ad abbandonare il lavoro #" ++
          toString taskId ++ "."),s)

end AbandonDevelopment

namespace DevelopmentContext

def opening : String := "Stato dei lavori di sviluppo in questo momento: "

def noneOpen : String :=
  "nessuno aperto. " ++
  "Questa riga e' sempre aggiornata: se ricordi il contrario, " ++
  "questa ha ragione."

def closing : String :=
  " Questa riga e' sempre aggiornata: se la conversazione precedente" ++
  " dice un numero diverso, quella e' vecchia e questa ha ragione." ++
  " Per il contenuto dei lavori usa work_status, non la memoria."

def numbers (tasks : List (ℕ × Task)) : String :=
  ", ".intercalate (tasks.map fun row => "#" ++ toString row.1)

def listed (between : String) (tasks : List (ℕ × Task)) : String :=
  toString tasks.length ++ between ++ numbers tasks ++ ")."

def snapshot (t : TaskTable) : String :=
  match openTasks t with
  | [] => opening ++ noneOpen
  | tasks =>
    let waiting := tasks.filter fun row => row.2.status = .waitingUser
    opening ++ listed " aperti (" tasks ++
      (if waiting = [] then "" else
        " Di questi, " ++ listed " attendono una risposta dell'utente (" waiting) ++ closing

end DevelopmentContext

/-- `TaskStore.touch`: the session of the developer was here. -/
def touch (clock : Clock) (s : Stores) : Stores :=
  { s.ticked with lastSeen := some (clock s.readings) }

/-! What the tools leave of the tables. -/

def Unmoved (s s' : Stores) : Prop := s'.toolState = s.toolState ∧ s'.tasks = s.tasks

theorem onTasks_toolState {α : Type} (clock : Clock) (s : Stores)
    (f : TaskTable → ℚ → Except PyError (α × TaskTable)) :
    (onTasks clock s f).2.toolState = s.toolState := by
  unfold onTasks
  split <;> rfl

theorem onTasks_evolves {α : Type} (clock : Clock) (s : Stores)
    (f : TaskTable → ℚ → Except PyError (α × TaskTable)) (reopened : ℕ → Prop)
    (hf : ∀ a tasks, f s.tasks (clock s.readings) = .ok (a,tasks) →
      Evolves reopened s.tasks tasks) :
    Evolves reopened s.tasks (onTasks clock s f).2.tasks := by
  unfold onTasks
  split
  · exact evolves_refl reopened s.tasks
  · exact hf _ _ ‹_›

theorem requestDevelopment_toolState (clock : Clock) (arguments : Arguments) (s : Stores) :
    (RequestDevelopment.run clock arguments s).2.toolState = s.toolState := by
  have h := onTasks_toolState clock s fun tasks now => create tasks (arguments.text "request") now
  unfold RequestDevelopment.run
  split <;> rename_i heq <;> rw [heq] at h <;> exact h

theorem requestDevelopment_queue (clock : Clock) (arguments : Arguments) (s : Stores) :
    (RequestDevelopment.run clock arguments s).2.tasks = s.tasks ∨
      ∃ task, (RequestDevelopment.run clock arguments s).2.tasks = s.tasks.insert task := by
  have h : (onTasks clock s fun tasks now =>
        create tasks (arguments.text "request") now).2.tasks = s.tasks ∨
      ∃ task, (onTasks clock s fun tasks now =>
        create tasks (arguments.text "request") now).2.tasks = s.tasks.insert task := by
    unfold onTasks create
    by_cases hempty : strip (arguments.text "request") = ""
    · simp only [hempty, if_true]
      exact .inl rfl
    · simp only [hempty, if_false]
      exact .inr ⟨_,rfl⟩
  unfold RequestDevelopment.run
  split <;> rename_i heq <;> rw [heq] at h <;> exact h

theorem workStatus_unmoved (clock : Clock) (arguments : Arguments) (s : Stores) :
    Unmoved s (WorkStatus.run clock arguments s).2 := by
  unfold WorkStatus.run WorkStatus.stalenessWarning
  split
  · exact ⟨rfl,rfl⟩
  · cases s.lastSeen <;> exact ⟨rfl,rfl⟩

theorem answerQuestion_effect (clock : Clock) (arguments : Arguments) (s : Stores)
    (reopened : ℕ → Prop) :
    (AnswerQuestion.run clock arguments s).2.toolState = s.toolState ∧
      Evolves reopened s.tasks (AnswerQuestion.run clock arguments s).2.tasks := by
  unfold AnswerQuestion.run
  split
  · exact ⟨rfl,evolves_refl _ _⟩
  · exact ⟨rfl,evolves_refl _ _⟩
  · rename_i taskId _
    have h := onTasks_toolState clock s fun tasks now =>
      recordAnswer tasks taskId (arguments.text "answer") now
    have hevolves := onTasks_evolves clock s
      (fun tasks now => recordAnswer tasks taskId (arguments.text "answer") now) reopened
      fun _ _ hok => recordAnswer_evolves hok reopened
    split <;> rename_i heq <;> rw [heq] at h hevolves <;> exact ⟨h,hevolves⟩

theorem abandonDevelopment_effect (clock : Clock) (arguments : Arguments) (s : Stores)
    (reopened : ℕ → Prop) :
    (AbandonDevelopment.run clock arguments s).2.toolState = s.toolState ∧
      Evolves reopened s.tasks (AbandonDevelopment.run clock arguments s).2.tasks := by
  unfold AbandonDevelopment.run
  split
  · exact ⟨rfl,evolves_refl _ _⟩
  · exact ⟨rfl,evolves_refl _ _⟩
  · rename_i taskId _
    dsimp only
    split
    · exact ⟨rfl,evolves_refl _ _⟩
    · generalize (if strip (arguments.text "reason") = "" then
        "Abbandonato su richiesta dell'utente." else
        "Abbandonato su richiesta dell'utente: " ++ strip (arguments.text "reason")) = note
      have h := onTasks_toolState clock s fun tasks now => Tasks.abandon tasks taskId note now
      have hevolves := onTasks_evolves clock s
        (fun tasks now => Tasks.abandon tasks taskId note now) reopened
        fun _ _ hok => abandon_evolves hok reopened
      split <;> rename_i heq <;> rw [heq] at h hevolves <;> exact ⟨h,hevolves⟩

end Emma.DevelopmentTools

import Emma.Library.Statements
import Emma.QueueMoves
import Emma.ToolStateTools

/-!
# The tools and the script, statement by statement

Every method of a store commits its one statement before it returns, and the
script calls `sqlite3` once for each of its own. Between two statements of one
call any other call may come. Here each call is written down as the statements
it makes, in order. Carried out without a pause these are the call itself.
-/

set_option autoImplicit false

namespace Emma.ToolStatements
open Statements Emma.Python Emma.LanguageModel Emma.Orchestrator Emma.Tasks Emma.ToolState
open Emma.DevelopmentTools Emma.ToolStateTools Emma.QueueScript

inductive ToolStatement : Type → Type where
  | create (request : String) : ToolStatement (Except PyError ℕ)
  | openTasks : ToolStatement (List (ℕ × Task))
  | recordAnswer (taskId : ℤ) (answer : String) : ToolStatement (Except PyError Bool)
  | abandon (taskId : ℤ) (note : String) : ToolStatement (Except PyError Bool)
  | lastSeen : ToolStatement (Option ℚ)
  | disable (name reason : String) : ToolStatement Bool
  | enable (name : String) : ToolStatement Bool
  | disabledSince (name : String) : ToolStatement (Option ℚ)
  | time : ToolStatement ℚ

def ToolStatement.perform (clock : Clock) (β : Type) :
    ToolStatement β → Stores → β × Stores
  | .create request, s => onTasks clock s fun tasks now => Tasks.create tasks request now
  | .openTasks, s => (Tasks.openTasks s.tasks,s)
  | .recordAnswer taskId answer, s =>
    onTasks clock s fun tasks now => Tasks.recordAnswer tasks taskId answer now
  | .abandon taskId note, s => onTasks clock s fun tasks now => Tasks.abandon tasks taskId note now
  | .lastSeen, s => (s.lastSeen,s)
  | .disable name reason, s =>
    let (switched,toolState) := s.toolState.disable name reason (clock s.readings)
    (switched,{ s.ticked with toolState := toolState })
  | .enable name, s =>
    let (switched,toolState) := s.toolState.enable name
    (switched,{ s with toolState := toolState })
  | .disabledSince name, s => (s.toolState.disabledSince name,s)
  | .time, s => (clock s.readings,s.ticked)

/-- What the script asks `sqlite3` for. -/
inductive QueueStatement : Type → Type where
  | beat : QueueStatement Unit
  | list : QueueStatement (List (ℕ × Task))
  | listAll : QueueStatement (List (ℕ × Task))
  | «show» (taskId : ℕ) : QueueStatement (List (ℕ × Task))
  | insert (request : String) : QueueStatement Unit
  | newest : QueueStatement ℕ
  | advance (taskId : ℕ) (stage : Stage) (note : String) : QueueStatement Unit
  | finish (taskId : ℕ) (note : String) : QueueStatement Unit
  | abandon (taskId : ℕ) (note : String) : QueueStatement Unit

def QueueStatement.perform (clock : Clock) (β : Type) :
    QueueStatement β → Stores → β × Stores
  | .beat, s => ((),DevelopmentTools.touch clock s)
  | .list, s => (queued s.tasks,s)
  | .listAll, s => (s.tasks.rows,s)
  | .show taskId, s => (s.tasks.select fun row => row.1 = taskId,s)
  | .insert request, s => ((),((Action.create request).run clock s).2)
  | .newest, s => ((s.tasks.rows.map Prod.fst).foldl max 0,s)
  | .advance taskId stage note, s => ((),((Action.advance taskId stage note).run clock s).2)
  | .finish taskId note, s => ((),((Action.finish taskId note).run clock s).2)
  | .abandon taskId note, s => ((),((Action.abandon taskId note).run clock s).2)

abbrev ToolScript := Script ToolStatement (Outcome String)

abbrev QueueRun := Script QueueStatement (Except String Printed)

namespace RequestDevelopment

def script (arguments : Arguments) : ToolScript :=
  .next (.create (arguments.text "request")) fun
    | .error (.valueError _) => .done (.ok "Richiesta vuota: non e' stato registrato nulla.")
    | .error e => .done (.error e.text)
    | .ok taskId => .done (.ok ("Registrata come lavoro #" ++ toString taskId ++
        ". Sara' presa in carico alla prossima sessione di sviluppo."))

end RequestDevelopment

namespace WorkStatus

def report (tasks : List (ℕ × Task)) (warning : String) : ToolScript :=
  .done (.ok ("\n".intercalate ([WorkStatus.header tasks,""] ++ tasks.map WorkStatus.describe ++
    (if warning = "" then [] else [warning]))))

def script (_ : Arguments) : ToolScript :=
  .next .openTasks fun
    | [] => .done (.ok "Nessun lavoro di sviluppo aperto.")
    | task::others => .next .lastSeen fun
      | none => report (task::others)
          ("NOTA: nessuna sessione di sviluppo ha ancora letto la coda. " ++
            "Se ci sono lavori in attesa, la sessione non e' attiva.")
      | some seen => .next .time fun now =>
        let age := now-seen
        report (task::others) (if age > staleAfterSeconds then
          "NOTA: l'ultimo contatto con la sessione di sviluppo risale a " ++ describeAge age ++
            ". Probabilmente non e' attiva."
        else "")

end WorkStatus

namespace AnswerQuestion

def script (arguments : Arguments) : ToolScript :=
  match arguments.integer "number" with
  | .error (.overflowError text) => .done (.error text)
  | .error _ =>
    .done (.ok "Numero del lavoro mancante o non valido: non ho registrato nulla.")
  | .ok taskId => .next (.recordAnswer taskId (arguments.text "answer")) fun
    | .error e => .done (.error e.text)
    | .ok true => .done (.ok ("Risposta registrata sul lavoro #" ++ toString taskId ++ "."))
    | .ok false => .done (.ok ("Il lavoro #" ++ toString taskId ++
        " non esiste o non ha una domanda in attesa. Non ho registrato nulla."))

end AnswerQuestion

namespace AbandonDevelopment

def note (reason : String) : String :=
  if reason = "" then "Abbandonato su richiesta dell'utente."
  else "Abbandonato su richiesta dell'utente: " ++ reason

/-- Whether the task is open is looked up in one statement, and it is dropped in
another that does not ask. -/
def script (arguments : Arguments) : ToolScript :=
  match arguments.integer "number" with
  | .error (.overflowError text) => .done (.error text)
  | .error _ =>
    .done (.ok "Numero del lavoro mancante o non valido: non ho abbandonato nulla.")
  | .ok taskId => .next .openTasks fun openNow =>
    if openNow.all fun row => row.1 ≠ taskId then
      .done (.ok ("Il lavoro #" ++ toString taskId ++
        " non esiste o non e' piu' aperto. Non ho abbandonato nulla."))
    else .next (.abandon taskId (note (strip (arguments.text "reason")))) fun
      | .error e => .done (.error e.text)
      | .ok true => .done (.ok ("Lavoro #" ++ toString taskId ++
          " abbandonato. Resta registrato, non e' stato cancellato."))
      | .ok false => .done (.ok ("Non sono riuscita ad abbandonare il lavoro #" ++
          toString taskId ++ "."))

end AbandonDevelopment

namespace RemoveTool

def file (name reason : String) : ToolScript :=
  .next .openTasks fun openNow =>
    match (openNow.find? fun row =>
      startsWith row.2.request (removalRequest name)).map Prod.fst with
    | some existing => .done (.ok ("La rimozione di " ++ name ++ " e' gia' il lavoro #" ++
        toString existing ++ ". Resta spento nel frattempo."))
    | none => .next (.create (removalText name reason)) fun
      | .error e => .done (.error e.text)
      | .ok taskId => .done (.ok (name ++
          " era gia' disattivato da un po', quindi ho registrato la " ++
          "rimozione definitiva come lavoro #" ++ toString taskId ++
          ". Resta spento nel frattempo."))

def again (name reason : String) : ToolScript :=
  .next (.disabledSince name) fun
    | none => file name reason
    | some since => .next .time fun now =>
      let waited := now-since
      if waited < minTimeOffSeconds then
        .done (.ok (name ++ " e' disattivato solo da " ++ inWords waited ++ ". Per " ++
          "registrare la rimozione definitiva aspetto che sia passato " ++
          "un po' di tempo senza di lui: riprova fra " ++
          inWords (minTimeOffSeconds-waited) ++ ". Nel frattempo resta spento."))
      else file name reason

def script (names : List String) (arguments : Arguments) : ToolScript :=
  let name := requestedName arguments
  let reason := strip (arguments.text "reason")
  if name = "" then .done (.ok missingName)
  else if names = [] then
    .done (.ok "Non lo so fare adesso: l'elenco degli strumenti non mi e' stato passato.")
  else if name ∉ names then
    .done (.ok ("Non ho nessuno strumento che si chiami " ++ name ++
      ". Controlla il nome con list_tools."))
  else if name ∈ protectedNames then
    .done (.ok ("Non posso disattivare " ++ name ++ ": senza di lui non sapresti piu' " ++
      "cosa e' spento ne' come riaccenderlo."))
  else .next (.disable name reason) fun
    | true => .done (.ok ("Ho disattivato " ++ name ++ ": da adesso non lo uso piu'. " ++
        "Riaccendilo quando vuoi con enable_tool. Se piu' avanti, dopo " ++
        "averne fatto a meno, vuoi toglierlo del tutto dal codice, " ++
        "chiedimelo di nuovo."))
    | false => again name reason

end RemoveTool

namespace EnableTool

def script (arguments : Arguments) : ToolScript :=
  let name := requestedName arguments
  if name = "" then .done (.ok missingName)
  else .next (.enable name) fun
    | true => .done (.ok ("Ho riattivato " ++ name ++ ": torno a poterlo usare da subito."))
    | false => .done (.ok (name ++ " non era disattivato, quindi non ho cambiato niente."))

end EnableTool

def carryOut : Action → QueueRun
  | .list => .next .list fun rows => .done (.ok (.listing rows))
  | .listAll => .next .listAll fun rows => .done (.ok (.listing rows))
  | .show taskId => .next (.show taskId) fun rows => .done (.ok (.listing rows))
  | .touch => .done (.ok (.line "ok"))
  | .create request => .next (.insert request) fun _ => .next .newest fun taskId =>
      .done (.ok (.line ("created #" ++ toString taskId)))
  | .advance taskId stage note =>
    .next (.advance taskId stage note) fun _ => .done (.ok (.line "ok"))
  | .finish taskId note => .next (.finish taskId note) fun _ => .done (.ok (.line "ok"))
  | .abandon taskId note => .next (.abandon taskId note) fun _ => .done (.ok (.line "ok"))

def queueRun (r : Request) : QueueRun :=
  if r.word 0 = "" then .done (.error "no command given")
  else if isVerb (r.word 0) = false then
    .done (.error ("unknown command '" ++ r.word 0 ++ "' (" ++
      " ".intercalate validVerbs ++ ")"))
  else .next .beat fun _ =>
    match understood r with
    | .error refusal => .done (.error refusal)
    | .ok action => carryOut action

/-! Without a pause. -/

section
variable (clock : Clock) (arguments : Arguments) (s : Stores)

theorem requestDevelopment_finish :
    (RequestDevelopment.script arguments).finish (ToolStatement.perform clock) s =
      DevelopmentTools.RequestDevelopment.run clock arguments s := by
  rw [RequestDevelopment.script, Script.finish, ToolStatement.perform,
    DevelopmentTools.RequestDevelopment.run]
  rcases onTasks clock s _ with ⟨e | taskId,s'⟩
  · cases e <;> rfl
  · rfl

theorem workStatus_finish :
    (WorkStatus.script arguments).finish (ToolStatement.perform clock) s =
      DevelopmentTools.WorkStatus.run clock arguments s := by
  rw [WorkStatus.script, Script.finish, ToolStatement.perform, DevelopmentTools.WorkStatus.run]
  cases openTasks s.tasks with
  | nil => rfl
  | cons task others =>
    dsimp only
    rw [DevelopmentTools.WorkStatus.stalenessWarning, Script.finish, ToolStatement.perform]
    cases s.lastSeen <;> rfl

theorem answerQuestion_finish :
    (AnswerQuestion.script arguments).finish (ToolStatement.perform clock) s =
      DevelopmentTools.AnswerQuestion.run clock arguments s := by
  rw [AnswerQuestion.script, DevelopmentTools.AnswerQuestion.run]
  cases arguments.integer "number" with
  | error e => cases e <;> rfl
  | ok taskId =>
    dsimp only
    rw [Script.finish, ToolStatement.perform]
    rcases onTasks clock s _ with ⟨e | _ | _,s'⟩ <;> rfl

theorem abandonDevelopment_finish :
    (AbandonDevelopment.script arguments).finish (ToolStatement.perform clock) s =
      DevelopmentTools.AbandonDevelopment.run clock arguments s := by
  rw [AbandonDevelopment.script, DevelopmentTools.AbandonDevelopment.run]
  cases arguments.integer "number" with
  | error e => cases e <;> rfl
  | ok taskId =>
    dsimp only
    rw [Script.finish, ToolStatement.perform]
    dsimp only
    split
    · rfl
    · rw [Script.finish, ToolStatement.perform, AbandonDevelopment.note]
      rcases onTasks clock s _ with ⟨e | _ | _,s'⟩ <;> rfl

theorem file_finish (name reason : String) :
    (RemoveTool.file name reason).finish (ToolStatement.perform clock) s =
      ToolStateTools.RemoveTool.file clock name reason s := by
  rw [RemoveTool.file, Script.finish, ToolStatement.perform, ToolStateTools.RemoveTool.file,
    ToolStateTools.RemoveTool.existingJob]
  dsimp only
  cases ((openTasks s.tasks).find? fun row =>
      startsWith row.2.request (removalRequest name)).map Prod.fst with
  | some existing => rfl
  | none =>
    dsimp only
    rw [Script.finish, ToolStatement.perform]
    rcases onTasks clock s _ with ⟨e | taskId,s'⟩ <;> rfl

theorem again_finish (name reason : String) :
    (RemoveTool.again name reason).finish (ToolStatement.perform clock) s =
      ToolStateTools.RemoveTool.again clock name reason s := by
  rw [RemoveTool.again, Script.finish, ToolStatement.perform, ToolStateTools.RemoveTool.again]
  cases s.toolState.disabledSince name with
  | none => exact file_finish clock s name reason
  | some since =>
    dsimp only
    rw [Script.finish, ToolStatement.perform]
    dsimp only
    split
    · rfl
    · exact file_finish clock s.ticked name reason

theorem removeTool_finish (names : List String) :
    (RemoveTool.script names arguments).finish (ToolStatement.perform clock) s =
      ToolStateTools.RemoveTool.run clock names arguments s := by
  rw [RemoveTool.script, ToolStateTools.RemoveTool.run]
  dsimp only
  split
  · rfl
  split
  · rfl
  split
  · rfl
  split
  · rfl
  rw [Script.finish, ToolStatement.perform]
  rcases s.toolState.disable (requestedName arguments) (strip (arguments.text "reason"))
    (clock s.readings) with ⟨_ | _,toolState⟩
  · exact again_finish clock _ _ _
  · rfl

theorem enableTool_finish :
    (EnableTool.script arguments).finish (ToolStatement.perform clock) s =
      ToolStateTools.EnableTool.run arguments s := by
  rw [EnableTool.script, ToolStateTools.EnableTool.run]
  dsimp only
  split
  · rfl
  · rw [Script.finish, ToolStatement.perform]
    rcases s.toolState.enable (requestedName arguments) with ⟨_ | _,toolState⟩ <;> rfl

theorem carryOut_finish (action : Action) :
    (carryOut action).finish (QueueStatement.perform clock) s =
      (.ok (action.run clock s).1,(action.run clock s).2) := by
  cases action <;> rfl

theorem queueRun_finish (r : Request) :
    (queueRun r).finish (QueueStatement.perform clock) s = QueueScript.run clock r s := by
  rw [queueRun, QueueScript.run]
  split
  · rfl
  split
  · rfl
  rw [Script.finish, QueueStatement.perform]
  dsimp only
  cases understood r with
  | error refusal => rfl
  | ok action => exact carryOut_finish clock _ action

end

end Emma.ToolStatements

import Emma.Orchestrator
import Emma.Tasks

/-!
# Facts the assistant was asked to keep

A fact is stored as its words joined by single blanks, so it never holds a line
break, and forgetting it only stamps the row. All active facts go in front of
the model, as far as they fit.
-/

set_option autoImplicit false

namespace Emma.Facts
open Emma.Python Emma.LanguageModel Emma.Orchestrator

def maxActiveFacts : ℕ := 50

def maxFactLength : ℕ := 300

/-- What `remember` lets into the table. -/
structure Admissible (text : String) : Prop where
  joined : joinWords text = text
  written : text ≠ ""
  short : text.length ≤ maxFactLength

/-- A row of `facts`, without its id. -/
structure Fact where
  text : String
  createdAt : ℚ
  forgottenAt : Option ℚ
  admissible : Admissible text

abbrev FactTable := RowTable Fact

def active (t : FactTable) : List (ℕ × Fact) := t.select fun row => row.2.forgottenAt.isNone

/-- `lower` of SQLite, which folds the ASCII letters alone. -/
def sqlLower (text : String) : String := String.ofList (text.toList.map Char.toLower)

theorem admissible_joinWords (text : String) (hwritten : ¬joinWords text = "")
    (hshort : ¬maxFactLength < (joinWords text).length) : Admissible (joinWords text) :=
  ⟨joinWords_joinWords text,hwritten,by omega⟩

def remember (t : FactTable) (text : String) (now : ℚ) : (Option ℕ × String) × FactTable :=
  let cleaned := joinWords text
  if hwritten : cleaned = "" then ((none,"il fatto e' vuoto"),t)
  else if hshort : maxFactLength < cleaned.length then
    ((none,"il fatto e' troppo lungo (" ++ toString cleaned.length ++
      " caratteri, il massimo e' " ++ toString maxFactLength ++ ")"),t)
  else match (active t).find? fun row => sqlLower row.2.text = sqlLower cleaned with
    | some row => ((some row.1,"gia' registrato"),t)
    | none =>
      if maxActiveFacts ≤ (active t).length then
        ((none,"ci sono gia' " ++ toString maxActiveFacts ++ " fatti attivi, che e' il " ++
          "massimo; dimenticane uno per farne posto"),t)
      else ((some (t.seq+1),""),
        t.insert ⟨cleaned,now,none,⟨joinWords_joinWords text,hwritten,by omega⟩⟩)

def forget (t : FactTable) (factId : ℤ) (now : ℚ) : Except PyError (Bool × FactTable) := do
  let factId ← Tasks.bound factId
  let found (row : ℕ × Fact) : Bool := row.1 = factId && row.2.forgottenAt.isNone
  return (t.rows.any found,t.update found fun fact => { fact with forgottenAt := some now })

namespace RememberFact

def name : String := "remember_fact"

def description : String :=
  "Record something the user has explicitly asked you to remember, so it " ++
  "survives beyond the recent conversation. Use it only when they ask -- " ++
  "'ricorda che', 'segnati che', 'non dimenticare che' -- and never on " ++
  "your own judgement of what seems important. Write the fact as a short " ++
  "standalone sentence in the user's own words: it will be read later " ++
  "with none of this conversation around it, so 'la password del wifi e' " ++
  "X' works and 'e' X' does not."

def inputSchema : String :=
  "\x7b\"type\": \"object\", \"properties\": \x7b" ++
  "\"fact\": \x7b\"type\": \"string\", \"description\": " ++
  "\"The fact, as one self-contained sentence. At most 300 characters.\"\x7d\x7d, " ++
  "\"required\": [\"fact\"]\x7d"

def run (now : ℚ) (arguments : Arguments) (t : FactTable) : Outcome String × FactTable :=
  match remember t (arguments.text "fact") now with
  | ((none,reason),t) => (.ok ("Non l'ho registrato: " ++ reason ++ "."),t)
  | ((some factId,reason),t) =>
    if reason = "gia' registrato" then
      (.ok ("Lo ricordavo gia' (fatto #" ++ toString factId ++ "), non l'ho duplicato."),t)
    else (.ok ("Registrato come fatto #" ++ toString factId ++
        ". Lo ricordero' anche fra molti giorni."),t)

end RememberFact

namespace ForgetFact

def name : String := "forget_fact"

def description : String :=
  "Stop using a remembered fact, when the user asks you to forget " ++
  "something. It needs the fact's number, which is shown beside each fact " ++
  "in what you already know. If the user describes a fact instead of " ++
  "numbering it and more than one could match, ask which they mean rather " ++
  "than guessing -- forgetting the wrong one is not visible to them."

def inputSchema : String :=
  "\x7b\"type\": \"object\", \"properties\": \x7b" ++
  "\"number\": \x7b\"type\": \"integer\", \"description\": " ++
  "\"The number of the fact to forget.\"\x7d\x7d, \"required\": [\"number\"]\x7d"

def run (now : ℚ) (arguments : Arguments) (t : FactTable) : Outcome String × FactTable :=
  match arguments.integer "number" with
  | .error (.overflowError text) => (.error text,t)
  | .error _ => (.ok "Numero del fatto mancante o non valido: non ho dimenticato nulla.",t)
  | .ok factId =>
    match forget t factId now with
    | .error e => (.error e.text,t)
    | .ok (true,t) => (.ok ("Non usero' piu' il fatto #" ++ toString factId ++ "."),t)
    | .ok (false,t) => (.ok ("Il fatto #" ++ toString factId ++
        " non esiste o l'avevo gia' dimenticato."),t)

end ForgetFact

namespace FactsContext

def maxContextChars : ℕ := 4000

def factLine (row : ℕ × Fact) : String := "- #" ++ toString row.1 ++ ": " ++ row.2.text

def fitting : ℕ → List (ℕ × Fact) → List (ℕ × Fact) × ℕ
  | _, [] => ([],0)
  | used, row::rest =>
    if maxContextChars < used+(factLine row).length then
      let (shown,dropped) := fitting used rest
      (shown,dropped+1)
    else
      let (shown,dropped) := fitting (used+(factLine row).length) rest
      (row::shown,dropped)

def header : String :=
  "Cose che l'utente ti ha chiesto di ricordare. Sono vere e attuali, " ++
  "e valgono piu' della conversazione recente se le due si " ++
  "contraddicono. Il numero serve solo per dimenticarle: non citarlo " ++
  "se l'utente non parla di dimenticare."

def droppedLine (dropped : ℕ) : String :=
  "- (altri " ++ toString dropped ++ " fatti non entrano in questo spazio)"

def snapshot (t : FactTable) : String :=
  match active t with
  | [] => ""
  | facts =>
    let (shown,dropped) := fitting 0 facts
    header ++ "\n" ++ "\n".intercalate (shown.map factLine ++
      if dropped = 0 then [] else [droppedLine dropped])

end FactsContext
end Emma.Facts

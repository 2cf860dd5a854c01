import Emma.DevelopmentTools

/-!
# Switching a tool off, and asking for its removal

The first request inserts a row. A later one files a development job, if the
row is old enough and no open job opens with the same sentence. The names a
request is checked against are those of all registered tools.
-/

set_option autoImplicit false

namespace Emma.ToolStateTools
open Emma.Python Emma.Numbers Emma.LanguageModel Emma.Orchestrator Emma.Tasks Emma.ToolState
open Emma.DevelopmentTools

def inWords (seconds : ℚ) : String :=
  let minutes := nearestDouble (seconds/60)
  if seconds < 90 then "meno di un minuto"
  else if minutes < 90 then counted "minuto" "minuti" (roundHalfEven minutes)
  else counted "ora" "ore" (roundHalfEven (nearestDouble (minutes/60)))

def removalRequest (name : String) : String :=
  "rimuovere del tutto lo strumento " ++ name ++ " dalla codebase"

def removalText (name reason : String) : String :=
  removalRequest name ++ (if reason = "" then "" else " (" ++ reason ++ ")") ++
    ". Togliere anche la sua riga dalla tabella tool_state."

def requestedName (arguments : Arguments) : String := strip (arguments.text "name")

def missingName : String := "Nome dello strumento mancante: non ho fatto niente."

namespace RemoveTool

def name : String := "remove_tool"

def description : String :=
  "Remove one of your own tools, in two steps. The first time the user " ++
  "asks, the tool is only switched off: it stops being offered to you and " ++
  "can be switched back on with enable_tool. Asking again later -- not in " ++
  "the same conversation -- registers a development job to take it out of " ++
  "the code for good. Pass the exact tool name, which list_tools gives " ++
  "you. Say which of the two steps happened: the user needs to know " ++
  "whether anything is still reversible."

def inputSchema : String :=
  "\x7b\"type\": \"object\", \"properties\": \x7b" ++
  "\"name\": \x7b\"type\": \"string\", \"description\": \"Exact name of the tool.\"\x7d, " ++
  "\"reason\": \x7b\"type\": \"string\", " ++
  "\"description\": \"Why, in the user's own words, when they gave one.\"\x7d\x7d, " ++
  "\"required\": [\"name\"]\x7d"

def existingJob (tasks : TaskTable) (name : String) : Option ℕ :=
  ((openTasks tasks).find? fun row =>
    startsWith row.2.request (removalRequest name)).map Prod.fst

def file (clock : Clock) (name reason : String) (s : Stores) : Outcome String × Stores :=
  match existingJob s.tasks name with
  | some existing => (.ok ("La rimozione di " ++ name ++ " e' gia' il lavoro #" ++
      toString existing ++ ". Resta spento nel frattempo."),s)
  | none =>
    match onTasks clock s fun tasks now => create tasks (removalText name reason) now with
    | (.error e,s) => (.error e.text,s)
    | (.ok taskId,s) => (.ok (name ++ " era gia' disattivato da un po', quindi ho registrato la " ++
        "rimozione definitiva come lavoro #" ++ toString taskId ++
        ". Resta spento nel frattempo."),s)

def again (clock : Clock) (name reason : String) (s : Stores) : Outcome String × Stores :=
  match s.toolState.disabledSince name with
  | none => file clock name reason s
  | some since =>
    let waited := clock s.readings-since
    if waited < minTimeOffSeconds then
      (.ok (name ++ " e' disattivato solo da " ++ inWords waited ++ ". Per " ++
        "registrare la rimozione definitiva aspetto che sia passato " ++
        "un po' di tempo senza di lui: riprova fra " ++
        inWords (minTimeOffSeconds-waited) ++ ". Nel frattempo resta spento."),s.ticked)
    else file clock name reason s.ticked

def run (clock : Clock) (names : List String) (arguments : Arguments) (s : Stores) :
    Outcome String × Stores :=
  let name := requestedName arguments
  let reason := strip (arguments.text "reason")
  if name = "" then (.ok missingName,s)
  else if names = [] then
    (.ok "Non lo so fare adesso: l'elenco degli strumenti non mi e' stato passato.",s)
  else if name ∉ names then
    (.ok ("Non ho nessuno strumento che si chiami " ++ name ++
      ". Controlla il nome con list_tools."),s)
  else if name ∈ protectedNames then
    (.ok ("Non posso disattivare " ++ name ++ ": senza di lui non sapresti piu' " ++
      "cosa e' spento ne' come riaccenderlo."),s)
  else
    let (switched,toolState) := s.toolState.disable name reason (clock s.readings)
    let s := { s.ticked with toolState := toolState }
    if switched then
      (.ok ("Ho disattivato " ++ name ++ ": da adesso non lo uso piu'. " ++
        "Riaccendilo quando vuoi con enable_tool. Se piu' avanti, dopo " ++
        "averne fatto a meno, vuoi toglierlo del tutto dal codice, " ++
        "chiedimelo di nuovo."),s)
    else again clock name reason s

end RemoveTool

namespace EnableTool

def name : String := "enable_tool"

def description : String :=
  "Switch a tool back on after it was disabled with remove_tool. Pass the " ++
  "exact name; list_tools shows which ones are currently off. Use it " ++
  "whenever the user wants a capability back."

def inputSchema : String :=
  "\x7b\"type\": \"object\", \"properties\": \x7b" ++
  "\"name\": \x7b\"type\": \"string\", \"description\": \"Exact name of the tool.\"\x7d\x7d, " ++
  "\"required\": [\"name\"]\x7d"

def run (arguments : Arguments) (s : Stores) : Outcome String × Stores :=
  let name := requestedName arguments
  if name = "" then (.ok missingName,s)
  else
    let (switched,toolState) := s.toolState.enable name
    let s := { s with toolState := toolState }
    if switched then
      (.ok ("Ho riattivato " ++ name ++ ": torno a poterlo usare da subito."),s)
    else (.ok (name ++ " non era disattivato, quindi non ho cambiato niente."),s)

end EnableTool

/-! What a run of either tool can do. -/

theorem regrouped (a b c d e : String) : a ++ b ++ c ++ d ++ e = a ++ (b ++ c ++ d) ++ e := by
  simp only [String.append_assoc]

theorem strip_removalText (name reason : String) :
    strip (removalText name reason) = removalText name reason := by
  unfold removalText removalRequest
  rw [regrouped]
  exact strip_of_tight _ _ _ 'r' '.' "imuovere del tutto lo strumento ".toList
    ". Togliere anche la sua riga dalla tabella tool_state".toList (by decide) (by decide)
    (by decide) (by decide)

theorem removalText_opens (name reason : String) :
    startsWith (removalText name reason) (removalRequest name) = true := by
  rw [removalText, String.append_assoc]
  exact startsWith_append _ _

def removalTask (name reason : String) (now : ℚ) : Task :=
  ⟨removalText name reason,.new,.queued,"","",now,now⟩

theorem create_removal (tasks : TaskTable) (name reason : String) (now : ℚ) :
    create tasks (removalText name reason) now =
      .ok (tasks.seq+1,tasks.insert (removalTask name reason now)) := by
  have hne : removalText name reason ≠ "" := by
    unfold removalText removalRequest
    rw [regrouped]
    exact append_ne_empty _ _ _ (by decide)
  simp only [create, strip_removalText, hne, if_false, removalTask]

def TurnedOff (name : String) (now : ℚ) (s s' : Stores) : Prop :=
  name ∉ s.toolState.disabled ∧
    (∃ reason, s'.toolState.rows = s.toolState.rows ++ [⟨name,now,reason⟩]) ∧
    s'.tasks = s.tasks

def FiledAt (name : String) (since now : ℚ) (s s' : Stores) : Prop :=
  s.toolState.disabledSince name = some since ∧ since+minTimeOffSeconds ≤ now ∧
    RemoveTool.existingJob s.tasks name = none ∧ s'.toolState = s.toolState ∧
    ∃ reason, s'.tasks = s.tasks.insert (removalTask name reason now)

theorem file_effect (clock : Clock) (name reason : String) (s : Stores) :
    s.readings ≤ (RemoveTool.file clock name reason s).2.readings ∧
    (Unmoved s (RemoveTool.file clock name reason s).2 ∨
      (RemoveTool.existingJob s.tasks name = none ∧
        (RemoveTool.file clock name reason s).2.toolState = s.toolState ∧
        (RemoveTool.file clock name reason s).2.tasks =
          s.tasks.insert (removalTask name reason (clock s.readings)))) := by
  unfold RemoveTool.file
  cases hjob : RemoveTool.existingJob s.tasks name with
  | some existing => exact ⟨le_refl _,.inl ⟨rfl,rfl⟩⟩
  | none =>
    simp only [onTasks, create_removal]
    exact ⟨Nat.le_succ _,.inr (by simp [Stores.ticked])⟩

theorem again_effect (clock : Clock) (hclock : Monotone clock) (name reason : String) (s : Stores)
    (hoff : name ∈ s.toolState.disabled) :
    s.readings ≤ (RemoveTool.again clock name reason s).2.readings ∧
    (Unmoved s (RemoveTool.again clock name reason s).2 ∨
      ∃ since now, FiledAt name since now s (RemoveTool.again clock name reason s).2) := by
  obtain ⟨since,hsince⟩ := ToolStateTable.disabledSince_isSome hoff
  unfold RemoveTool.again
  simp only [hsince]
  split
  · exact ⟨Nat.le_succ _,.inl ⟨rfl,rfl⟩⟩
  · rename_i hwaited
    obtain ⟨hreadings,hcase⟩ := file_effect clock name reason s.ticked
    refine ⟨(Nat.le_succ _).trans hreadings,?_⟩
    rcases hcase with hsame | ⟨hnone,hstate,htasks⟩
    · exact .inl hsame
    · refine .inr ⟨since,clock s.ticked.readings,hsince,?_,hnone,hstate,reason,htasks⟩
      have hlater : clock s.readings ≤ clock s.ticked.readings := hclock (Nat.le_succ _)
      linarith

/-- A request leaves everything as it is, turns the tool off, or meets a tool
that is off. -/
theorem removeTool_cases (clock : Clock) (names : List String) (arguments : Arguments)
    (s : Stores) :
    (RemoveTool.run clock names arguments s).2 = s ∨
    (TurnedOff (requestedName arguments) (clock s.readings) s
        (RemoveTool.run clock names arguments s).2 ∧
      (RemoveTool.run clock names arguments s).2.readings = s.readings+1) ∨
    (requestedName arguments ∈ s.toolState.disabled ∧
      (RemoveTool.run clock names arguments s).2 =
        (RemoveTool.again clock (requestedName arguments) (strip (arguments.text "reason"))
          s.ticked).2) := by
  unfold RemoveTool.run
  dsimp only
  split
  · exact .inl rfl
  split
  · exact .inl rfl
  split
  · exact .inl rfl
  split
  · exact .inl rfl
  rename_i hprotected
  rcases s.toolState.disable_rows (requestedName arguments) (strip (arguments.text "reason"))
    (clock s.readings) with ⟨hsame,hfalse,hkind⟩ | ⟨hrows,htrue,hon⟩
  · have hself : { s.ticked with toolState := s.toolState } = s.ticked := rfl
    rw [hsame, hfalse, if_neg (by decide), hself]
    exact .inr (.inr ⟨hkind.resolve_left hprotected,rfl⟩)
  · rw [htrue, if_pos rfl]
    right
    left
    dsimp only [TurnedOff]
    rw [hrows]
    exact ⟨⟨hon,⟨_,rfl⟩,rfl⟩,rfl⟩

/-- Everything `remove_tool` can do to the tables. -/
theorem removeTool_effect (clock : Clock) (hclock : Monotone clock) (names : List String)
    (arguments : Arguments) (s : Stores) :
    s.readings ≤ (RemoveTool.run clock names arguments s).2.readings ∧
    (Unmoved s (RemoveTool.run clock names arguments s).2 ∨
      TurnedOff (requestedName arguments) (clock s.readings) s
        (RemoveTool.run clock names arguments s).2 ∨
      ∃ since now, FiledAt (requestedName arguments) since now s
        (RemoveTool.run clock names arguments s).2) := by
  rcases removeTool_cases clock names arguments s with hsame | ⟨hoff,hreadings⟩ |
    ⟨hoff,hagain⟩
  · rw [hsame]
    exact ⟨le_refl _,.inl ⟨rfl,rfl⟩⟩
  · exact ⟨by omega,.inr (.inl hoff)⟩
  · rw [hagain]
    obtain ⟨hreadings,hcase⟩ := again_effect clock hclock (requestedName arguments)
      (strip (arguments.text "reason")) s.ticked hoff
    exact ⟨(Nat.le_succ _).trans hreadings,hcase.imp id .inr⟩

theorem again_toolState (clock : Clock) (name reason : String) (s : Stores) :
    (RemoveTool.again clock name reason s).2.toolState = s.toolState := by
  have hfile : ∀ s', s'.toolState = s.toolState →
      (RemoveTool.file clock name reason s').2.toolState = s.toolState := by
    intro s' hs'
    rcases (file_effect clock name reason s').2 with hsame | ⟨-,hstate,-⟩
    · exact hsame.1.trans hs'
    · exact hstate.trans hs'
  unfold RemoveTool.again
  split
  · exact hfile s rfl
  · dsimp only
    split
    · rfl
    · exact hfile s.ticked rfl

theorem removeTool_disabled (clock : Clock) (names : List String) (arguments : Arguments)
    (s : Stores) (x : String) (h : x ∈ s.toolState.disabled) :
    x ∈ (RemoveTool.run clock names arguments s).2.toolState.disabled := by
  rcases removeTool_cases clock names arguments s with hsame | ⟨⟨-,⟨reason,hrows⟩,-⟩,-⟩ |
    ⟨-,hagain⟩
  · rwa [hsame]
  · rw [ToolStateTable.disabled, hrows, List.map_append]
    exact List.mem_append_left _ h
  · rwa [hagain, again_toolState]

theorem enableTool_disabled (arguments : Arguments) (s : Stores) (x : String)
    (h : x ∈ s.toolState.disabled) (hx : requestedName arguments ≠ x) :
    x ∈ (EnableTool.run arguments s).2.toolState.disabled := by
  unfold EnableTool.run
  dsimp only
  split
  · exact h
  · split <;> exact (ToolStateTable.enable_disabled _ _ _).mpr ⟨h,hx.symm⟩

/-- Everything `enable_tool` can do to the tables. -/
theorem enableTool_effect (arguments : Arguments) (s : Stores) :
    (EnableTool.run arguments s).2 = s ∨
      (EnableTool.run arguments s).2 =
        { s with toolState := (s.toolState.enable (requestedName arguments)).2 } := by
  unfold EnableTool.run
  dsimp only
  split
  · exact .inl rfl
  · split <;> exact .inr rfl

end Emma.ToolStateTools

import Emma.CrashRecovery
import Emma.Library.Unwinding
import Emma.StoreStatements

/-!
# Starting up, and giving back what was started

The lifespan opens the conversation memory, the three stores and the bot, in
this order, and registers each once its opening returned. Every step of every
opening may raise, and so may every step of closing. The connections made to
check a file are closed where they are made; what is told here is what outlives
the method that acquires it.
-/

set_option autoImplicit false

namespace Emma.Lifespan
open FaultyProgram Unwinding Emma.Python Emma.DatabaseFiles Emma.SelfRepair Emma.SqliteMemory
open Emma.CrashRecovery

inductive Component where
  | modelClient
  | memory
  | tasks
  | facts
  | toolState
  | telegram
  deriving DecidableEq, Repr

inductive Resource where
  | modelClient
  | connection (component : Component)
  | botResources
  | application
  | polling
  deriving DecidableEq, Repr

inductive BotStep where
  | initialise
  | start
  | startPolling
  deriving DecidableEq, Repr

/-- What `TelegramAdapter.stop` looks at, and whether `initialize` was through. -/
structure Bot where
  initialized : Bool
  running : Bool
  polling : Bool
  deriving DecidableEq

/-- `TelegramAdapter.start`, with or without an updater. An `initialize` that fails is
taken to leave nothing open. -/
def startBot (updater : Bool) : Program BotStep Bot PyError Unit := do
  perform .initialise .osError (change fun bot => { bot with initialized := true })
  perform .start .osError (change fun bot => { bot with running := true })
  if updater then
    perform .startPolling .osError (change fun bot => { bot with polling := true })
  else raise (.runtimeError "the Telegram application was built without an updater")

/-- The steps of `TelegramAdapter.stop`; each is attempted. -/
def stopBot (bot : Bot) : List Resource :=
  (if bot.polling then [.polling] else []) ++
    (if bot.running then [.application] else []) ++ [.botResources]

/-- All that decides how a start-up goes. The bot is asked to stop in the state
it is found in. -/
structure Weather where
  parent : String
  stamp : String
  files : Directory MessageTable
  tasks : StoreStatements.TaskStore.TaskFile
  facts : Facts.FactTable
  toolState : ToolState.ToolStateTable
  updater : Bool
  found : Bot
  openingMemory : Faults Call
  closingMemory : Faults Call
  openingTasks : Faults Transactions.Site
  openingFacts : Faults Transactions.Site
  openingToolState : Faults Transactions.Site
  startingBot : Faults BotStep

def openedMemory (w : Weather) : Exit PyError Unit × Machine MessageTable :=
  openMemory w.parent w.stamp (failing w.openingMemory) ⟨w.files,none⟩

def openedStore {σ : Type} (faults : Faults Transactions.Site) (table : σ) :
    Exit PyError Unit × Transactions.Connection σ :=
  (StoreStatements.openStore : StoreStatements.Method σ Unit) (failing faults) ⟨table,none,false⟩

def startedBot (w : Weather) : Exit PyError Unit × Bot :=
  startBot w.updater (failing w.startingBot) ⟨false,false,false⟩

def held (resource : Resource) (acquired : Bool) : List Resource :=
  if acquired then [resource] else []

def storeOpening {σ : Type} (component : Component) (faults : Faults Transactions.Site)
    (table : σ) : Opening PyError Resource where
  exit := (openedStore faults table).1
  acquired := held (.connection component) (openedStore faults table).2.session.isSome

def opening (w : Weather) : Component → Opening PyError Resource
  | .modelClient => ⟨.returned (),[.modelClient]⟩
  | .memory => ⟨(openedMemory w).1,
      held (.connection .memory) (openedMemory w).2.connection.isSome⟩
  | .tasks => storeOpening .tasks w.openingTasks w.tasks
  | .facts => storeOpening .facts w.openingFacts w.facts
  | .toolState => storeOpening .toolState w.openingToolState w.toolState
  | .telegram => ⟨(startedBot w).1,held .botResources (startedBot w).2.initialized ++
      held .application (startedBot w).2.running ++ held .polling (startedBot w).2.polling⟩

/-- The snapshot that `SqliteConversationMemory.close` takes first is through. -/
def SnapshotReturns (w : Weather) : Prop :=
  (writeSnapshot (failing w.closingMemory) (openedMemory w).2).1 = .returned ()

instance (w : Weather) : Decidable (SnapshotReturns w) :=
  inferInstanceAs (Decidable (_ = _))

def closing (w : Weather) : Component → List Resource
  | .modelClient => [.modelClient]
  | .memory => held (.connection .memory)
      ((openedMemory w).2.connection.isSome && decide (SnapshotReturns w))
  | .tasks => held (.connection .tasks) (openedStore w.openingTasks w.tasks).2.session.isSome
  | .facts => held (.connection .facts) (openedStore w.openingFacts w.facts).2.session.isSome
  | .toolState => held (.connection .toolState)
      (openedStore w.openingToolState w.toolState).2.session.isSome
  | .telegram => stopBot w.found

def order : List Component := [.memory,.tasks,.facts,.toolState,.telegram]

/-- The model client exists from construction and is registered first. -/
def lifespan (w : Weather) : Report PyError Resource :=
  let report := starting (opening w) (closing w) [.modelClient] order
  { report with acquired := .modelClient::report.acquired }

def failsAt (w : Weather) : Option Component :=
  order.find? fun component => (opening w component).exit ≠ .returned ()

/-- The part of `SqliteConversationMemory.open` up to its connection. -/
def connectMemory (parent stamp : String) : Action MessageTable Unit := do
  makeDirectory parent
  verify stamp
  connect

/-- The steps up to the one that acquires something are through. -/
def Acquires (w : Weather) : Component → Prop
  | .modelClient => True
  | .memory =>
    (connectMemory w.parent w.stamp (failing w.openingMemory) ⟨w.files,none⟩).1 = .returned ()
  | .tasks => w.openingTasks .mkdir = none ∧ w.openingTasks .connect = none
  | .facts => w.openingFacts .mkdir = none ∧ w.openingFacts .connect = none
  | .toolState => w.openingToolState .mkdir = none ∧ w.openingToolState .connect = none
  | .telegram => w.startingBot .initialise = none

section
variable {σ : Type} {I : Machine σ → Prop}

theorem keeps_moveSidecar (h : ∀ file, Ignores I file) (sidecar quarantined : FileName) :
    Keeps I (moveSidecar sidecar quarantined) := by
  refine keeps_bind (keeps_present _ _) fun found => ?_
  split
  · exact keeps_move (h _) (h _) _
  · exact keeps_pure _

theorem keeps_quarantine (h : ∀ file, Ignores I file) (stamp : String) :
    Keeps I (quarantine stamp) := by
  apply keeps_exceptOSError
  · exact keeps_bind (keeps_move (h _) (h _) _) fun _ =>
      keeps_bind (keeps_moveSidecar h _ _) fun _ =>
        keeps_bind (keeps_moveSidecar h _ _) fun _ => keeps_pure _
  · exact fun _ => keeps_pure _

variable [EmptyCollection σ]

theorem keeps_copy2 (source : FileName) {target : FileName} (h : Ignores I target) :
    Keeps I (copy2 source target) := by
  refine keeps_bind (keeps_look _) fun content => ?_
  cases content with
  | none => exact keeps_raise _
  | some content =>
    exact keeps_bind (keeps_writeOut h _ _ _) fun _ => keeps_perform (keeps_pure _)

theorem keeps_restoreFrom (h : ∀ file, Ignores I file) (candidates : List FileName) :
    Keeps I (restoreFrom candidates) := by
  induction candidates with
  | nil => exact keeps_pure _
  | cons candidate older ih =>
    refine keeps_bind (keeps_present _ _) fun found => ?_
    split
    · refine keeps_bind (keeps_fileIsHealthy (h _) (released_ignored (h _) (h _) _)) fun healthy => ?_
      split
      · refine keeps_bind (keeps_exceptOSError (keeps_bind (keeps_copy2 candidate (h _)) fun _ =>
          keeps_pure _) fun _ => keeps_pure _) fun restored => ?_
        split
        · exact keeps_pure _
        · exact ih
      · exact ih
    · exact ih

/-- Whatever does not depend on the files is the same after the self-repair. -/
theorem keeps_verify (h : ∀ file, Ignores I file) (stamp : String) : Keeps I (verify stamp) := by
  refine keeps_bind (keeps_present _ _) fun found => ?_
  split
  · refine keeps_bind (keeps_fileIsHealthy (h _) (released_ignored (h _) (h _) _)) fun healthy => ?_
    split
    · exact keeps_pure _
    · refine keeps_bind (keeps_quarantine h stamp) fun moved => ?_
      split
      · exact keeps_restoreFrom h _
      · exact keeps_pure _
  · exact keeps_pure _

end

/-- What `open` does with its connection once it has one. -/
def prepareMemory : Action MessageTable Unit := do
  query .journalMode (fun _ => ())
  query .ddl (fun _ => ())
  commit .commitDdl
  writeSnapshot

theorem openMemory_split (parent stamp : String) (plan : Plan Call) (m : Machine MessageTable) :
    openMemory parent stamp plan m = (do connectMemory parent stamp; prepareMemory) plan m := by
  simp only [openMemory, connectMemory, prepareMemory, connectAndPrepare, bind_apply]
  rcases makeDirectory parent plan m with ⟨_ | _ | _,m1⟩
  · dsimp only
    rcases verify stamp plan m1 with ⟨_ | _ | _,m2⟩
    · dsimp only
      rcases connect plan m2 with ⟨_ | _ | _,m3⟩ <;> try rfl
      dsimp only
      rcases query .journalMode (fun _ => ()) plan m3 with ⟨_ | _ | _,m4⟩ <;> try rfl
      dsimp only
      rcases query .ddl (fun _ => ()) plan m4 with ⟨_ | _ | _,m5⟩ <;> rfl
    · rfl
    · rfl
  · rfl
  · rfl

theorem ignores_files (P : Option (Connection MessageTable) → Prop) (file : FileName) :
    Ignores (fun m : Machine MessageTable => P m.connection) file := fun _ _ h => h

theorem connectMemory_holds (parent stamp : String) (plan : Plan Call) (m : Machine MessageTable)
    (hshut : m.connection = none) :
    ((connectMemory parent stamp plan m).1 = .returned () ∧
      (connectMemory parent stamp plan m).2.connection.isSome = true) ∨
    ((connectMemory parent stamp plan m).1 ≠ .returned () ∧
      (connectMemory parent stamp plan m).2.connection = none) := by
  let Shut : Machine MessageTable → Prop := fun m => m.connection = none
  have hmkdir : Keeps Shut (makeDirectory parent) :=
    keeps_exceptOSError (keeps_perform (keeps_pure _)) fun _ => keeps_raise _
  have hverify : Keeps Shut (verify stamp) := keeps_verify (ignores_files (· = none)) _
  have h1 := hmkdir plan m hshut
  rw [connectMemory, bind_apply]
  rcases hfirst : makeDirectory parent plan m with ⟨_ | _ | _,m1⟩ <;> rw [hfirst] at h1
  · have h2 := hverify plan m1 h1
    dsimp only
    rw [bind_apply]
    rcases hsecond : verify stamp plan m1 with ⟨_ | _ | _,m2⟩ <;> rw [hsecond] at h2
    · dsimp only
      rw [connect, perform_apply]
      cases plan .connect with
      | runs => exact .inl ⟨rfl,rfl⟩
      | fails text => exact .inr ⟨by simp,h2⟩
      | dies => exact .inr ⟨by simp,h2⟩
    · exact .inr ⟨by simp,h2⟩
    · exact .inr ⟨by simp,h2⟩
  · exact .inr ⟨by simp,h1⟩
  · exact .inr ⟨by simp,h1⟩

theorem keeps_prepareMemory :
    Keeps (fun m : Machine MessageTable => m.connection.isSome = true) prepareMemory := by
  have hfiles := ignores_files fun connection => connection.isSome = true
  have hquery : ∀ site : Call, Keeps (fun m : Machine MessageTable =>
      m.connection.isSome = true) (query site fun _ => ()) := fun site =>
    keeps_perform (keeps_onView fun _ => keeps_pure _)
  refine keeps_bind (hquery _) fun _ => keeps_bind (hquery _) fun _ => keeps_bind ?_ fun _ =>
    keeps_writeSnapshot (hfiles _) (hfiles _) (hfiles _)
  refine keeps_perform (keeps_change fun m hm => ?_)
  rcases hc : m.connection with _ | ⟨_ | pending⟩ <;> simp_all

/-- Nothing is held before the connection is made, and nothing gives it back. -/
theorem openMemory_acquires (w : Weather) :
    (openedMemory w).2.connection.isSome = true ↔ Acquires w .memory := by
  have hholds := connectMemory_holds w.parent w.stamp (failing w.openingMemory) ⟨w.files,none⟩ rfl
  rw [openedMemory, openMemory_split, bind_apply, Acquires]
  rcases hconnect : connectMemory w.parent w.stamp (failing w.openingMemory) ⟨w.files,none⟩ with
    ⟨exit,m⟩
  rw [hconnect] at hholds
  rcases hholds with ⟨hreturned,hopen⟩ | ⟨hnot,hshut⟩
  · obtain rfl : exit = .returned () := hreturned
    exact iff_of_true (keeps_prepareMemory _ m hopen) rfl
  · cases exit with
    | returned => exact absurd rfl hnot
    | raised e => exact iff_of_false (by simp [show m.connection = none from hshut]) hnot
    | killed => exact iff_of_false (by simp [show m.connection = none from hshut]) hnot

theorem openStore_acquires {σ : Type} (faults : Faults Transactions.Site) (table : σ) :
    ((openedStore faults table).2.session.isSome = true ↔
      faults .mkdir = none ∧ faults .connect = none) ∧
    ((openedStore faults table).1 = .returned () →
      (openedStore faults table).2.session.isSome = true) := by
  cases h1 : faults .mkdir <;> cases h2 : faults .connect <;> cases h3 : faults .journalMode <;>
    cases h4 : faults .schema <;> cases h5 : faults .commitSchema <;>
    simp [openedStore, StoreStatements.openStore, bind_apply, perform_apply, failing,
      Transactions.Connection.opened, Transactions.Connection.settled, h1, h2, h3, h4, h5]

theorem storeOpening_acquired {σ : Type} (component : Component)
    (faults : Faults Transactions.Site) (table : σ) :
    (storeOpening component faults table).acquired = [] ↔
      ¬(faults .mkdir = none ∧ faults .connect = none) := by
  rw [← (openStore_acquires faults table).1, storeOpening, held]
  cases (openedStore faults table).2.session.isSome <;> simp

theorem startBot_acquired (w : Weather) :
    (opening w .telegram).acquired = [] ↔ w.startingBot .initialise ≠ none := by
  cases h1 : w.startingBot .initialise <;> cases h2 : w.startingBot .start <;>
    cases h3 : w.startingBot .startPolling <;> cases h4 : w.updater <;>
    simp [opening, startedBot, startBot, bind_apply, perform_apply, failing, held, h1, h2, h3, h4]

/-- The component that fails holds something exactly when it came that far. -/
theorem failed_acquired (w : Weather) (component : Component) (e : PyError)
    (h : (opening w component).exit = .raised e) :
    (opening w component).acquired = [] ↔ ¬Acquires w component := by
  cases component with
  | modelClient => cases h
  | memory =>
    rw [← openMemory_acquires w]
    simp only [opening, held]
    cases (openedMemory w).2.connection.isSome <;> simp
  | tasks => exact storeOpening_acquired _ _ _
  | facts => exact storeOpening_acquired _ _ _
  | toolState => exact storeOpening_acquired _ _ _
  | telegram => exact startBot_acquired w

/-- A component that was opened asks for all it took, unless it is the memory
and its snapshot raises first. -/
theorem closing_opened (w : Weather) (component : Component)
    (h : (opening w component).exit = .returned ()) (hbot : component ≠ .telegram) :
    (closing w component).Sublist (opening w component).acquired.reverse ∧
      (closing w component = (opening w component).acquired.reverse ↔
        (component = .memory → SnapshotReturns w)) := by
  cases component with
  | modelClient => simp [opening, closing]
  | telegram => exact absurd rfl hbot
  | memory =>
    have hopen : (openedMemory w).2.connection.isSome = true := by
      rw [openMemory_acquires]
      simp only [opening, openedMemory] at h
      rw [openMemory_split, bind_apply] at h
      rw [Acquires]
      rcases hconnect : connectMemory w.parent w.stamp (failing w.openingMemory)
        ⟨w.files,none⟩ with ⟨_ | _ | _,m⟩
      · rfl
      · rw [hconnect] at h
        cases h
      · rw [hconnect] at h
        cases h
    by_cases hsnapshot : SnapshotReturns w <;> simp [opening, closing, held, hopen, hsnapshot]
  | tasks => simp [opening, closing, storeOpening, held, (openStore_acquires _ _).2 h]
  | facts => simp [opening, closing, storeOpening, held, (openStore_acquires _ _).2 h]
  | toolState => simp [opening, closing, storeOpening, held, (openStore_acquires _ _).2 h]

theorem order_split (front back : List Component) (failed : Component)
    (h : order = front ++ failed::back) :
    .telegram ∉ front ∧ (.memory ∈ front ↔ failed ≠ .memory) := by
  have hlength : front.length < 5 := by
    have := congrArg List.length h
    simp only [order, List.length_cons, List.length_nil, List.length_append] at this
    omega
  have hfront : front = order.take front.length := by
    rw [h, List.take_left']
    rfl
  have hfailed : order[front.length]? = some failed := by
    rw [h]
    simp
  generalize front.length = n at hlength hfront hfailed
  subst hfront
  rcases n with _ | _ | _ | _ | _ | n
  · obtain rfl := Option.some.inj hfailed
    decide
  · obtain rfl := Option.some.inj hfailed
    decide
  · obtain rfl := Option.some.inj hfailed
    decide
  · obtain rfl := Option.some.inj hfailed
    decide
  · obtain rfl := Option.some.inj hfailed
    decide
  · omega

def firstStart (openingTasks : Faults Transactions.Site) : Weather where
  parent := "/opt/emma/data"
  stamp := "20260901-030000"
  files := fun _ => none
  tasks := ⟨∅,none⟩
  facts := ∅
  toolState := ∅
  updater := true
  found := ⟨true,true,true⟩
  openingMemory := fun _ => none
  closingMemory := fun _ => none
  openingTasks := openingTasks
  openingFacts := fun _ => none
  openingToolState := fun _ => none
  startingBot := fun _ => none

def failingAt (site : Transactions.Site) (text : String) : Faults Transactions.Site :=
  fun other => if other = site then some text else none

/-- When start-up raises, all that was acquired is asked to close, once and the
newest first, exactly if the component that failed had acquired nothing and the
memory, where it was open, gets past the snapshot it takes before it closes. -/
theorem start_up_unwinds_iff (w : Weather) (e : PyError) (h : (lifespan w).exit = .raised e) :
    ∃ failed, failsAt w = some failed ∧ (opening w failed).exit = .raised e ∧
      ((lifespan w).asked = (lifespan w).acquired.reverse ↔
        ¬Acquires w failed ∧ (failed = .memory ∨ SnapshotReturns w)) := by
  obtain ⟨front,failed,back,horder,hfront,hfailed,hacquired,hasked⟩ :=
    starting_raised (opening w) (closing w) order [.modelClient] e h
  obtain ⟨hbot,hmemory⟩ := order_split front back failed horder
  have hclosing := fun c hc => closing_opened w c (hfront c hc) fun hc' => hbot (hc' ▸ hc)
  refine ⟨failed,?_,hfailed,?_⟩
  · have hnone : front.find? (fun component => (opening w component).exit ≠ .returned ()) =
        none := by
      apply List.find?_eq_none.mpr
      intro c hc
      simp [hfront c hc]
    rw [failsAt, horder, List.find?_append, hnone, Option.none_or, List.find?_cons_of_pos]
    simp [hfailed]
  · have hall : (lifespan w).asked = (lifespan w).acquired.reverse ↔
        front.reverse.flatMap (closing w) =
          ((front.flatMap fun c => (opening w c).acquired) ++ (opening w failed).acquired).reverse
        := by
      simp only [lifespan, hacquired, hasked, List.flatMap_append, List.reverse_cons]
      exact List.append_left_inj _
    rw [hall, unwound_iff front failed fun c hc => (hclosing c hc).1,
      failed_acquired w failed e hfailed]
    apply and_congr_right
    intro _
    constructor
    · intro hclose
      by_cases hfirst : failed = .memory
      · exact .inl hfirst
      · have hin := hmemory.mpr hfirst
        exact .inr (((hclosing _ hin).2.mp (hclose _ hin)) rfl)
    · intro hclose c hc
      apply (hclosing c hc).2.mpr
      rintro rfl
      exact hclose.resolve_left (hmemory.mp hc)

theorem refused_connection_unwinds :
    (lifespan (firstStart (failingAt .connect "unable to open database file"))).exit =
      .raised (.databaseError "unable to open database file") ∧
    (lifespan (firstStart (failingAt .connect "unable to open database file"))).asked =
      (lifespan (firstStart (failingAt .connect "unable to open database file"))).acquired.reverse
    := by
  have hexit : (lifespan (firstStart (failingAt .connect "unable to open database file"))).exit =
      .raised (.databaseError "unable to open database file") := by decide
  obtain ⟨failed,hfailed,-,hiff⟩ := start_up_unwinds_iff _ _ hexit
  have htasks : failsAt (firstStart (failingAt .connect "unable to open database file")) =
      some .tasks := by decide
  obtain rfl : .tasks = failed := Option.some.inj (htasks.symm.trans hfailed)
  exact ⟨hexit,hiff.mpr ⟨fun h => absurd h.2 (by decide),.inr (by decide)⟩⟩

theorem locked_schema_is_left_open :
    (lifespan (firstStart (failingAt .schema "database is locked"))).exit =
      .raised (.databaseError "database is locked") ∧
    (lifespan (firstStart (failingAt .schema "database is locked"))).acquired =
      [.modelClient,.connection .memory,.connection .tasks] ∧
    (lifespan (firstStart (failingAt .schema "database is locked"))).asked =
      [.connection .memory,.modelClient] := by
  decide

end Emma.Lifespan

import Emma.ChunkDelivery
import Emma.TurnMemory

/-!
# What was said and what is remembered

Take the network away and the adapter is a conversation: an update that is let
in is a turn, and what is said is the typing indicator and the pieces of the
answer. On any network the adapter does just that, and the store remembers the
answers that were said.
-/

set_option autoImplicit false

namespace Emma.Transcripts
open Emma.Python Emma.Numbers Emma.ConversationMemory Emma.LanguageModel Emma.Orchestrator
open Emma.WorkingStores Emma.TurnMemory Emma.Telegram Emma.ChunkDelivery

section
variable {ω μ : Type}

inductive Event (ω μ : Type) where
  | turned (chat : ℤ) (request : AssistantRequest) (turn : Turn ω μ)
  | apologised (chat : ℤ)

namespace Event

def request : Event ω μ → Option AssistantRequest
  | turned _ request _ => some request
  | apologised _ => none

def turn : Event ω μ → Option (AssistantRequest × Turn ω μ)
  | turned _ request turn => some (request,turn)
  | apologised _ => none

def said : Event ω μ → List (ℤ × Payload)
  | turned chat _ turn => (chat,.typing)::match turn.outcome with
    | .error _ => []
    | .ok response => (splitMessage response.text maxMessageLength).map fun text =>
        (chat,.text text)
  | apologised chat => [(chat,.text fallbackInternal)]

end Event

def admitted (allowedUserId : ℤ) (update : Update) : Option (ℤ × AssistantRequest) :=
  match update.effectiveMessage, update.effectiveUser, update.effectiveChat with
  | some (some text), some user, some chat =>
    if text = "" ∨ user ≠ allowedUserId then none
    else some (chat,⟨text,toString user,toString chat⟩)
  | _, _, _ => none

def consoled (allowedUserId : ℤ) (update : Option Update) : Option ℤ :=
  update.bind fun update => match update.effectiveChat, update.effectiveUser with
    | some chat, some user => if user = allowedUserId then some chat else none
    | _, _ => none

def converse (a : TelegramAdapter ω μ) : List Incoming → Session ω μ →
    List (Event ω μ) × Session ω μ
  | [], s => ([],s)
  | .message update::rest, s => match admitted a.allowedUserId update with
    | none => converse a rest s
    | some (chat,request) =>
      let turn := a.router.handle request s
      let (events,last) := converse a rest turn.session
      (.turned chat request turn::events,last)
  | .fault update::rest, s =>
    let (events,last) := converse a rest s
    match consoled a.allowedUserId update with
    | none => (events,last)
    | some chat => (.apologised chat::events,last)

def told (sending : Sending) : ℤ × Payload := (sending.chat,sending.payload)

theorem deliver_rest (network : Network) (chat : ℤ) (texts : List String) (s : Exchange ω μ) :
    (TelegramAdapter.deliver network chat texts s).session = s.session ∧
      (TelegramAdapter.deliver network chat texts s).passed = s.passed := by
  induction texts generalizing s with
  | nil => exact ⟨rfl,rfl⟩
  | cons text texts ih => exact ih (TelegramAdapter.send network chat (.text text) s).2

theorem answered_told (network : Network) (chat : ℤ) (texts : List String) (asked : ℕ) :
    (answered network chat texts asked).map told = texts.map fun text => (chat,.text text) := by
  induction texts generalizing asked with
  | nil => rfl
  | cons text texts ih =>
    rw [answered, List.map_cons, List.map_cons, ih]
    rfl

theorem admitted_some (allowedUserId : ℤ) (update : Update) (chat : ℤ)
    (request : AssistantRequest) (h : admitted allowedUserId update = some (chat,request)) :
    ∃ text, text ≠ "" ∧ update = ⟨some (some text),some allowedUserId,some chat⟩ ∧
      request = ⟨text,toString allowedUserId,toString chat⟩ := by
  obtain ⟨message,user,place⟩ := update
  rcases message with _ | _ | text
  · simp [admitted] at h
  · simp [admitted] at h
  cases user with
  | none => simp [admitted] at h
  | some user =>
    cases place with
    | none => simp [admitted] at h
    | some place =>
      simp only [admitted] at h
      split at h
      · cases h
      · rename_i hin
        rw [not_or, not_not] at hin
        obtain ⟨hsome,rfl⟩ := hin
        obtain ⟨rfl,rfl⟩ := Prod.mk.inj (Option.some.inj h)
        exact ⟨text,hsome,rfl,rfl⟩

theorem onTextMessage_ignored (a : TelegramAdapter ω μ) (network : Network) (update : Update)
    (s : Exchange ω μ) (h : admitted a.allowedUserId update = none) :
    (a.onTextMessage network update s).2 = s := by
  obtain ⟨message,user,place⟩ := update
  rcases message with _ | _ | text
  · rfl
  · rfl
  cases user with
  | none => rfl
  | some user =>
    cases place with
    | none => rfl
    | some place =>
      simp only [admitted] at h
      split at h
      · rename_i hout
        rcases hout with hempty | hstranger
        · simp [TelegramAdapter.onTextMessage, hempty]
        · simp [TelegramAdapter.onTextMessage, hstranger]
      · cases h

/-- An update that is let in is a turn, of which everything is said. -/
theorem onTextMessage_admitted (a : TelegramAdapter ω μ) (network : Network) (update : Update)
    (s : Exchange ω μ) (chat : ℤ) (request : AssistantRequest)
    (h : admitted a.allowedUserId update = some (chat,request)) :
    (a.onTextMessage network update s).2.session = (a.router.handle request s.session).session ∧
      (a.onTextMessage network update s).2.passed = s.passed ++ [request] ∧
      (a.onTextMessage network update s).2.sendings.map told = s.sendings.map told ++
        (Event.turned chat request (a.router.handle request s.session)).said := by
  obtain ⟨text,hsome,rfl,rfl⟩ := admitted_some a.allowedUserId update chat request h
  rw [TelegramAdapter.onTextMessage]
  dsimp only [TelegramAdapter.showTyping, TelegramAdapter.record, Event.said]
  rw [if_neg hsome, if_neg (by simp)]
  generalize a.router.handle _ s.session = turn
  cases turn.outcome with
  | error e => exact ⟨rfl,rfl,by simp [told]⟩
  | ok response =>
    dsimp only
    generalize hbegun : (Exchange.mk turn.session
      (s.passed ++ [⟨text,toString a.allowedUserId,toString chat⟩])
      (s.sendings ++ [⟨chat,.typing,[network s.asked]⟩]) (s.asked+[network s.asked].length)) = begun
    obtain ⟨hsession,hpassed⟩ := deliver_rest network chat
      (splitMessage response.text maxMessageLength) begun
    refine ⟨hsession.trans (by rw [← hbegun]),hpassed.trans (by rw [← hbegun]),?_⟩
    rw [deliver_sendings, List.map_append, answered_told, ← hbegun]
    simp [told]

theorem onError_consoled (a : TelegramAdapter ω μ) (network : Network) (update : Option Update)
    (s : Exchange ω μ) :
    (a.onError network update s).session = s.session ∧
      (a.onError network update s).passed = s.passed ∧
      (a.onError network update s).sendings.map told = s.sendings.map told ++
        (consoled a.allowedUserId update).toList.map fun chat => (chat,.text fallbackInternal) := by
  cases update with
  | none => exact ⟨rfl,rfl,by simp [TelegramAdapter.onError, consoled]⟩
  | some update =>
    obtain ⟨message,user,place⟩ := update
    cases place with
    | none => exact ⟨rfl,rfl,by simp [TelegramAdapter.onError, consoled]⟩
    | some chat =>
      cases user with
      | none => exact ⟨rfl,rfl,by simp [TelegramAdapter.onError, consoled]⟩
      | some user =>
        by_cases huser : user = a.allowedUserId
        · simp [TelegramAdapter.onError, consoled, huser, TelegramAdapter.send,
            TelegramAdapter.record, told]
        · simp [TelegramAdapter.onError, consoled, huser]

theorem run_converse (a : TelegramAdapter ω μ) (network : Network) (incoming : List Incoming)
    (s : Exchange ω μ) :
    (run a network incoming s).session = (converse a incoming s.session).2 ∧
      (run a network incoming s).passed =
        s.passed ++ (converse a incoming s.session).1.filterMap Event.request ∧
      (run a network incoming s).sendings.map told =
        s.sendings.map told ++ (converse a incoming s.session).1.flatMap Event.said := by
  induction incoming generalizing s with
  | nil => exact ⟨rfl,by simp [run, converse],by simp [run, converse]⟩
  | cons e rest ih =>
    obtain ⟨hsession,hpassed,htold⟩ := ih (receive a network s e)
    change (run a network rest (receive a network s e)).session = _ ∧
      (run a network rest (receive a network s e)).passed = _ ∧
      (run a network rest (receive a network s e)).sendings.map told = _
    rw [hsession, hpassed, htold]
    cases e with
    | message update =>
      dsimp only [receive, converse]
      cases hcase : admitted a.allowedUserId update with
      | none =>
        rw [onTextMessage_ignored a network update s hcase]
        exact ⟨rfl,rfl,rfl⟩
      | some found =>
        obtain ⟨chat,request⟩ := found
        obtain ⟨hsession1,hpassed1,htold1⟩ :=
          onTextMessage_admitted a network update s chat request hcase
        dsimp only
        rw [hsession1, hpassed1, htold1]
        exact ⟨rfl,by simp [Event.request],by simp⟩
    | fault update =>
      obtain ⟨hsession1,hpassed1,htold1⟩ := onError_consoled a network update s
      dsimp only [receive, converse]
      rw [hsession1, hpassed1, htold1]
      cases consoled a.allowedUserId update with
      | none => exact ⟨rfl,rfl,by simp⟩
      | some chat =>
        refine ⟨rfl,?_,?_⟩
        · rw [List.filterMap_cons_none]
          rfl
        · rw [List.flatMap_cons, Event.said]
          simp

theorem converse_turns (a : TelegramAdapter ω μ) (incoming : List Incoming) (s : Session ω μ) :
    runTurns a.router ((converse a incoming s).1.filterMap Event.request) s =
      ((converse a incoming s).1.filterMap Event.turn,(converse a incoming s).2) := by
  induction incoming generalizing s with
  | nil => rfl
  | cons e rest ih =>
    cases e with
    | message update =>
      rw [converse]
      cases admitted a.allowedUserId update with
      | none => exact ih s
      | some found =>
        obtain ⟨chat,request⟩ := found
        have hrest := ih (a.router.handle request s).session
        dsimp only [List.filterMap_cons, Event.request, Event.turn]
        rw [runTurns]
        dsimp only
        rw [hrest]
    | fault update =>
      rw [converse]
      have hrest := ih s
      cases consoled a.allowedUserId update with
      | none => exact hrest
      | some chat => exact hrest

/-- What goes out to the chats, and the state the process is left in, are those of
the conversation on any network; and a store that was empty remembers of every
conversation the end of its transcript: the texts that were taken up with the answers
that were said, unless they were degraded. -/
theorem said_and_remembered {maxMessages : ℕ+} (store : WorkingStore maxMessages μ)
    (a : TelegramAdapter ω μ) (incoming : List Incoming) (session : Session ω μ) :
    let events := (converse a incoming session).1
    ∀ network, let last := run a network incoming (opened session)
      (last.session = (converse a incoming session).2 ∧
        last.passed = events.filterMap Event.request ∧
        last.sendings.map told = events.flatMap Event.said) ∧
      (a.router.memory = store.toStore → FiniteWaits a.router →
        store.Holds session.memory (fun _ => []) →
        ∀ c, a.router.memory.getHistory c last.session.memory =
          .ok (shown maxMessages (transcript c (events.filterMap Event.turn)))) := by
  intro events network last
  obtain ⟨hsession,hpassed,htold⟩ := run_converse a network incoming (opened session)
  refine ⟨⟨hsession,hpassed,htold⟩,fun hstore hwaits hempty c => ?_⟩
  have hturns := converse_turns a incoming session
  obtain ⟨hholds,-,-⟩ := runTurns_remembers store a.router hstore hwaits
    (events.filterMap Event.request) session (fun _ => []) hempty
  rw [hturns] at hholds
  rw [hstore, hsession]
  exact store.shows _ _ c hholds

end

def afternoon : List Incoming :=
  [.message ⟨some (some "ciao"),some 42,some 42⟩,.message ⟨some (some "ehi"),some 7,some 7⟩,
    .message ⟨some (some "ci sei?"),some 42,some 42⟩]

theorem moody_waits : FiniteWaits moody := by
  intro request up w' text wait h
  cases up with
  | true => simp [moody] at h
  | false =>
    obtain ⟨-,rfl⟩ : "rate limited" = text ∧ PyFloat.finite 30 = wait := by
      simpa [moody] using congrArg Prod.fst h
    rfl

/-- None of the messages arrived, and both questions are remembered. -/
theorem afternoon_said_and_remembered :
    (run ⟨42,moody⟩ (fun _ => .transient false) afternoon
        (opened ⟨⟨0,0,none,none⟩,.create 20,true⟩)).passed =
      [⟨"ciao","42","42"⟩,⟨"ci sei?","42","42"⟩] ∧
    ∀ c, inMemoryStore.getHistory c (run ⟨42,moody⟩ (fun _ => .transient false) afternoon
        (opened ⟨⟨0,0,none,none⟩,.create 20,true⟩)).session.memory =
      .ok (shown 20 (transcript c ((converse ⟨42,moody⟩ afternoon
        ⟨⟨0,0,none,none⟩,.create 20,true⟩).1.filterMap Event.turn))) := by
  have h := said_and_remembered (workingInMemory 20) ⟨42,moody⟩ afternoon
    ⟨⟨0,0,none,none⟩,.create 20,true⟩ fun _ => .transient false
  exact ⟨h.1.2.1.trans rfl,h.2 rfl moody_waits (workingInMemory_reaches 20 [])⟩

end Emma.Transcripts

import Emma.Orchestrator
import Mathlib.Data.PNat.Defs

/-!
# The adapter to Telegram

An update is checked against the whitelist, handed to the router, and answered
in pieces. Every request to Telegram may be accepted without the adapter being
told so. What the adapter sends is kept with the attempts it took; logging and
the pauses between attempts are left out.
-/

set_option autoImplicit false

namespace Emma.Telegram
open Emma.Python Emma.LanguageModel Emma.Orchestrator

def maxMessageLength : ℕ+ := 4000

def defaultSendAttempts : ℕ := 3

def fallbackInternal : String :=
  "Ho avuto un problema interno e non sono riuscita a rispondere. L'errore e' stato registrato."

inductive Attempt where
  | acknowledged
  | badRequest
  | transient (accepted : Bool)
  | otherError (accepted : Bool)
  deriving DecidableEq

def Attempt.accepted : Attempt → Bool
  | acknowledged => true
  | badRequest => false
  | transient accepted => accepted
  | otherError accepted => accepted

/-- What the requests of a run come to, in the order they are made. -/
abbrev Network := ℕ → Attempt

inductive Payload where
  | typing
  | text (content : String)
  deriving DecidableEq

structure Sending where
  chat : ℤ
  payload : Payload
  attempts : List Attempt
  deriving DecidableEq

/-! Cutting the answer. -/

/-- `str.rfind` of a line end. -/
def rfindNewline (window : List Char) : Option ℕ :=
  (window.reverse.findIdx? (· = '\n')).map fun i => window.length-1-i

def cut (limit : ℕ) (remaining : List Char) : ℕ × ℕ :=
  let window := remaining.take limit
  match rfindNewline window with
  | none => (limit,limit)
  | some found =>
    if found < limit/2 then (limit,limit)
    else if 0 < found ∧ window[found-1]? = some '\n' then (found-1,found)
    else (found,found+1)

theorem cut_forward (limit : ℕ+) (remaining : List Char) : 0 < (cut limit remaining).2 := by
  have hlimit := limit.pos
  unfold cut
  dsimp only
  split
  · exact hlimit
  · split
    · exact hlimit
    · split
      · rename_i hstep
        exact hstep.1
      · exact Nat.succ_pos _

def chunks (limit : ℕ+) (remaining : List Char) : List String :=
  if limit < remaining.length then
    String.ofList ((remaining.take (cut limit remaining).1).rdropWhile isSpace)::
      chunks limit (remaining.drop (cut limit remaining).2)
  else [String.ofList remaining]
termination_by remaining.length
decreasing_by
  have hforward := cut_forward limit remaining
  rw [List.length_drop]
  omega

def splitMessage (text : String) (limit : ℕ+) : List String :=
  if text = "" then [""] else chunks limit text.toList

section
variable {ω μ : Type}

structure TelegramAdapter (ω μ : Type) where
  allowedUserId : ℤ
  router : Router ω μ

structure Update where
  effectiveMessage : Option (Option String)
  effectiveUser : Option ℤ
  effectiveChat : Option ℤ

/-- What the adapter has done: the router's session, what was passed to it, what
was sent, and how many requests that took. -/
structure Exchange (ω μ : Type) where
  session : Session ω μ
  passed : List AssistantRequest
  sendings : List Sending
  asked : ℕ

namespace TelegramAdapter

def attempts (network : Network) : ℕ → ℕ → List Attempt
  | 0, _ => []
  | left+1, asked => match network asked with
    | .transient accepted => .transient accepted::attempts network left (asked+1)
    | outcome => [outcome]

def record (chat : ℤ) (payload : Payload) (made : List Attempt) (s : Exchange ω μ) :
    Exchange ω μ :=
  { s with
    sendings := s.sendings ++ [⟨chat,payload,made⟩]
    asked := s.asked+made.length }

/-- `_send`: whether the last attempt was acknowledged, and what was done. -/
def send (network : Network) (chat : ℤ) (payload : Payload) (s : Exchange ω μ) :
    Bool × Exchange ω μ :=
  let made := attempts network defaultSendAttempts s.asked
  (made.getLast? = some .acknowledged,record chat payload made s)

def showTyping (network : Network) (chat : ℤ) (s : Exchange ω μ) : Exchange ω μ :=
  record chat .typing [network s.asked] s

/-- The chunks one after another, whatever became of the ones before. -/
def deliver (network : Network) (chat : ℤ) (texts : List String) (s : Exchange ω μ) :
    Exchange ω μ :=
  texts.foldl (fun s text => (send network chat (.text text) s).2) s

def onTextMessage (a : TelegramAdapter ω μ) (network : Network) (update : Update)
    (s : Exchange ω μ) : Option PyError × Exchange ω μ :=
  match update.effectiveMessage, update.effectiveUser, update.effectiveChat with
  | some (some text), some user, some chat =>
    if text = "" then (none,s)
    else if user ≠ a.allowedUserId then (none,s)
    else
      let s := showTyping network chat s
      let request : AssistantRequest := ⟨text,toString user,toString chat⟩
      let turn := a.router.handle request s.session
      let s := { s with session := turn.session, passed := s.passed ++ [request] }
      match turn.outcome with
      | .error e => (some e,s)
      | .ok response =>
        (none,deliver network chat (splitMessage response.text maxMessageLength) s)
  | _, _, _ => (none,s)

def onError (a : TelegramAdapter ω μ) (network : Network) (update : Option Update)
    (s : Exchange ω μ) : Exchange ω μ :=
  match update with
  | none => s
  | some update => match update.effectiveChat, update.effectiveUser with
    | some chat, some user =>
      if user ≠ a.allowedUserId then s
      else (send network chat (.text fallbackInternal) s).2
    | _, _ => s

end TelegramAdapter

/-- What reaches the adapter. An error that left a handler comes back as a fault
of its own. -/
inductive Incoming where
  | message (update : Update)
  | fault (update : Option Update)

namespace Incoming

def update : Incoming → Option Update
  | message update => some update
  | fault update => update

def FromStranger (allowedUserId : ℤ) (e : Incoming) : Prop :=
  ∃ update, e.update = some update ∧ update.effectiveUser ≠ some allowedUserId

end Incoming

def receive (a : TelegramAdapter ω μ) (network : Network) (s : Exchange ω μ) :
    Incoming → Exchange ω μ
  | .message update => (a.onTextMessage network update s).2
  | .fault update => a.onError network update s

def run (a : TelegramAdapter ω μ) (network : Network) (incoming : List Incoming)
    (s : Exchange ω μ) : Exchange ω μ :=
  incoming.foldl (receive a network) s

def opened (session : Session ω μ) : Exchange ω μ := ⟨session,[],[],0⟩

/-! What a call of the adapter does to what was sent. -/

theorem record_chat (chat : ℤ) (payload : Payload) (made : List Attempt) (s : Exchange ω μ) :
    ∀ sending ∈ (TelegramAdapter.record chat payload made s).sendings,
      sending ∈ s.sendings ∨ sending.chat = chat := by
  intro sending h
  rcases List.mem_append.mp h with h | h
  · exact .inl h
  · exact .inr (List.mem_singleton.mp h ▸ rfl)

theorem deliver_chat (network : Network) (chat : ℤ) (texts : List String) (s : Exchange ω μ) :
    ∀ sending ∈ (TelegramAdapter.deliver network chat texts s).sendings,
      sending ∈ s.sendings ∨ sending.chat = chat := by
  induction texts generalizing s with
  | nil => exact fun sending h => .inl h
  | cons text texts ih =>
    intro sending h
    rcases ih (TelegramAdapter.send network chat (.text text) s).2 sending h with h | h
    · exact record_chat chat _ _ s sending h
    · exact .inr h

end
end Emma.Telegram

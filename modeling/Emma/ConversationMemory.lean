import Emma.Library.SlidingWindow
import Emma.Python
import Mathlib.Data.PNat.Basic

/-!
# The in-process conversation store

The stored unit is a role with plain text. A conversation keeps its last
messages only, and never starts on an assistant message, because the Messages
API rejects a request that does. Every append applies the window again, so the
store never sees the log its answer is a window of.
-/

set_option autoImplicit false

namespace Emma.ConversationMemory
open SlidingWindow Emma.Python

inductive Role where
  | user
  | assistant
  deriving DecidableEq, Repr

structure StoredMessage where
  role : Role
  content : String
  deriving DecidableEq, Repr

abbrev ConversationId := String

structure InMemoryConversationMemory where
  maxMessages : ℕ+
  conversations : ConversationId → List StoredMessage

namespace InMemoryConversationMemory

def create (maxMessages : ℕ+) : InMemoryConversationMemory := ⟨maxMessages,fun _ => []⟩

def dropLeadingReplies : List StoredMessage → List StoredMessage
  | [] => []
  | message::rest =>
    if message.role ≠ .user then dropLeadingReplies rest else message::rest

def getHistory (memory : InMemoryConversationMemory) (conversationId : ConversationId) :
    List StoredMessage :=
  memory.conversations conversationId

def pruneLocked (memory : InMemoryConversationMemory) (conversationId : ConversationId) :
    InMemoryConversationMemory :=
  let messages := memory.conversations conversationId
  if messages = [] then memory else
    let kept := if messages.length > memory.maxMessages
      then messages.drop (messages.length-memory.maxMessages) else messages
    { memory with
      conversations := Function.update memory.conversations conversationId
        (dropLeadingReplies kept) }

def append (memory : InMemoryConversationMemory) (conversationId : ConversationId)
    (message : StoredMessage) : InMemoryConversationMemory :=
  pruneLocked
    { memory with
      conversations := Function.update memory.conversations conversationId
        (memory.conversations conversationId ++ [message]) }
    conversationId

def prune (memory : InMemoryConversationMemory) (conversationId : ConversationId) :
    InMemoryConversationMemory :=
  pruneLocked memory conversationId

end InMemoryConversationMemory

def isUser (message : StoredMessage) : Bool := message.role = .user

/-- What a store with this window size shows of a whole log. -/
abbrev shown (maxMessages : ℕ+) (log : List StoredMessage) : List StoredMessage :=
  window isUser maxMessages log

namespace InMemoryConversationMemory

theorem dropLeadingReplies_eq (messages : List StoredMessage) :
    dropLeadingReplies messages = messages.dropWhile (fun m => !isUser m) := by
  induction messages with
  | nil => rfl
  | cons message rest ih =>
    by_cases h : message.role = .user <;>
      simp [dropLeadingReplies, isUser, h, ih]

/-- One pruning applies the window to its own conversation and no other. -/
theorem pruneLocked_eq (memory : InMemoryConversationMemory) (c : ConversationId) :
    pruneLocked memory c =
      { memory with
        conversations := Function.update memory.conversations c
          (shown memory.maxMessages (memory.conversations c)) } := by
  have hkept : ∀ messages : List StoredMessage,
      (if messages.length > memory.maxMessages
        then messages.drop (messages.length-memory.maxMessages) else messages) =
      messages.rtake memory.maxMessages := by
    intro messages
    split
    · rfl
    · exact (rtake_of_length_le _ _ (by omega)).symm
  by_cases h : memory.conversations c = []
  · simp only [pruneLocked, h, if_true, window_nil]
    rw [← h, Function.update_eq_self]
  · simp only [pruneLocked, h, if_false, hkept, dropLeadingReplies_eq]
    rfl

theorem append_eq (memory : InMemoryConversationMemory) (c : ConversationId)
    (message : StoredMessage) :
    append memory c message =
      { memory with
        conversations := Function.update memory.conversations c
          (shown memory.maxMessages (memory.conversations c ++ [message])) } := by
  simp [append, pruneLocked_eq]

theorem append_maxMessages (memory : InMemoryConversationMemory) (c : ConversationId)
    (message : StoredMessage) : (append memory c message).maxMessages = memory.maxMessages := by
  rw [append_eq]

theorem getHistory_append (memory : InMemoryConversationMemory) (c d : ConversationId)
    (message : StoredMessage) :
    getHistory (append memory c message) d =
      if d = c then shown memory.maxMessages (getHistory memory c ++ [message])
      else getHistory memory d := by
  rw [append_eq]
  by_cases h : d = c
  · subst h
    simp [getHistory]
  · simp [getHistory, h]

theorem getHistory_prune (memory : InMemoryConversationMemory) (c d : ConversationId) :
    getHistory (prune memory c) d =
      if d = c then shown memory.maxMessages (getHistory memory c) else getHistory memory d := by
  rw [prune, pruneLocked_eq]
  by_cases h : d = c
  · subst h
    simp [getHistory]
  · simp [getHistory, h]

end InMemoryConversationMemory
end Emma.ConversationMemory

import Emma.FailedAppends
import Emma.StoreStatements

/-!
# What a failed write leaves behind

Nothing in the four stores takes a change back. A write that raises before its
changing statement, or at it, changes no row, but its transaction stays open. In
the three stores no later answer shows that. A conversation memory that is
closed in an open transaction cannot record its snapshot, so there it shows
unless a commit came first. A write that raises later is in the table like one
that succeeded: every later call on the connection finds it, and the next commit
makes it permanent.
-/

set_option autoImplicit false

namespace Emma.FailedWrites
open FaultyProgram hiding change
open Transactions hiding requireOpen
open Emma.Python Emma.StoreStatements

section
variable {σ α : Type} {store : String}

theorem plain_change (f : σ → Except PyError (α × σ)) :
    Plain (do requireOpen store; change f) :=
  plain_requireOpen (plain_write f)

theorem plain_read (f : σ → α) : Plain (do requireOpen store; read f) :=
  plain_requireOpen (plain_select 0 f)

theorem unseen_openStore : Unseen (openStore : Method σ Unit) :=
  unseen_bind (unseen_perform (unseen_pure ())) fun _ =>
    unseen_bind (unseen_perform (unseen_change fun _ _ h => opened_rows h)) fun _ =>
      unseen_bind (unseen_perform (unseen_pure ())) fun _ =>
        unseen_bind (unseen_perform (unseen_pure ())) fun _ =>
          unseen_perform (unseen_change fun _ _ h => settled_rows h)

theorem unseen_closeStore : Unseen (closeStore : Method σ Unit) := by
  refine unseen_bind (unseen_look fun s t h => ?_) fun up => ?_
  · rw [show s.session = t.session from congrArg Prod.snd h]
  · split
    · exact unseen_perform (unseen_change fun _ _ h => closed_rows h)
    · exact unseen_pure ()

/-- Opening and closing a store, whatever its method makes of them. -/
theorem unseen_session {p : Method σ Unit} (h : Unseen p) (reply : α) :
    Unseen (do p; return reply) :=
  unseen_bind h fun _ => unseen_pure reply

end

theorem tasks_plain (call : TaskStore.Call) (h : call.keepsOpen) :
    Plain (TaskStore.method call) := by
  cases call with
  | «open» => exact h.elim
  | close => exact h.elim
  | create request now =>
    refine plain_map ?_ _
    rw [TaskStore.create]
    split
    · exact plain_raise _
    · exact plain_change _
  | recordAnswer taskId answer now =>
    refine plain_map ?_ _
    rw [TaskStore.recordAnswer]
    split
    · exact plain_pure _
    · exact plain_change _
  | advance taskId stage note now =>
    refine plain_map ?_ _
    rw [TaskStore.advance]
    split
    · exact plain_raise _
    · exact plain_change _
  | finish taskId note now => exact plain_map (plain_change _) _
  | abandon taskId note now => exact plain_map (plain_change _) _
  | touch now => exact plain_map (plain_change _) _
  | awaitingUser => exact plain_map (plain_read _) _
  | openTasks => exact plain_map (plain_read _) _
  | queued => exact plain_map (plain_read _) _
  | lastSeen => exact plain_map (plain_read _) _

theorem facts_plain (call : FactStore.Call) (h : call.keepsOpen) :
    Plain (FactStore.method call) := by
  cases call with
  | «open» => exact h.elim
  | close => exact h.elim
  | remember text now =>
    refine plain_map ?_ _
    rw [FactStore.remember]
    split
    · exact plain_pure _
    split
    · exact plain_pure _
    apply plain_requireOpen
    apply plain_select_bind
    intro known
    cases known with
    | some row => exact plain_pure _
    | none =>
      apply plain_select_bind
      intro count
      split
      · exact plain_pure _
      · exact plain_write _
  | forget factId now => exact plain_map (plain_change _) _
  | active => exact plain_map (plain_read _) _

theorem toolState_plain (call : ToolStateStore.Call) (h : call.keepsOpen) :
    Plain (ToolStateStore.method call) := by
  cases call with
  | «open» => exact h.elim
  | close => exact h.elim
  | disable name reason now =>
    refine plain_map ?_ _
    rw [ToolStateStore.disable]
    split
    · exact plain_pure _
    · exact plain_change _
  | enable name => exact plain_map (plain_change _) _
  | disabled => exact plain_map (plain_read _) _
  | switchedOff => exact plain_map (plain_read _) _
  | disabledSince name => exact plain_map (plain_read _) _
  | isDisabled name => exact plain_map (plain_map (plain_read _) _) _

theorem tasks_unseen (call : TaskStore.Call) (h : ¬call.keepsOpen) :
    Unseen (TaskStore.method call) := by
  cases call with
  | «open» => exact unseen_session unseen_openStore _
  | close => exact unseen_session unseen_closeStore _
  | _ => exact absurd trivial h

theorem facts_unseen (call : FactStore.Call) (h : ¬call.keepsOpen) :
    Unseen (FactStore.method call) := by
  cases call with
  | «open» => exact unseen_session unseen_openStore _
  | close => exact unseen_session unseen_closeStore _
  | _ => exact absurd trivial h

theorem toolState_unseen (call : ToolStateStore.Call) (h : ¬call.keepsOpen) :
    Unseen (ToolStateStore.method call) := by
  cases call with
  | «open» => exact unseen_session unseen_openStore _
  | close => exact unseen_session unseen_closeStore _
  | _ => exact absurd trivial h

namespace MemoryStore
open Emma.ConversationMemory Emma.SqliteMemory

inductive Call where
  | «open» (stamp : String)
  | close
  | append (c : ConversationId) (message : StoredMessage) (now : ℚ)
  | prune (c : ConversationId)
  | getHistory (c : ConversationId)

def Call.keepsOpen : Call → Prop
  | .open _ | .close => False
  | _ => True

/-- The methods of the persistent memory; only reading a history has an answer. -/
def method (parent : String) (maxMessages : ℕ+) :
    Call → DatabaseFiles.Action MessageTable (List StoredMessage)
  | .open stamp => do SelfRepair.openMemory parent stamp; return []
  | .close => do SelfRepair.closeMemory; return []
  | .append c message now => do SqliteMemory.append maxMessages c message now; return []
  | .prune c => do SqliteMemory.prune maxMessages c; return []
  | .getHistory c => SqliteMemory.getHistory c

end MemoryStore

section
open Emma.ConversationMemory Emma.SqliteMemory Emma.FailedAppends MemoryStore

/-- While the store stays open its answers are the same on both machines, and a
commit that ends the open transaction leaves the same behind. -/
def SameUntilClosed (parent : String) (maxMessages : ℕ+)
    (m m' : DatabaseFiles.Machine MessageTable) : Prop :=
  ∀ later : List (MemoryStore.Call × Faults DatabaseFiles.Call),
    (∀ call ∈ later, call.1.keepsOpen) →
    answers (method parent maxMessages) later m' = answers (method parent maxMessages) later m ∧
      (after (method parent maxMessages) later m' = after (method parent maxMessages) later m ∨
        after (method parent maxMessages) later m' = m' ∧
          after (method parent maxMessages) later m = m)

theorem memory_unnoticed (parent : String) (maxMessages : ℕ+) (call : MemoryStore.Call)
    (h : call.keepsOpen) : Unnoticed (method parent maxMessages call) := by
  cases call with
  | «open» stamp => exact h.elim
  | close => exact h.elim
  | append c message now =>
    exact unnoticed_bind (unnoticed_append maxMessages c message now) fun _ => unnoticed_pure _
  | prune c => exact unnoticed_bind (unnoticed_prune maxMessages c) fun _ => unnoticed_pure _
  | getHistory c => exact unnoticed_getHistory c

end

def fresh : Connection TaskStore.TaskFile := ⟨⟨∅,none⟩,some ⟨∅,none⟩,false⟩

def diskFull : Faults Site := fun site =>
  if site = .commit then some "database or disk is full" else none

end Emma.FailedWrites

import Emma.ConversationMemory
import Emma.Library.RowTable
import Emma.SelfRepair
import Mathlib.Data.Rat.Init
import Mathlib.Data.Rat.Defs

/-!
# The persistent conversation store

One table holds the messages of every conversation in the order of their ids.
The window is applied by counting, selecting and deleting rows, statement by
statement, and each statement or commit may fail like any other call.
-/

set_option autoImplicit false

namespace Emma.SqliteMemory
open FaultyProgram Emma.Python Emma.ConversationMemory Emma.DatabaseFiles Emma.SelfRepair
open SlidingWindow

structure MessageRow where
  convId : ConversationId
  role : Role
  content : String
  ts : ℚ
  deriving DecidableEq

abbrev MessageTable := RowTable MessageRow

/-- `WHERE conv_id = ?`. -/
def ofConversation (c : ConversationId) (row : ℕ × MessageRow) : Bool := row.2.convId = c

def stored (row : ℕ × MessageRow) : StoredMessage := ⟨row.2.role,row.2.content⟩

/-- `SELECT role, content FROM messages WHERE conv_id = ? ORDER BY id`. -/
def history (c : ConversationId) (t : MessageTable) : List StoredMessage :=
  (t.select (ofConversation c)).map stored

def getHistory (c : ConversationId) : Action MessageTable (List StoredMessage) := do
  requireOpen
  query (.sql .selectHistory) (history c)

def dropLeadingReplies (c : ConversationId) : ℕ → Action MessageTable Unit
  | 0 => pure ()
  | left+1 => do
    match ← query (.sql (.selectFirst left)) fun t => (t.select (ofConversation c)).head? with
    | none => pure ()
    | some row =>
      if row.2.role ≠ .user then
        statement (.sql (.deleteFirst left)) fun t => t.delete fun other => other.1 = row.1
        dropLeadingReplies c left
      else pure ()

def pruneLocked (maxMessages : ℕ+) (c : ConversationId) : Action MessageTable Unit := do
  requireOpen
  let count ← query (.sql .countMessages) fun t => (t.select (ofConversation c)).length
  if count > maxMessages then
    let ids ← query (.sql .selectExcess) fun t =>
      ((t.select (ofConversation c)).take (count-maxMessages)).map Prod.fst
    statement (.sql .deleteExcess) fun t => t.delete fun row => row.1 ∈ ids
  dropLeadingReplies c (count+1)
  commit (.sql .commitPrune)

def append (maxMessages : ℕ+) (c : ConversationId) (message : StoredMessage) (now : ℚ) :
    Action MessageTable Unit := do
  requireOpen
  statement (.sql .insertMessage) fun t => t.insert ⟨c,message.role,message.content,now⟩
  commit (.sql .commitInsert)
  pruneLocked maxMessages c

def prune (maxMessages : ℕ+) (c : ConversationId) : Action MessageTable Unit := do
  requireOpen
  pruneLocked maxMessages c

/-! The tables the statements leave behind, and what a conversation sees of them. -/

def trimmed (maxMessages : ℕ+) (c : ConversationId) (t : MessageTable) : MessageTable :=
  if (t.select (ofConversation c)).length > maxMessages then
    t.delete fun row => row.1 ∈ ((t.select (ofConversation c)).take
      ((t.select (ofConversation c)).length-maxMessages)).map Prod.fst
  else t

def withoutLeadingReplies (c : ConversationId) : ℕ → MessageTable → MessageTable
  | 0, t => t
  | left+1, t => match (t.select (ofConversation c)).head? with
    | none => t
    | some row =>
      if row.2.role ≠ .user then
        withoutLeadingReplies c left (t.delete fun other => other.1 = row.1)
      else t

def pruned (maxMessages : ℕ+) (c : ConversationId) (t : MessageTable) : MessageTable :=
  withoutLeadingReplies c ((t.select (ofConversation c)).length+1) (trimmed maxMessages c t)

def leads (row : ℕ × MessageRow) : Bool := isUser (stored row)

theorem select_trimmed (maxMessages : ℕ+) (c : ConversationId) (t : MessageTable) :
    (trimmed maxMessages c t).select (ofConversation c) =
      (t.select (ofConversation c)).rtake maxMessages := by
  unfold trimmed
  split
  · exact t.select_delete_first (ofConversation c) _
  · exact (rtake_of_length_le _ _ (by omega)).symm

theorem select_delete_ids_other (c d : ConversationId) (hcd : d ≠ c) (t : MessageTable)
    (ids : List ℕ) (hids : ∀ id ∈ ids, id ∈ (t.select (ofConversation c)).map Prod.fst) :
    (t.delete fun row => row.1 ∈ ids).select (ofConversation d) =
      t.select (ofConversation d) := by
  apply t.select_delete_other
  intro row hrow
  rw [decide_eq_false_iff_not]
  intro hmem
  obtain ⟨other,hother,hid⟩ := List.mem_map.mp (hids _ hmem)
  obtain ⟨hrowt,hrowd⟩ := List.mem_filter.mp hrow
  obtain ⟨hothert,hotherc⟩ := List.mem_filter.mp hother
  obtain rfl := t.row_unique other row hothert hrowt hid
  simp only [ofConversation, decide_eq_true_eq] at hrowd hotherc
  exact hcd (hrowd.symm.trans hotherc)

theorem select_trimmed_other (maxMessages : ℕ+) (c d : ConversationId) (hcd : d ≠ c)
    (t : MessageTable) :
    (trimmed maxMessages c t).select (ofConversation d) = t.select (ofConversation d) := by
  unfold trimmed
  split
  · apply select_delete_ids_other c d hcd t _
    intro id hid
    rw [List.map_take] at hid
    exact List.mem_of_mem_take hid
  · rfl

theorem select_withoutLeadingReplies (c : ConversationId) (left : ℕ) (t : MessageTable)
    (h : (t.select (ofConversation c)).length ≤ left) :
    (withoutLeadingReplies c left t).select (ofConversation c) =
      (t.select (ofConversation c)).dropWhile (fun row => !leads row) := by
  induction left generalizing t with
  | zero => simp [withoutLeadingReplies, List.eq_nil_of_length_eq_zero (Nat.le_zero.mp h)]
  | succ left ih =>
    cases hsel : t.select (ofConversation c) with
    | nil => simp [withoutLeadingReplies, hsel]
    | cons row rest =>
      by_cases hrole : row.2.role = .user
      · simp [withoutLeadingReplies, hsel, hrole, leads, isUser, stored]
      · have hdel := t.select_delete_first (ofConversation c) 1
        simp only [hsel, List.take_succ_cons, List.take_zero, List.map_cons, List.map_nil,
          List.mem_singleton, List.drop_succ_cons, List.drop_zero] at hdel
        have hlen : ((t.delete fun other => other.1 = row.1).select (ofConversation c)).length ≤
            left := by
          rw [hdel]
          simpa [hsel] using h
        simp [withoutLeadingReplies, hsel, hrole, ih _ hlen, hdel, leads, isUser, stored]

theorem select_withoutLeadingReplies_other (c d : ConversationId) (hcd : d ≠ c) (left : ℕ)
    (t : MessageTable) :
    (withoutLeadingReplies c left t).select (ofConversation d) =
      t.select (ofConversation d) := by
  induction left generalizing t with
  | zero => rfl
  | succ left ih =>
    unfold withoutLeadingReplies
    cases hsel : (t.select (ofConversation c)).head? with
    | none => rfl
    | some row =>
      have hrow : row ∈ t.select (ofConversation c) := List.mem_of_head? hsel
      have hdel := select_delete_ids_other c d hcd t [row.1] (by
        simpa using ⟨row.2,hrow⟩)
      simp only [List.mem_singleton] at hdel
      split
      · rfl
      · split
        · simp_all
        · rfl

/-- Pruning one conversation shows its window and leaves the others as they were. -/
theorem history_pruned (maxMessages : ℕ+) (c d : ConversationId) (t : MessageTable) :
    history d (pruned maxMessages c t) =
      if d = c then shown maxMessages (history c t) else history d t := by
  unfold pruned history
  split
  · rename_i h
    subst h
    have hlen : ((trimmed maxMessages d t).select (ofConversation d)).length ≤
        (t.select (ofConversation d)).length+1 := by
      rw [select_trimmed, List.rtake, List.length_drop]
      omega
    rw [select_withoutLeadingReplies _ _ _ hlen, select_trimmed, shown, window_map]
    rfl
  · rename_i h
    rw [select_withoutLeadingReplies_other c d h, select_trimmed_other _ c d h]

theorem history_insert (c d : ConversationId) (message : StoredMessage) (now : ℚ)
    (t : MessageTable) :
    history d (t.insert ⟨c,message.role,message.content,now⟩) =
      if d = c then history c t ++ [message] else history d t := by
  unfold history
  rw [RowTable.select_insert]
  by_cases h : d = c
  · subst h
    simp [ofConversation, stored]
  · simp [ofConversation, h, Ne.symm h]

/-! Undisturbed runs of the methods. -/

theorem dropLeadingReplies_smooth (c : ConversationId) (left : ℕ) (m : Machine MessageTable)
    (t : MessageTable) (h : view m = some t) :
    ∃ m', dropLeadingReplies c left smooth m = (.returned (),m') ∧
      view m' = some (withoutLeadingReplies c left t) ∧ m'.files = m.files := by
  induction left generalizing m t with
  | zero => exact ⟨m,rfl,h,rfl⟩
  | succ left ih =>
    have hq := query_smooth h (.sql (.selectFirst left))
      fun t => (t.select (ofConversation c)).head?
    unfold dropLeadingReplies withoutLeadingReplies
    rw [bind_returned hq]
    cases (t.select (ofConversation c)).head? with
    | none => exact ⟨m,rfl,h,rfl⟩
    | some row =>
      by_cases hrole : row.2.role = .user
      · simpa [hrole] using h
      · have hs := statement_smooth h (.sql (.deleteFirst left))
          fun t => t.delete fun other => other.1 = row.1
        obtain ⟨m',hrun,hview,hfiles⟩ := ih _ _ (view_holding m _)
        refine ⟨m',?_,?_,hfiles⟩
        · simp only [hrole, ne_eq, not_false_eq_true, if_true]
          rw [bind_returned hs]
          exact hrun
        · simpa [hrole] using hview

theorem pruneLocked_smooth (maxMessages : ℕ+) (c : ConversationId) (m : Machine MessageTable)
    (t : MessageTable) (h : view m = some t) :
    pruneLocked maxMessages c smooth m =
      (.returned (),m.committed (pruned maxMessages c t)) := by
  have hcount := query_smooth h (.sql .countMessages)
    fun t => (t.select (ofConversation c)).length
  have hids := query_smooth h (.sql .selectExcess) fun t' =>
    ((t'.select (ofConversation c)).take
      ((t.select (ofConversation c)).length-maxMessages)).map Prod.fst
  unfold pruneLocked
  rw [bind_returned (requireOpen_apply smooth m (view_open h)), bind_returned hcount]
  have hfinish : ∀ m' : Machine MessageTable, m'.files = m.files →
      view m' = some (trimmed maxMessages c t) →
      (do dropLeadingReplies c ((t.select (ofConversation c)).length+1)
          commit (.sql .commitPrune) : Action MessageTable Unit) smooth m' =
        (.returned (),m.committed (pruned maxMessages c t)) := by
    intro m' hfiles hview
    obtain ⟨m'',hrun,hview',hfiles'⟩ := dropLeadingReplies_smooth c _ m' _ hview
    rw [bind_returned hrun, commit_smooth hview', committed_congr (hfiles'.trans hfiles)]
    rfl
  by_cases hcut : (t.select (ofConversation c)).length > maxMessages
  · have hdelete := statement_smooth h (.sql .deleteExcess) fun t' => t'.delete fun row =>
      row.1 ∈ ((t.select (ofConversation c)).take
        ((t.select (ofConversation c)).length-maxMessages)).map Prod.fst
    rw [if_pos hcut]
    have htrim : (t.delete fun row => row.1 ∈ ((t.select (ofConversation c)).take
        ((t.select (ofConversation c)).length-maxMessages)).map Prod.fst) =
        trimmed maxMessages c t := by simp [trimmed, hcut]
    rw [htrim] at hdelete
    rw [bind_returned hids, bind_returned hdelete]
    exact hfinish _ rfl (view_holding m _)
  · rw [if_neg hcut]
    exact hfinish m rfl (by rw [h, trimmed, if_neg hcut])

theorem prune_smooth (maxMessages : ℕ+) (c : ConversationId) (m : Machine MessageTable)
    (t : MessageTable) (h : view m = some t) :
    prune maxMessages c smooth m = (.returned (),m.committed (pruned maxMessages c t)) := by
  rw [prune, bind_returned (requireOpen_apply smooth m (view_open h)),
    pruneLocked_smooth maxMessages c m t h]

def appended (maxMessages : ℕ+) (c : ConversationId) (message : StoredMessage) (now : ℚ)
    (t : MessageTable) : MessageTable :=
  pruned maxMessages c (t.insert ⟨c,message.role,message.content,now⟩)

theorem append_smooth (maxMessages : ℕ+) (c : ConversationId) (message : StoredMessage)
    (now : ℚ) (m : Machine MessageTable) (t : MessageTable) (h : view m = some t) :
    append maxMessages c message now smooth m =
      (.returned (),m.committed (appended maxMessages c message now t)) := by
  have hinsert := statement_smooth h (.sql .insertMessage)
    fun t => t.insert ⟨c,message.role,message.content,now⟩
  have hcommit := commit_smooth (view_holding m
    (t.insert ⟨c,message.role,message.content,now⟩)) (.sql .commitInsert)
  have hview := serving_view (committed_serving
    (m.holding (t.insert ⟨c,message.role,message.content,now⟩))
    (t.insert ⟨c,message.role,message.content,now⟩))
  rw [append, bind_returned (requireOpen_apply smooth m (view_open h)), bind_returned hinsert,
    bind_returned hcommit, pruneLocked_smooth maxMessages c _ _ hview, committed_committed]
  rfl

theorem getHistory_smooth (c : ConversationId) (m : Machine MessageTable) (t : MessageTable)
    (h : view m = some t) : getHistory c smooth m = (.returned (history c t),m) := by
  rw [getHistory, bind_returned (requireOpen_apply smooth m (view_open h)), query_smooth h]

/-- What depends on the files alone, and survives any commit, survives an
append, however it ends. -/
theorem keeps_append {I : Machine MessageTable → Prop}
    (hconn : ∀ m connection, I m → I { m with connection := connection })
    (hput : ∀ m state, I m → I (m.put .database (some (.healthy state)))) (maxMessages : ℕ+)
    (c : ConversationId) (message : StoredMessage) (now : ℚ) :
    Keeps I (append maxMessages c message now) := by
  have hrequire : Keeps I (requireOpen : Action MessageTable Unit) :=
    keeps_bind (keeps_look _) fun up => by
      split
      · exact keeps_pure _
      · exact keeps_raise _
  have hquery : ∀ {α : Type} (site : Call) (f : MessageTable → α), Keeps I (query site f) :=
    fun _ _ => keeps_perform (keeps_onView fun _ => keeps_pure _)
  have hstatement : ∀ (site : Call) (f : MessageTable → MessageTable),
      Keeps I (statement site f) := keeps_statement fun m _ hm => hconn m _ hm
  have hcommit : ∀ site : Call, Keeps I (commit site) := by
    refine fun site => keeps_perform (keeps_change fun m hm => ?_)
    split
    · exact hconn _ _ (hput m _ hm)
    · exact hm
  have hdrop : ∀ left, Keeps I (dropLeadingReplies c left) := by
    intro left
    induction left with
    | zero => exact keeps_pure _
    | succ left ih =>
      refine keeps_bind (hquery _ _) fun row => ?_
      cases row with
      | none => exact keeps_pure _
      | some row =>
        dsimp only
        split
        · exact keeps_bind (hstatement _ _) fun _ => ih
        · exact keeps_pure _
  have hprune : Keeps I (pruneLocked maxMessages c) := by
    refine keeps_bind hrequire fun _ => keeps_bind (hquery _ _) fun count => ?_
    have hrest : Keeps I (do dropLeadingReplies c (count+1); commit (.sql .commitPrune)) :=
      keeps_bind (hdrop _) fun _ => hcommit _
    dsimp only
    split
    · exact keeps_bind (hquery _ _) fun ids => keeps_bind (hstatement _ _) fun _ => hrest
    · exact hrest
  exact keeps_bind hrequire fun _ => keeps_bind (hstatement _ _) fun _ =>
    keeps_bind (hcommit _) fun _ => hprune

end Emma.SqliteMemory

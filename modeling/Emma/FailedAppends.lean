import Emma.SqliteMemory

/-!
# What a failed append leaves behind

An append inserts its message, commits, and prunes; any of these calls may
raise. Where the message was inserted it stays, whatever raised after it. The
pruning may then be done by half, but it only ever takes messages that the
window does not show. Where the insert itself failed, all that is left is the
transaction that was opened for it. Until the store is closed only a commit can
tell, and the commit ends it.
-/

set_option autoImplicit false

namespace Emma.FailedAppends
open FaultyProgram Emma.Python Emma.ConversationMemory Emma.DatabaseFiles Emma.SqliteMemory
open SlidingWindow

section
variable {σ α : Type} {m : Machine σ} {t : σ} (faults : Faults Call)

theorem query_failing (h : view m = some t) (site : Call) (f : σ → α) :
    query site f (failing faults) m = (.returned (f t),m) ∨
      ∃ e, query site f (failing faults) m = (.raised e,m) := by
  rw [query, perform_apply, failing]
  cases faults site with
  | none => exact .inl (by simp [onView, bind_apply, h])
  | some text => exact .inr ⟨_,rfl⟩

theorem statement_failing (h : view m = some t) (site : Call) (f : σ → σ) :
    (faults site = none ∧ statement site f (failing faults) m = (.returned (),m.holding (f t))) ∨
      ∃ e, statement site f (failing faults) m = (.raised e,m.holding t) := by
  have hbegin : (change begun : Action σ Unit) (failing faults) m = (.returned (),m.holding t) := by
    rw [change_apply, begun_eq h]
  rw [statement, bind_returned hbegin, perform_apply, failing]
  cases faults site with
  | none => exact .inl ⟨rfl,by simp [onView, bind_apply]⟩
  | some text => exact .inr ⟨_,rfl⟩

theorem commit_failing (h : view m = some t) (site : Call) :
    commit site (failing faults) m = (.returned (),m.committed t) ∨
      ∃ e, commit site (failing faults) m = (.raised e,m) := by
  rw [commit, perform_apply, failing]
  cases faults site with
  | none => exact .inl (commit_smooth h site)
  | some text => exact .inr ⟨_,rfl⟩

theorem committed_view (m : Machine σ) (t : σ) : view (m.committed t) = some t :=
  serving_view (committed_serving m t)

end

/-- Some leading messages of a conversation are gone, and none its window shows. -/
structure Shortened (maxMessages : ℕ+) (c : ConversationId) (t t' : MessageTable) : Prop where
  others : ∀ d, d ≠ c → history d t' = history d t
  rest : history c t' <:+ history c t
  window : shown maxMessages (history c t') = shown maxMessages (history c t)

theorem shortened_refl (maxMessages : ℕ+) (c : ConversationId) (t : MessageTable) :
    Shortened maxMessages c t t := ⟨fun _ _ => rfl,List.suffix_rfl,rfl⟩

theorem shortened_trimmed (maxMessages : ℕ+) (c : ConversationId) (t : MessageTable) :
    Shortened maxMessages c t (trimmed maxMessages c t) := by
  have hc : history c (trimmed maxMessages c t) = (history c t).rtake maxMessages := by
    simp only [history, select_trimmed, List.rtake, List.map_drop, List.length_map]
  refine ⟨fun d hd => ?_,?_,?_⟩
  · rw [history, select_trimmed_other maxMessages c d hd]
    rfl
  · rw [hc]
    exact List.drop_suffix _ _
  · have hcut := rtake_rtake_append (maxMessages : ℕ) (history c t) []
    rw [List.append_nil, List.append_nil] at hcut
    rw [hc, shown, window, hcut]
    rfl

theorem shortened_first {maxMessages : ℕ+} {c : ConversationId} {t t' : MessageTable}
    (h : Shortened maxMessages c t t') (row : ℕ × MessageRow)
    (hfirst : (t'.select (ofConversation c)).head? = some row) (hreply : row.2.role ≠ .user) :
    Shortened maxMessages c t (t'.delete fun other => other.1 = row.1) := by
  obtain ⟨rest,hsel⟩ := List.head?_eq_some_iff.mp hfirst
  have hdel := t'.select_delete_first (ofConversation c) 1
  simp only [hsel, List.take_succ_cons, List.take_zero, List.map_cons, List.map_nil,
    List.mem_singleton, List.drop_succ_cons, List.drop_zero] at hdel
  have hwas : history c t' = [stored row] ++ rest.map stored := by rw [history, hsel]; rfl
  have hnow : history c (t'.delete fun other => other.1 = row.1) = rest.map stored := by
    rw [history, hdel]
  refine ⟨fun d hd => ?_,?_,?_⟩
  · have hrow : row.1 ∈ (t'.select (ofConversation c)).map Prod.fst := by simp [hsel]
    have hother := select_delete_ids_other c d hd t' [row.1] (by simpa using hrow)
    simp only [List.mem_singleton] at hother
    rw [history, hother]
    exact h.others d hd
  · rw [hnow]
    have hrest : rest.map stored <:+ history c t' := hwas ▸ List.suffix_append _ _
    exact hrest.trans h.rest
  · have hclosed : ∀ message ∈ [stored row], isUser message = false := by
      intro message hmessage
      obtain rfl := List.mem_singleton.mp hmessage
      simp [isUser, stored, hreply]
    rw [hnow, ← h.window, hwas]
    exact (window_drop_closed isUser maxMessages _ _ hclosed).symm

theorem dropLeadingReplies_shortens (maxMessages : ℕ+) (c : ConversationId) (faults : Faults Call)
    (t : MessageTable) (left : ℕ) (m : Machine MessageTable) (t' : MessageTable)
    (hview : view m = some t') (h : Shortened maxMessages c t t') :
    ∃ last, view (dropLeadingReplies c left (failing faults) m).2 = some last ∧
      Shortened maxMessages c t last := by
  induction left generalizing m t' with
  | zero => exact ⟨t',hview,h⟩
  | succ left ih =>
    rw [dropLeadingReplies]
    rcases query_failing faults hview (.sql (.selectFirst left))
      fun t => (t.select (ofConversation c)).head? with hfirst | ⟨e,hraised⟩
    · rw [bind_returned hfirst]
      cases hrow : (t'.select (ofConversation c)).head? with
      | none => exact ⟨t',hview,h⟩
      | some row =>
        dsimp only
        split
        · rename_i hreply
          rcases statement_failing faults hview (.sql (.deleteFirst left))
            fun t => t.delete fun other => other.1 = row.1 with ⟨-,hdeleted⟩ | ⟨e,hraised⟩
          · rw [bind_returned hdeleted]
            exact ih _ _ (view_holding m _) (shortened_first h row hrow hreply)
          · rw [bind_raised hraised]
            exact ⟨t',view_holding m t',h⟩
        · exact ⟨t',hview,h⟩
    · rw [bind_raised hraised]
      exact ⟨t',hview,h⟩

/-- The replies in front are dropped, and what is left is committed. -/
theorem dropAndCommit_shortens (maxMessages : ℕ+) (c : ConversationId) (faults : Faults Call)
    (t : MessageTable) (left : ℕ) (m : Machine MessageTable) (t' : MessageTable)
    (hview : view m = some t') (h : Shortened maxMessages c t t') :
    ∃ last, view ((do dropLeadingReplies c left; commit (.sql .commitPrune) :
        Action MessageTable Unit) (failing faults) m).2 = some last ∧
      Shortened maxMessages c t last := by
  obtain ⟨last,hlast,hshort⟩ :=
    dropLeadingReplies_shortens maxMessages c faults t left m t' hview h
  rw [bind_apply]
  rcases hrun : dropLeadingReplies c left (failing faults) m with ⟨_ | _ | _,m'⟩ <;>
    rw [hrun] at hlast
  · rcases commit_failing faults hlast (.sql .commitPrune) with hdone | ⟨e,hraised⟩
    · dsimp only
      rw [hdone]
      exact ⟨last,committed_view m' last,hshort⟩
    · dsimp only
      rw [hraised]
      exact ⟨last,hlast,hshort⟩
  · exact ⟨last,hlast,hshort⟩
  · exact ⟨last,hlast,hshort⟩

theorem pruneLocked_shortens (maxMessages : ℕ+) (c : ConversationId) (faults : Faults Call)
    (m : Machine MessageTable) (t : MessageTable) (hview : view m = some t) :
    ∃ last, view (pruneLocked maxMessages c (failing faults) m).2 = some last ∧
      Shortened maxMessages c t last := by
  have hsame := shortened_refl maxMessages c t
  rw [pruneLocked, bind_returned (requireOpen_apply _ m (view_open hview))]
  rcases query_failing faults hview (.sql .countMessages)
    fun t => (t.select (ofConversation c)).length with hcount | ⟨e,hraised⟩
  · rw [bind_returned hcount]
    by_cases hcut : (t.select (ofConversation c)).length > maxMessages
    · rw [if_pos hcut]
      rcases query_failing faults hview (.sql .selectExcess) fun t' =>
        ((t'.select (ofConversation c)).take
          ((t.select (ofConversation c)).length-maxMessages)).map Prod.fst with hids | ⟨e,hraised⟩
      · rw [bind_returned hids]
        rcases statement_failing faults hview (.sql .deleteExcess) fun t' => t'.delete fun row =>
          row.1 ∈ ((t.select (ofConversation c)).take
            ((t.select (ofConversation c)).length-maxMessages)).map Prod.fst
          with ⟨-,hdeleted⟩ | ⟨e,hraised⟩
        · rw [bind_returned hdeleted]
          apply dropAndCommit_shortens maxMessages c faults t _ _ _ (view_holding m _)
          have htrimmed := shortened_trimmed maxMessages c t
          rwa [trimmed, if_pos hcut] at htrimmed
        · rw [bind_raised hraised]
          exact ⟨t,view_holding m t,hsame⟩
      · rw [bind_raised hraised]
        exact ⟨t,hview,hsame⟩
    · rw [if_neg hcut]
      exact dropAndCommit_shortens maxMessages c faults t _ m t hview hsame
  · rw [bind_raised hraised]
    exact ⟨t,hview,hsame⟩

/-- An append that raises has opened a transaction at most, or has its message in
the table with the window not wholly applied again. -/
theorem append_fails (maxMessages : ℕ+) (c : ConversationId) (message : StoredMessage) (now : ℚ)
    (faults : Faults Call) (m m' : Machine MessageTable) (e : PyError)
    (h : append maxMessages c message now (failing faults) m = (.raised e,m')) :
    m' = begun m ∨ faults (.sql .insertMessage) = none ∧ ∃ t last, view m = some t ∧
      view m' = some last ∧
      Shortened maxMessages c (t.insert ⟨c,message.role,message.content,now⟩) last := by
  rw [append] at h
  cases hopen : m.connection.isSome with
  | false =>
    have hraised : ∃ e, requireOpen (failing faults) m = (.raised e,m) := by
      simp [requireOpen, bind_apply, hopen]
    obtain ⟨e',hraised⟩ := hraised
    rw [bind_raised hraised] at h
    have hnone : begun m = m := begun_none (view_closed (by simpa using hopen))
    exact .inl ((congrArg Prod.snd h).symm.trans hnone.symm)
  | true =>
    rw [bind_returned (requireOpen_apply _ m hopen)] at h
    cases hview : view m with
    | none =>
      have hraised : ∃ e, statement (.sql .insertMessage)
          (fun t : MessageTable => t.insert ⟨c,message.role,message.content,now⟩)
          (failing faults) m = (.raised e,begun m) := by
        have hbegin : (change begun : Action MessageTable Unit) (failing faults) m =
            (.returned (),begun m) := rfl
        rw [statement, bind_returned hbegin, perform_apply, failing]
        cases faults (.sql .insertMessage) with
        | some text => exact ⟨_,rfl⟩
        | none => exact ⟨_,by simp [onView, bind_apply, view_begun, hview]; rfl⟩
      obtain ⟨e',hraised⟩ := hraised
      rw [bind_raised hraised] at h
      exact .inl (congrArg Prod.snd h).symm
    | some t =>
      rcases statement_failing faults hview (.sql .insertMessage)
        fun t => t.insert ⟨c,message.role,message.content,now⟩ with ⟨hran,hinserted⟩ | ⟨e',hraised⟩
      · right
        use hran, t
        rw [bind_returned hinserted] at h
        have hheld := view_holding m (t.insert ⟨c,message.role,message.content,now⟩)
        rcases commit_failing faults hheld (.sql .commitInsert) with hdone | ⟨e',hraised⟩
        · rw [bind_returned hdone] at h
          obtain ⟨last,hlast,hshort⟩ :=
            pruneLocked_shortens maxMessages c faults _ _ (committed_view _ _)
          rw [h] at hlast
          exact ⟨last,rfl,hlast,hshort⟩
        · rw [bind_raised hraised] at h
          cases h
          exact ⟨_,rfl,hheld,shortened_refl maxMessages c _⟩
      · rw [bind_raised hraised] at h
        rw [begun_eq hview]
        exact .inl (congrArg Prod.snd h).symm

/-! An open transaction without a change in it. -/

section
variable {σ α β : Type}

def Unnoticed (p : Action σ α) : Prop :=
  ∀ plan m, (p plan (begun m)).1 = (p plan m).1 ∧
    ((p plan (begun m)).2 = (p plan m).2 ∨
      (p plan (begun m)).2 = begun m ∧ (p plan m).2 = m)

theorem unnoticed_pure (a : α) : Unnoticed (pure a : Action σ α) :=
  fun _ _ => ⟨rfl,.inr ⟨rfl,rfl⟩⟩

theorem unnoticed_bind {p : Action σ α} {f : α → Action σ β} (hp : Unnoticed p)
    (hf : ∀ a, Unnoticed (f a)) : Unnoticed (p >>= f) := by
  intro plan m
  obtain ⟨hexit,hstate⟩ := hp plan m
  rw [bind_apply, bind_apply]
  rcases hin : p plan (begun m) with ⟨exit,m1⟩
  rcases hout : p plan m with ⟨exit',m2⟩
  rw [hin, hout] at hexit hstate
  obtain rfl : exit = exit' := hexit
  cases exit with
  | raised e => exact ⟨rfl,hstate⟩
  | killed => exact ⟨rfl,hstate⟩
  | returned a =>
    rcases hstate with hsame | ⟨hbegun,hkept⟩
    · obtain rfl : m1 = m2 := hsame
      exact ⟨rfl,.inl rfl⟩
    · obtain rfl : m1 = begun m := hbegun
      obtain rfl : m2 = m := hkept
      exact hf a plan m2

theorem unnoticed_requireOpen : Unnoticed (requireOpen : Action σ Unit) := by
  intro plan m
  have hup := begun_open m
  cases hm : m.connection.isSome <;> rw [hm] at hup <;>
    simp [requireOpen, bind_apply, hm, hup]

theorem unnoticed_query (site : Call) (f : σ → α) : Unnoticed (query site f) := by
  intro plan m
  rw [query, perform_apply, perform_apply]
  cases plan site with
  | fails text => exact ⟨rfl,.inr ⟨rfl,rfl⟩⟩
  | dies => exact ⟨rfl,.inr ⟨rfl,rfl⟩⟩
  | runs => cases hview : view m <;> simp [onView, bind_apply, view_begun, hview]

theorem unnoticed_statement (site : Call) (f : σ → σ) : Unnoticed (statement site f) := by
  intro plan m
  rw [statement, bind_apply, bind_apply, change_apply, change_apply, begun_begun]
  exact ⟨rfl,.inl rfl⟩

/-- There is nothing in the transaction, so its commit changes nothing. -/
theorem unnoticed_commit (site : Call) : Unnoticed (commit site : Action σ Unit) := by
  intro plan m
  rw [commit, perform_apply, perform_apply]
  cases plan site with
  | fails text => exact ⟨rfl,.inr ⟨rfl,rfl⟩⟩
  | dies => exact ⟨rfl,.inr ⟨rfl,rfl⟩⟩
  | runs =>
    refine ⟨rfl,.inl ?_⟩
    cases hview : view m with
    | none => rw [begun_none hview]
    | some state =>
      have hcommit := commit_smooth hview site
      have hcommit' := commit_smooth ((view_begun m).trans hview) site
      rw [commit, perform_smooth] at hcommit hcommit'
      rw [begun_eq hview] at hcommit' ⊢
      exact (congrArg Prod.snd hcommit').trans (congrArg Prod.snd hcommit).symm

end

theorem unnoticed_dropLeadingReplies (c : ConversationId) (left : ℕ) :
    Unnoticed (dropLeadingReplies c left) := by
  induction left with
  | zero => exact unnoticed_pure ()
  | succ left ih =>
    refine unnoticed_bind (unnoticed_query _ _) fun row => ?_
    cases row with
    | none => exact unnoticed_pure ()
    | some row =>
      dsimp only
      split
      · exact unnoticed_bind (unnoticed_statement _ _) fun _ => ih
      · exact unnoticed_pure ()

theorem unnoticed_pruneLocked (maxMessages : ℕ+) (c : ConversationId) :
    Unnoticed (pruneLocked maxMessages c) := by
  refine unnoticed_bind unnoticed_requireOpen fun _ =>
    unnoticed_bind (unnoticed_query _ _) fun count => ?_
  have hrest : Unnoticed (do dropLeadingReplies c (count+1); commit (.sql .commitPrune)) :=
    unnoticed_bind (unnoticed_dropLeadingReplies c _) fun _ => unnoticed_commit _
  dsimp only
  split
  · exact unnoticed_bind (unnoticed_query _ _) fun ids =>
      unnoticed_bind (unnoticed_statement _ _) fun _ => hrest
  · exact hrest

theorem unnoticed_append (maxMessages : ℕ+) (c : ConversationId) (message : StoredMessage)
    (now : ℚ) : Unnoticed (append maxMessages c message now) :=
  unnoticed_bind unnoticed_requireOpen fun _ => unnoticed_bind (unnoticed_statement _ _) fun _ =>
    unnoticed_bind (unnoticed_commit _) fun _ => unnoticed_pruneLocked maxMessages c

theorem unnoticed_prune (maxMessages : ℕ+) (c : ConversationId) :
    Unnoticed (prune maxMessages c) :=
  unnoticed_bind unnoticed_requireOpen fun _ => unnoticed_pruneLocked maxMessages c

theorem unnoticed_getHistory (c : ConversationId) : Unnoticed (getHistory c) :=
  unnoticed_bind unnoticed_requireOpen fun _ => unnoticed_query _ _

/-- Later calls answer the same, and the first commit leaves the same behind. -/
theorem answers_unnoticed {Op R : Type} {σ : Type} {method : Op → Action σ R}
    (calls : List (Op × Faults Call)) (h : ∀ call ∈ calls, Unnoticed (method call.1))
    (m : Machine σ) : answers method calls (begun m) = answers method calls m ∧
      (after method calls (begun m) = after method calls m ∨
        after method calls (begun m) = begun m ∧ after method calls m = m) := by
  induction calls generalizing m with
  | nil => exact ⟨rfl,.inr ⟨rfl,rfl⟩⟩
  | cons call rest ih =>
    obtain ⟨hexit,hstate⟩ := h call List.mem_cons_self (failing call.2) m
    have hrest := fun other hother => h other (List.mem_cons_of_mem call hother)
    simp only [answers, after, List.foldl_cons]
    rcases hstate with hsame | ⟨hbegun,hkept⟩
    · rw [hexit, hsame]
      exact ⟨rfl,.inl rfl⟩
    · rw [hexit, hbegun, hkept]
      obtain ⟨hanswers,hafter⟩ := ih hrest m
      exact ⟨by rw [hanswers],hafter⟩

end Emma.FailedAppends

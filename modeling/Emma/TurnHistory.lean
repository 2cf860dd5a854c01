import Emma.TurnStorage

/-!
# What is left of a turn

A turn files its question and its answer one after the other, and the window is
cut after each. Both stores cut it the same way, whatever the conversation held
before, be it longer than the window or of any roles.
-/

set_option autoImplicit false

namespace Emma.TurnHistory
open FaultyProgram Emma.Python Emma.ConversationMemory Emma.DatabaseFiles Emma.SqliteMemory
open Emma.LanguageModel Emma.Orchestrator Emma.WorkingStores Emma.TurnStorage SlidingWindow

/-- A store that works, with the messages its conversations hold at the moment. -/
structure PruningStore (maxMessages : ℕ+) (μ : Type) extends Store μ where
  Ready : μ → Prop
  contents : μ → ConversationId → List StoredMessage
  shows : ∀ memory c, Ready memory → getHistory c memory = .ok (contents memory c)
  appends : ∀ memory c message now, Ready memory →
    ∃ memory', append c message now memory = (.ok (),memory') ∧ Ready memory' ∧
      ∀ d, contents memory' d =
        if d = c then shown maxMessages (contents memory c ++ [message]) else contents memory d

def pruningInMemory (maxMessages : ℕ+) : PruningStore maxMessages InMemoryConversationMemory where
  toStore := inMemoryStore
  Ready memory := memory.maxMessages = maxMessages
  contents memory c := memory.getHistory c
  shows _ _ _ := rfl
  appends memory c message _ h :=
    ⟨memory.append c message,rfl,(memory.append_maxMessages c message).trans h,
      fun d => h ▸ memory.getHistory_append c d message⟩

def tableContents (m : Machine MessageTable) (c : ConversationId) : List StoredMessage :=
  match view m with
  | some t => history c t
  | none => []

def pruningSqlite (maxMessages : ℕ+) : PruningStore maxMessages (Machine MessageTable) where
  toStore := sqliteStore maxMessages smooth
  Ready m := ∃ t, Serving m t
  contents := tableContents
  shows m c h := by
    obtain ⟨t,hserving⟩ := h
    have hview := serving_view hserving
    simp [sqliteStore, getHistory_smooth c m t hview, outcome, tableContents, hview]
  appends m c message now h := by
    obtain ⟨t,hserving⟩ := h
    have hview := serving_view hserving
    have hrun := append_smooth maxMessages c message now m t hview
    have hafter := committed_serving m (appended maxMessages c message now t)
    refine ⟨_,by simp [sqliteStore, hrun, outcome],⟨_,hafter⟩,fun d => ?_⟩
    rw [tableContents, serving_view hafter]
    simp only [tableContents, hview, appended]
    rw [history_pruned, history_insert, history_insert, if_pos rfl]
    split <;> rfl

section
variable {ω μ : Type}

/-- The two appends of a turn are one cut of what was there before. -/
theorem remember_contents {maxMessages : ℕ+} (store : PruningStore maxMessages μ)
    (r : Router ω μ) (hstore : r.memory = store.toStore) (request : AssistantRequest)
    (answer : String) (now : ℚ) (memory : μ) (hready : store.Ready memory) :
    store.Ready (r.remember request answer now memory) ∧
    store.contents (r.remember request answer now memory) request.conversationId =
      shown maxMessages (store.contents memory request.conversationId ++
        [⟨.user,request.text⟩,⟨.assistant,answer⟩]) := by
  obtain ⟨m1,happend1,hready1,hcontents1⟩ :=
    store.appends memory request.conversationId ⟨.user,request.text⟩ now hready
  obtain ⟨m2,happend2,hready2,hcontents2⟩ :=
    store.appends m1 request.conversationId ⟨.assistant,answer⟩ now hready1
  have hrun : r.remember request answer now memory = m2 := by
    rw [Router.remember, hstore, happend1]
    dsimp only
    rw [happend2]
  rw [hrun]
  use hready2
  rw [hcontents2, if_pos rfl, hcontents1, if_pos rfl, shown, shown, window_window_append,
    List.append_assoc]
  rfl

/-- After an answered turn the history ends with the question and its answer, if
the window has room for two messages. A window of one message is then empty. -/
theorem turn_ends_history {maxMessages : ℕ+} (store : PruningStore maxMessages μ)
    (r : Router ω μ) (hstore : r.memory = store.toStore) (request : AssistantRequest)
    (s : Session ω μ) (hready : store.Ready s.memory) (answer : AssistantResponse)
    (houtcome : (r.handle request s).outcome = .ok answer) (hd : answer.degraded = false) :
    ∃ history, r.memory.getHistory request.conversationId (r.handle request s).session.memory =
        .ok history ∧
      (2 ≤ (maxMessages : ℕ) →
        [⟨.user,request.text⟩,⟨.assistant,answer.text⟩] <:+ history) ∧
      ((maxMessages : ℕ) = 1 → history = []) := by
  rcases handle_files r request s with ⟨-,hsilent⟩ | ⟨answer',now,houtcome',-,hmemory⟩
  · exact absurd ⟨answer,houtcome,hd⟩ hsilent
  · obtain rfl : answer = answer' := Except.ok.inj (houtcome.symm.trans houtcome')
    obtain ⟨hready',hcontents⟩ :=
      remember_contents store r hstore request answer.text now s.memory hready
    refine ⟨_,by rw [hstore, hmemory]; exact store.shows _ _ hready',?_,?_⟩
    · intro htwo
      rw [hcontents, shown]
      exact window_keeps isUser maxMessages _ _ _ rfl htwo
    · intro hone
      rw [hcontents, shown, hone, List.append_cons]
      exact window_one isUser _ _ rfl

end

theorem turn_ends_history_moody :
    ∃ history, TurnMemory.moody.memory.getHistory "1"
        (TurnMemory.moody.handle ⟨"ciao","1","1"⟩
          ⟨⟨0,0,none,none⟩,.create 2,true⟩).session.memory = .ok history ∧
      (2 ≤ 2 → [⟨.user,"ciao"⟩,⟨.assistant,"Eccomi."⟩] <:+ history) ∧ (2 = 1 → history = []) :=
  turn_ends_history (pruningInMemory 2) TurnMemory.moody rfl ⟨"ciao","1","1"⟩
    ⟨⟨0,0,none,none⟩,.create 2,true⟩ rfl ⟨"Eccomi.",false,none⟩ (by decide) rfl

/-- In a window of one message an answered turn leaves nothing. -/
theorem window_of_one_is_empty :
    (TurnMemory.moody.handle ⟨"ciao","1","1"⟩ ⟨⟨0,0,none,none⟩,.create 1,true⟩).outcome =
      .ok ⟨"Eccomi.",false,none⟩ ∧
    TurnMemory.moody.memory.getHistory "1" (TurnMemory.moody.handle ⟨"ciao","1","1"⟩
      ⟨⟨0,0,none,none⟩,.create 1,true⟩).session.memory = .ok [] ∧
    ¬[⟨.user,"ciao"⟩,⟨.assistant,"Eccomi."⟩] <:+ ([] : List StoredMessage) := by
  refine ⟨?_,?_,by decide⟩
  · decide
  · decide

end Emma.TurnHistory

import Emma.Library.Runs
import Emma.TurnMemory

/-!
# The two halves of a turn

The question and the answer of a turn are filed by two calls, and either may
raise. Beside its store a conversation here keeps the log of all that was filed,
which tells a turn that is stored whole from one that is stored by half.
-/

set_option autoImplicit false

namespace Emma.TurnStorage
open Emma.Python Emma.ConversationMemory Emma.LanguageModel Emma.Orchestrator
open Emma.WorkingStores Emma.TurnMemory SlidingWindow Runs

section
variable {ω μ : Type}

/-- A store, how often it was asked to append, and all that it appended. -/
structure Filed (μ : Type) where
  memory : μ
  calls : ℕ
  log : Log

/-- The n-th append raises what the pattern says, and then it stores nothing. -/
def failing (fails : ℕ → Option String) (store : Store μ) : Store (Filed μ) where
  getHistory c filed := store.getHistory c filed.memory
  append c message now filed :=
    match fails filed.calls with
    | some error => (.error error,{ filed with calls := filed.calls+1 })
    | none =>
      let (outcome,memory) := store.append c message now filed.memory
      (outcome,⟨memory,filed.calls+1,extended filed.log c message⟩)

def Torn (fails : ℕ → Option String) (filed : Filed μ) : Prop :=
  fails filed.calls = none ∧ fails (filed.calls+1) ≠ none

def Answers (turn : Turn ω μ) : Prop :=
  ∃ answer, turn.outcome = .ok answer ∧ answer.degraded = false

/-- The turn left the log alone, or added its question and its answer. -/
def Whole (r : Router ω (Filed μ)) (s : Session ω (Filed μ)) (request : AssistantRequest) : Prop :=
  (r.handle request s).session.memory.log = s.memory.log ∨
    (r.handle request s).session.memory.log =
      fun c => s.memory.log c ++ exchange c (request,r.handle request s)

/-- An answer is not left to a pattern that files only its question. -/
def Untorn (fails : ℕ → Option String) (r : Router ω (Filed μ)) (s : Session ω (Filed μ))
    (request : AssistantRequest) : Prop :=
  Answers (r.handle request s) → ¬Torn fails s.memory

def next (r : Router ω μ) (s : Session ω μ) (request : AssistantRequest) : Session ω μ :=
  (r.handle request s).session

/-- The log holds some of the turns, each with its answer, and the store shows
the last of them. -/
def Answered (r : Router ω (Filed μ)) (turns : List (AssistantRequest × Turn ω (Filed μ)))
    (filed : Filed μ) (c : ConversationId) : Prop :=
  ∃ kept recent, kept.Sublist turns ∧ recent <:+ kept ∧
    filed.log c = transcript c kept ∧ r.memory.getHistory c filed = .ok (transcript c recent)

theorem handle_files (r : Router ω μ) (request : AssistantRequest) (s : Session ω μ) :
    ((r.handle request s).session.memory = s.memory ∧ ¬Answers (r.handle request s)) ∨
    ∃ answer now, (r.handle request s).outcome = .ok answer ∧ answer.degraded = false ∧
      (r.handle request s).session.memory = r.remember request answer.text now s.memory := by
  rw [Router.handle]
  dsimp only
  split
  · refine .inl ⟨rfl,?_⟩
    rintro ⟨_,h,_⟩
    cases h
  · rename_i answer _
    cases hd : answer.degraded with
    | true =>
      refine .inl ⟨rfl,?_⟩
      rintro ⟨_,h,hnot⟩
      cases h
      simp [hd] at hnot
    | false => exact .inr ⟨answer,_,rfl,hd,rfl⟩

theorem exchange_answered (c : ConversationId) (request : AssistantRequest) (turn : Turn ω μ)
    (answer : AssistantResponse) (houtcome : turn.outcome = .ok answer)
    (hd : answer.degraded = false) : exchange c (request,turn) =
      if request.conversationId = c then [⟨.user,request.text⟩,⟨.assistant,answer.text⟩]
      else [] := by
  simp [exchange, houtcome, hd]

/-- What the two calls file under each pattern, on a store that works. -/
theorem remember_files {maxMessages : ℕ+} (store : WorkingStore maxMessages μ)
    (fails : ℕ → Option String) (r : Router ω (Filed μ))
    (hstore : r.memory = failing fails store.toStore) (request : AssistantRequest)
    (answer : String) (now : ℚ) (filed : Filed μ) (hholds : store.Holds filed.memory filed.log) :
    let after := r.remember request answer now filed
    store.Holds after.memory after.log ∧
    after.log = match fails filed.calls, fails (filed.calls+1) with
      | some _, _ => filed.log
      | none, some _ => extended filed.log request.conversationId ⟨.user,request.text⟩
      | none, none => fun c => filed.log c ++ if request.conversationId = c then
          [⟨.user,request.text⟩,⟨.assistant,answer⟩] else [] := by
  obtain ⟨m1,happend1,hholds1⟩ :=
    store.appends filed.memory filed.log request.conversationId ⟨.user,request.text⟩ now hholds
  obtain ⟨m2,happend2,hholds2⟩ :=
    store.appends m1 _ request.conversationId ⟨.assistant,answer⟩ now hholds1
  dsimp only
  rw [Router.remember, hstore]
  cases h1 : fails filed.calls with
  | some error => simpa [failing, h1] using hholds
  | none =>
    cases h2 : fails (filed.calls+1) with
    | some error => simpa [failing, h1, h2, happend1] using hholds1
    | none =>
      simp only [failing, h1, h2, happend1, happend2]
      exact ⟨hholds2,extended_twice ..⟩

/-- One turn: the store goes on showing its log, and the turn is stored whole
unless the pattern tears it. -/
theorem handle_whole_iff {maxMessages : ℕ+} (store : WorkingStore maxMessages μ)
    (fails : ℕ → Option String) (r : Router ω (Filed μ))
    (hstore : r.memory = failing fails store.toStore) (request : AssistantRequest)
    (s : Session ω (Filed μ)) (hholds : store.Holds s.memory.memory s.memory.log) :
    store.Holds (r.handle request s).session.memory.memory
        (r.handle request s).session.memory.log ∧
      (Whole r s request ↔ Untorn fails r s request) := by
  rcases handle_files r request s with ⟨hmemory,hsilent⟩ | ⟨answer,now,houtcome,hd,hmemory⟩
  · rw [hmemory]
    use hholds
    exact ⟨fun _ h => absurd h hsilent,fun _ => .inl (by rw [hmemory])⟩
  · obtain ⟨hholds',hlog⟩ :=
      remember_files store fails r hstore request answer.text now s.memory hholds
    rw [Whole, Untorn, hmemory]
    use hholds'
    have hanswers : Answers (r.handle request s) := ⟨answer,houtcome,hd⟩
    have hexchange := exchange_answered request.conversationId request _ answer houtcome hd
    rw [if_pos rfl] at hexchange
    rw [hlog]
    simp only [Torn, hanswers, true_imp_iff]
    cases h1 : fails s.memory.calls with
    | some error => simp
    | none =>
      cases h2 : fails (s.memory.calls+1) with
      | none =>
        have hboth : (fun c => s.memory.log c ++ exchange c (request,r.handle request s)) =
            fun c => s.memory.log c ++ if request.conversationId = c then
              [⟨.user,request.text⟩,⟨.assistant,answer.text⟩] else [] := by
          funext c
          rw [exchange_answered c request _ answer houtcome hd]
        simp [hboth]
      | some error =>
        -- the question alone is one record more, the exchange would be two
        have hone : (extended s.memory.log request.conversationId ⟨.user,request.text⟩
            request.conversationId).length =
              (s.memory.log request.conversationId).length + 1 := by
          simp [extended]
        simp only [ne_eq, reduceCtorEq, not_false_eq_true, and_self, not_true_eq_false,
          iff_false, not_or]
        constructor
        · intro h
          have := congrArg List.length (congrFun h request.conversationId)
          omega
        · intro h
          have := congrArg List.length (congrFun h request.conversationId)
          rw [hone, List.length_append, hexchange] at this
          simp at this

theorem runTurns_after (r : Router ω μ) (requests : List AssistantRequest) (s : Session ω μ) :
    (runTurns r requests s).2 = after (next r) requests s := by
  induction requests generalizing s with
  | nil => rfl
  | cons request rest ih => exact ih _

/-- A run whose turns are stored whole adds some of its turns to the log. -/
theorem runTurns_kept (r : Router ω (Filed μ)) (requests : List AssistantRequest)
    (s : Session ω (Filed μ)) (hwhole : Throughout (next r) (Whole r) requests s) :
    ∃ kept, kept.Sublist (runTurns r requests s).1 ∧ ∀ c,
      (runTurns r requests s).2.memory.log c = s.memory.log c ++ transcript c kept := by
  induction requests generalizing s with
  | nil => exact ⟨[],List.Sublist.refl _,fun c => (List.append_nil _).symm⟩
  | cons request rest ih =>
    obtain ⟨hfirst,hrest⟩ := (throughout_cons request rest s).mp hwhole
    obtain ⟨kept,hsub,hlog⟩ := ih _ hrest
    rcases hfirst with hsame | hadded
    · use kept, hsub.cons _
      intro c
      exact (hlog c).trans (by rw [next, hsame])
    · use (request,r.handle request s)::kept, hsub.cons_cons _
      intro c
      refine (hlog c).trans ?_
      rw [next, hadded, List.append_assoc]
      rfl

/-- A window of a log of exchanges is the log of the last of them. -/
theorem shown_transcript (maxMessages : ℕ+) (c : ConversationId)
    (kept : List (AssistantRequest × Turn ω μ)) :
    ∃ recent, recent <:+ kept ∧ shown maxMessages (transcript c kept) = transcript c recent := by
  apply window_flatMap
  · intro entry message hmessage
    unfold exchange at hmessage
    split at hmessage
    · split at hmessage
      · obtain rfl : ⟨.user,entry.1.text⟩ = message := by simpa using hmessage
        rfl
      · simp at hmessage
    · simp at hmessage
  · intro entry message hmessage
    unfold exchange at hmessage
    split at hmessage
    · rename_i answer _
      split at hmessage
      · obtain rfl : message = ⟨.assistant,answer.text⟩ := by simpa using hmessage
        rfl
      · simp at hmessage
    · simp at hmessage

theorem turns_are_whole_iff {maxMessages : ℕ+} (store : WorkingStore maxMessages μ)
    (fails : ℕ → Option String) (r : Router ω (Filed μ))
    (hstore : r.memory = failing fails store.toStore) (start : Session ω (Filed μ))
    (hempty : store.Holds start.memory.memory fun _ => [])
    (hlog : start.memory.log = fun _ => []) (requests : List AssistantRequest) :
    (Throughout (next r) (Whole r) requests start ∧ ∀ front, front <+: requests → ∀ c,
      Answered r (runTurns r front start).1 (runTurns r front start).2.memory c) ↔
    Throughout (next r) (Untorn fails r) requests start := by
  have hstart : store.Holds start.memory.memory start.memory.log := hlog ▸ hempty
  let I : Session ω (Filed μ) → Prop := fun s => store.Holds s.memory.memory s.memory.log
  have hstep : ∀ s request, I s → I (next r s request) := fun s request h =>
    (handle_whole_iff store fails r hstore request s h).1
  rw [← throughout_congr I hstep (fun s request h =>
    (handle_whole_iff store fails r hstore request s h).2) requests start hstart]
  constructor
  · exact And.left
  · intro hwhole
    use hwhole
    rintro front ⟨back,rfl⟩ c
    have hfront := ((throughout_append front back start).mp hwhole).1
    obtain ⟨kept,hsub,hkept⟩ := runTurns_kept r front start hfront
    obtain ⟨recent,hrecent,hshown⟩ := shown_transcript maxMessages c kept
    have hc : (runTurns r front start).2.memory.log c = transcript c kept := by
      rw [hkept, hlog]
      rfl
    have hholds : I (runTurns r front start).2 := by
      rw [runTurns_after]
      exact hfront.keeps I (fun s request h _ => hstep s request h) hstart
    use kept, recent, hsub, hrecent, hc
    rw [hstore]
    exact (store.shows _ _ c hholds).trans (by rw [hc, hshown])

end

def filing (fails : ℕ → Option String) : Router Unit (Filed InMemoryConversationMemory) where
  llm := fun _ w => (.ok ⟨[.text "Sono le 18:30."],some "end_turn"⟩,w)
  memory := failing fails inMemoryStore
  systemPrompt := "Sei EMMA."
  tools := []
  contextProviders := []
  toolGate := none
  maxToolIterations := defaultMaxToolIterations
  clock := fun _ => 0
  distinct := postInit_nil Unit

def blank (maxMessages : ℕ+) : Session Unit (Filed InMemoryConversationMemory) :=
  ⟨⟨0,0,none,none⟩,⟨.create maxMessages,0,fun _ => []⟩,()⟩

def fullAt (call : ℕ) : ℕ → Option String :=
  fun n => if n = call then some "no space left on device" else none

theorem lost_turn_is_whole :
    Throughout (next (filing (fullAt 0))) (Untorn (fullAt 0) (filing (fullAt 0)))
      [⟨"che ore sono?","1","1"⟩,⟨"ciao","1","1"⟩] (blank 20) ∧
    Throughout (next (filing (fullAt 0))) (Whole (filing (fullAt 0)))
      [⟨"che ore sono?","1","1"⟩,⟨"ciao","1","1"⟩] (blank 20) := by
  have huntorn : Throughout (next (filing (fullAt 0))) (Untorn (fullAt 0) (filing (fullAt 0)))
      [⟨"che ore sono?","1","1"⟩,⟨"ciao","1","1"⟩] (blank 20) := by
    rw [throughout_cons, throughout_cons]
    exact ⟨fun _ h => absurd h.1 (by decide),fun _ h => h.2 (by decide),throughout_nil _⟩
  exact ⟨huntorn,((turns_are_whole_iff (workingInMemory 20) (fullAt 0) (filing (fullAt 0)) rfl
    (blank 20) (workingInMemory_reaches 20 []) rfl _).mpr huntorn).1⟩

theorem question_is_left_alone :
    Answers ((filing (fullAt 1)).handle ⟨"che ore sono?","1","1"⟩ (blank 20)) ∧
    ((filing (fullAt 1)).handle ⟨"che ore sono?","1","1"⟩ (blank 20)).session.memory.log "1" =
      [⟨.user,"che ore sono?"⟩] ∧
    ¬Whole (filing (fullAt 1)) (blank 20) ⟨"che ore sono?","1","1"⟩ := by
  have hlog : ((filing (fullAt 1)).handle ⟨"che ore sono?","1","1"⟩ (blank 20)).session.memory.log
      "1" = [⟨.user,"che ore sono?"⟩] := by decide
  have hexchange : exchange "1" ((⟨"che ore sono?","1","1"⟩ : AssistantRequest),
      (filing (fullAt 1)).handle ⟨"che ore sono?","1","1"⟩ (blank 20)) =
        [⟨.user,"che ore sono?"⟩,⟨.assistant,"Sono le 18:30."⟩] := by decide
  refine ⟨⟨_,rfl,rfl⟩,hlog,?_⟩
  rintro (h | h)
  · have h1 := congrFun h "1"
    rw [hlog] at h1
    exact absurd h1 (by decide)
  · have h1 := congrFun h "1"
    rw [hlog, hexchange] at h1
    exact absurd h1 (by decide)

end Emma.TurnStorage

import Emma.ConversationMemory
import Emma.Telegram

/-!
# Strangers are invisible

Both handlers test the sender before anything else is done, so an update of
somebody else changes nothing at all. What is sent goes to the chat of the
update that is being handled.
-/

set_option autoImplicit false

namespace Emma.Strangers
open Emma.Python Emma.LanguageModel Emma.Orchestrator Emma.Telegram

section
variable {ω μ : Type}

instance (allowedUserId : ℤ) (e : Incoming) : Decidable (e.FromStranger allowedUserId) :=
  match h : e.update with
  | none => isFalse fun ⟨update,hupdate,_⟩ => by
      rw [h] at hupdate
      cases hupdate
  | some update =>
    if hsame : update.effectiveUser = some allowedUserId then
      isFalse fun ⟨other,hother,hdiffers⟩ => by
        rw [h] at hother
        obtain rfl := Option.some.inj hother
        exact hdiffers hsame
    else isTrue ⟨update,h,hsame⟩

theorem onTextMessage_stranger (a : TelegramAdapter ω μ) (network : Network) (update : Update)
    (s : Exchange ω μ) (h : update.effectiveUser ≠ some a.allowedUserId) :
    (a.onTextMessage network update s).2 = s := by
  unfold TelegramAdapter.onTextMessage
  split
  · rename_i text user chat _ huser _
    have hother : user ≠ a.allowedUserId := by
      rintro rfl
      exact h huser
    split
    · rfl
    · rfl
  · rfl

theorem onError_stranger (a : TelegramAdapter ω μ) (network : Network) (update : Update)
    (s : Exchange ω μ) (h : update.effectiveUser ≠ some a.allowedUserId) :
    a.onError network (some update) s = s := by
  unfold TelegramAdapter.onError
  dsimp only
  split
  · rename_i chat user _ huser
    have hother : user ≠ a.allowedUserId := by
      rintro rfl
      exact h huser
    rw [if_pos hother]
  · rfl

theorem receive_stranger (a : TelegramAdapter ω μ) (network : Network) (s : Exchange ω μ)
    (e : Incoming) (h : e.FromStranger a.allowedUserId) : receive a network s e = s := by
  obtain ⟨update,hupdate,hother⟩ := h
  cases e with
  | message other =>
    obtain rfl := Option.some.inj hupdate
    exact onTextMessage_stranger a network other s hother
  | fault other =>
    obtain rfl : other = some update := hupdate
    exact onError_stranger a network update s hother

def owned (allowedUserId : ℤ) (incoming : List Incoming) : List Incoming :=
  incoming.filter fun e => ¬e.FromStranger allowedUserId

theorem run_owned (a : TelegramAdapter ω μ) (network : Network) (incoming : List Incoming)
    (s : Exchange ω μ) : run a network (owned a.allowedUserId incoming) s = run a network incoming s := by
  induction incoming generalizing s with
  | nil => rfl
  | cons e incoming ih =>
    by_cases hstranger : e.FromStranger a.allowedUserId
    · have hsame := receive_stranger a network s e hstranger
      rw [owned, List.filter_cons_of_neg (by simpa using hstranger)]
      change run a network (owned a.allowedUserId incoming) s =
        run a network incoming (receive a network s e)
      rw [hsame]
      exact ih s
    · rw [owned, List.filter_cons_of_pos (by simpa using hstranger)]
      exact ih (receive a network s e)

theorem onTextMessage_chat (a : TelegramAdapter ω μ) (network : Network) (update : Update)
    (s : Exchange ω μ) : ∀ sending ∈ (a.onTextMessage network update s).2.sendings,
      sending ∈ s.sendings ∨ update.effectiveUser = some a.allowedUserId ∧
        update.effectiveChat = some sending.chat := by
  intro sending hsending
  unfold TelegramAdapter.onTextMessage at hsending
  split at hsending
  · rename_i text user chat _ huser hchat
    split at hsending
    · exact .inl hsending
    split at hsending
    · exact .inl hsending
    rename_i howner
    obtain rfl := not_not.mp howner
    have hmine : sending.chat = chat → update.effectiveUser = some a.allowedUserId ∧
        update.effectiveChat = some sending.chat := by
      rintro rfl
      exact ⟨huser,hchat⟩
    dsimp only at hsending
    split at hsending
    · exact (record_chat chat _ _ s sending hsending).imp_right hmine
    · rcases deliver_chat network chat _ _ sending hsending with hbefore | hnew
      · exact (record_chat chat _ _ s sending hbefore).imp_right hmine
      · exact .inr (hmine hnew)
  · exact .inl hsending

theorem onError_chat (a : TelegramAdapter ω μ) (network : Network) (update : Update)
    (s : Exchange ω μ) : ∀ sending ∈ (a.onError network (some update) s).sendings,
      sending ∈ s.sendings ∨ update.effectiveUser = some a.allowedUserId ∧
        update.effectiveChat = some sending.chat := by
  intro sending hsending
  unfold TelegramAdapter.onError at hsending
  dsimp only at hsending
  split at hsending
  · rename_i chat user hchat huser
    split at hsending
    · exact .inl hsending
    rename_i howner
    obtain rfl := not_not.mp howner
    rcases record_chat chat _ _ s sending hsending with hold | hnew
    · exact .inl hold
    · exact .inr ⟨huser,hnew ▸ hchat⟩
  · exact .inl hsending

/-- What is sent while an update is handled goes to the chat of that update, and
its sender is the whitelisted user. -/
theorem receive_chat (a : TelegramAdapter ω μ) (network : Network) (s : Exchange ω μ)
    (e : Incoming) : ∀ sending ∈ (receive a network s e).sendings, sending ∈ s.sendings ∨
      ∃ update, e.update = some update ∧ update.effectiveUser = some a.allowedUserId ∧
        update.effectiveChat = some sending.chat := by
  intro sending hsending
  cases e with
  | message update =>
    have hfrom := onTextMessage_chat a network update s sending hsending
    exact hfrom.imp_right fun h => ⟨update,rfl,h⟩
  | fault update => cases update with
    | none => exact .inl hsending
    | some update =>
      have hfrom := onError_chat a network update s sending hsending
      exact hfrom.imp_right fun h => ⟨update,rfl,h⟩

theorem run_chat (a : TelegramAdapter ω μ) (network : Network) (incoming : List Incoming)
    (s : Exchange ω μ) : ∀ sending ∈ (run a network incoming s).sendings, sending ∈ s.sendings ∨
      ∃ e ∈ incoming, ∃ update, e.update = some update ∧
        update.effectiveUser = some a.allowedUserId ∧
        update.effectiveChat = some sending.chat := by
  induction incoming generalizing s with
  | nil => exact fun sending h => .inl h
  | cons e incoming ih =>
    intro sending hsending
    rcases ih (receive a network s e) sending hsending with hbefore | ⟨other,hother,hfrom⟩
    · rcases receive_chat a network s e sending hbefore with hold | hnew
      · exact .inl hold
      · exact .inr ⟨e,List.mem_cons_self,hnew⟩
    · exact .inr ⟨other,List.mem_cons_of_mem e hother,hfrom⟩

/-- Without the updates of strangers everything is as it is with them: what was
passed to the router, what it stored, and what was sent. And whatever was sent
went to the chat of an update of the whitelisted user. -/
theorem strangers_are_invisible (a : TelegramAdapter ω μ) (network : Network)
    (incoming : List Incoming) (session : Session ω μ) :
    run a network (owned a.allowedUserId incoming) (opened session) =
      run a network incoming (opened session) ∧
    ∀ sending ∈ (run a network incoming (opened session)).sendings,
      ∃ e ∈ incoming, ∃ update, e.update = some update ∧
        update.effectiveUser = some a.allowedUserId ∧
        update.effectiveChat = some sending.chat := by
  constructor
  · exact run_owned a network incoming (opened session)
  · intro sending hsending
    rcases run_chat a network incoming (opened session) sending hsending with hnone | hfrom
    · cases hnone
    · exact hfrom

theorem deliver_keeps (network : Network) (chat : ℤ) (texts : List String) (s : Exchange ω μ)
    (sending : Sending) (h : sending ∈ s.sendings) :
    sending ∈ (TelegramAdapter.deliver network chat texts s).sendings := by
  induction texts generalizing s with
  | nil => exact h
  | cons text texts ih => exact ih _ (List.mem_append_left _ h)

/-- A message of the whitelisted user is answered where it was written. -/
theorem owner_is_answered (a : TelegramAdapter ω μ) (network : Network) (text : String) (chat : ℤ)
    (s : Exchange ω μ) (htext : text ≠ "") : ⟨chat,.typing,[network s.asked]⟩ ∈
      (receive a network s (.message ⟨some (some text),some a.allowedUserId,some chat⟩)).sendings := by
  have htyped : ⟨chat,.typing,[network s.asked]⟩ ∈
      (TelegramAdapter.showTyping network chat s).sendings :=
    List.mem_append_right _ (List.mem_singleton_self _)
  dsimp only [receive, TelegramAdapter.onTextMessage]
  rw [if_neg htext, if_neg (not_not.mpr rfl)]
  split
  · exact htyped
  · exact deliver_keeps network chat _ _ _ htyped

end

def groupTalk : List Incoming :=
  [.message ⟨some (some "ciao a tutti"),some 1,some (-7)⟩,
    .message ⟨some (some "che ore sono?"),some 42,some (-7)⟩]

def groupAdapter : TelegramAdapter Unit Unit where
  allowedUserId := 42
  router :=
    { llm := fun _ w => (.error (.unavailable ""),w)
      memory := ⟨fun _ _ => .ok [],fun _ _ _ _ => (.ok (),())⟩
      systemPrompt := ""
      tools := []
      contextProviders := []
      toolGate := none
      maxToolIterations := defaultMaxToolIterations
      clock := fun _ => 0
      distinct := postInit_nil Unit }

/-- The chat of a stranger may be the user's own. -/
theorem group_is_answered : ¬∀ sending ∈ (run groupAdapter (fun _ => .acknowledged) groupTalk
      (opened ⟨⟨0,0,none,none⟩,(),()⟩)).sendings,
    ∀ e ∈ groupTalk, e.FromStranger groupAdapter.allowedUserId →
      ∀ update, e.update = some update → update.effectiveChat ≠ some sending.chat := by
  intro hnever
  have hsent := owner_is_answered groupAdapter (fun _ => .acknowledged) "che ore sono?" (-7)
    (receive groupAdapter (fun _ => .acknowledged) (opened ⟨⟨0,0,none,none⟩,(),()⟩)
      (.message ⟨some (some "ciao a tutti"),some 1,some (-7)⟩)) (by decide)
  exact hnever _ hsent (.message ⟨some (some "ciao a tutti"),some 1,some (-7)⟩) (by simp [groupTalk])
    ⟨_,rfl,by decide⟩ _ rfl rfl

end Emma.Strangers

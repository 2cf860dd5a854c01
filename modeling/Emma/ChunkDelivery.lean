import Emma.Telegram

/-!
# How often a chunk is shown

A request may be accepted and look as if it had failed, and is then made again.
The attempts for one chunk are over before those for the next begin, so chunks
are shown in order, some of them more than once.
-/

set_option autoImplicit false

namespace Emma.ChunkDelivery
open Emma.Orchestrator Emma.Telegram

def shown (sending : Sending) : ℕ := sending.attempts.countP Attempt.accepted

def appearances : ℕ → List Sending → List ℕ
  | _, [] => []
  | place, sending::rest => List.replicate (shown sending) place ++ appearances (place+1) rest

def Repeated (attempts : List Attempt) : Prop :=
  ∃ front between last back,
    attempts = front ++ .transient true::(between ++ last::back) ∧ last.accepted = true

structure Shown (texts : List String) (answer : List Sending) : Prop where
  pieces : answer.map Sending.payload = texts.map .text
  ordered : (appearances 0 answer).Pairwise (· ≤ ·)
  often : ∀ sending ∈ answer, shown sending ≤ defaultSendAttempts
  once : (appearances 0 answer).Pairwise (· < ·) ↔ ∀ sending ∈ answer, ¬Repeated sending.attempts

theorem attempts_length (network : Network) (left asked : ℕ) :
    (TelegramAdapter.attempts network left asked).length ≤ left := by
  induction left generalizing asked with
  | zero => exact Nat.le_refl 0
  | succ left ih =>
    have hrest := ih (asked+1)
    rw [TelegramAdapter.attempts]
    split
    · rw [List.length_cons]
      omega
    · rw [List.length_singleton]
      omega

theorem attempts_transient (network : Network) (left asked : ℕ) (front rest : List Attempt)
    (attempt : Attempt) (hrest : rest ≠ [])
    (h : TelegramAdapter.attempts network left asked = front ++ attempt::rest) :
    ∃ accepted, attempt = .transient accepted := by
  induction left generalizing asked front with
  | zero => simp [TelegramAdapter.attempts] at h
  | succ left ih =>
    rw [TelegramAdapter.attempts] at h
    split at h
    · rename_i accepted _
      cases front with
      | nil =>
        obtain ⟨rfl,-⟩ := List.cons.inj h
        exact ⟨accepted,rfl⟩
      | cons first front =>
        obtain ⟨-,hmore⟩ := List.cons.inj h
        exact ih (asked+1) front hmore
    · cases front with
      | nil =>
        obtain ⟨-,hnone⟩ := List.cons.inj h
        exact absurd hnone.symm hrest
      | cons first front =>
        obtain ⟨-,hnone⟩ := List.cons.inj h
        simp at hnone

/-- Two accepted attempts can be told apart in any list that has two. -/
theorem two_accepted (attempts : List Attempt) (h : 2 ≤ attempts.countP Attempt.accepted) :
    ∃ front first between last back, attempts = front ++ first::(between ++ last::back) ∧
      first.accepted = true ∧ last.accepted = true := by
  induction attempts with
  | nil => simp at h
  | cons attempt attempts ih =>
    cases haccepted : attempt.accepted with
    | true =>
      rw [List.countP_cons_of_pos haccepted] at h
      have hmore : 0 < attempts.countP Attempt.accepted := by omega
      obtain ⟨last,hlast,hlastAccepted⟩ := List.countP_pos_iff.mp hmore
      obtain ⟨between,back,rfl⟩ := List.append_of_mem hlast
      exact ⟨[],attempt,between,last,back,rfl,haccepted,hlastAccepted⟩
    | false =>
      rw [List.countP_cons_of_neg (by simp [haccepted])] at h
      obtain ⟨front,first,between,last,back,rfl,hfirst,hlast⟩ := ih h
      exact ⟨attempt::front,first,between,last,back,rfl,hfirst,hlast⟩

/-- The message of a chunk is shown again exactly when an acceptance went
unnoticed before it. -/
theorem shown_once_iff (network : Network) (left asked : ℕ) :
    (TelegramAdapter.attempts network left asked).countP Attempt.accepted ≤ 1 ↔
      ¬Repeated (TelegramAdapter.attempts network left asked) := by
  constructor
  · rintro hcount ⟨front,between,last,back,hattempts,hlast⟩
    rw [hattempts, List.countP_append, List.countP_cons_of_pos rfl, List.countP_append,
      List.countP_cons_of_pos hlast] at hcount
    omega
  · intro hnot
    by_contra hcount
    obtain ⟨front,first,between,last,back,hattempts,hfirst,hlast⟩ :=
      two_accepted (TelegramAdapter.attempts network left asked) (by omega)
    obtain ⟨accepted,rfl⟩ := attempts_transient network left asked front _ first (by simp) hattempts
    obtain rfl : accepted = true := hfirst
    exact hnot ⟨front,between,last,back,hattempts,hlast⟩

theorem appearances_from (place : ℕ) (answer : List Sending) :
    ∀ i ∈ appearances place answer, place ≤ i := by
  induction answer generalizing place with
  | nil => simp [appearances]
  | cons sending answer ih =>
    intro i hi
    rcases List.mem_append.mp hi with hi | hi
    · exact Nat.le_of_eq (List.eq_of_mem_replicate hi).symm
    · have hlater := ih (place+1) i hi
      omega

theorem appearances_ordered (place : ℕ) (answer : List Sending) :
    (appearances place answer).Pairwise (· ≤ ·) := by
  induction answer generalizing place with
  | nil => exact List.Pairwise.nil
  | cons sending answer ih =>
    rw [appearances, List.pairwise_append]
    refine ⟨List.pairwise_replicate.mpr (.inr (Nat.le_refl place)),ih (place+1),?_⟩
    intro i hi j hj
    have hlater := appearances_from (place+1) answer j hj
    have hsame := List.eq_of_mem_replicate hi
    omega

theorem appearances_once (place : ℕ) (answer : List Sending) :
    (appearances place answer).Pairwise (· < ·) ↔ ∀ sending ∈ answer, shown sending ≤ 1 := by
  induction answer generalizing place with
  | nil => simp [appearances]
  | cons sending answer ih =>
    rw [appearances, List.pairwise_append, ih, List.forall_mem_cons, List.pairwise_replicate]
    constructor
    · rintro ⟨hone,hrest,-⟩
      exact ⟨hone.resolve_right (Nat.lt_irrefl place),hrest⟩
    · rintro ⟨hone,hrest⟩
      refine ⟨.inl hone,hrest,?_⟩
      intro i hi j hj
      have hlater := appearances_from (place+1) answer j hj
      have hsame := List.eq_of_mem_replicate hi
      omega

section
variable {ω μ : Type}

def answered (network : Network) (chat : ℤ) : List String → ℕ → List Sending
  | [], _ => []
  | text::texts, asked =>
    let made := TelegramAdapter.attempts network defaultSendAttempts asked
    ⟨chat,.text text,made⟩::answered network chat texts (asked+made.length)

theorem deliver_sendings (network : Network) (chat : ℤ) (texts : List String)
    (s : Exchange ω μ) : (TelegramAdapter.deliver network chat texts s).sendings =
      s.sendings ++ answered network chat texts s.asked := by
  induction texts generalizing s with
  | nil => exact (List.append_nil _).symm
  | cons text texts ih =>
    have hrest := ih (TelegramAdapter.send network chat (.text text) s).2
    change (TelegramAdapter.deliver network chat texts
      (TelegramAdapter.send network chat (.text text) s).2).sendings = _
    rw [hrest]
    exact List.append_assoc s.sendings _ _

theorem answered_payloads (network : Network) (chat : ℤ) (texts : List String) (asked : ℕ) :
    (answered network chat texts asked).map Sending.payload = texts.map .text := by
  induction texts generalizing asked with
  | nil => rfl
  | cons text texts ih =>
    rw [answered, List.map_cons, List.map_cons, ih]

theorem answered_attempts (network : Network) (chat : ℤ) (texts : List String) (asked : ℕ) :
    ∀ sending ∈ answered network chat texts asked,
      ∃ n, sending.attempts = TelegramAdapter.attempts network defaultSendAttempts n := by
  induction texts generalizing asked with
  | nil => simp [answered]
  | cons text texts ih =>
    intro sending hsending
    rcases List.mem_cons.mp hsending with rfl | hsending
    · exact ⟨asked,rfl⟩
    · exact ih _ sending hsending

/-- Whatever the network does, the chunks of an answer are shown in the order of
the text, none of them more often than it is tried, and each at most once
exactly when no unnoticed acceptance is followed by another. -/
theorem chunks_in_order (network : Network) (chat : ℤ) (text : String) (s : Exchange ω μ) :
    ∃ answer, (TelegramAdapter.deliver network chat (splitMessage text maxMessageLength) s).sendings =
        s.sendings ++ answer ∧ Shown (splitMessage text maxMessageLength) answer := by
  refine ⟨_,deliver_sendings network chat _ s,?_⟩
  have hattempts := answered_attempts network chat (splitMessage text maxMessageLength) s.asked
  constructor
  · exact answered_payloads network chat _ s.asked
  · exact appearances_ordered 0 _
  · intro sending hsending
    obtain ⟨n,hmade⟩ := hattempts sending hsending
    have hlength := attempts_length network defaultSendAttempts n
    rw [shown, hmade]
    exact (List.countP_le_length).trans hlength
  · rw [appearances_once]
    have hone : ∀ sending ∈ answered network chat (splitMessage text maxMessageLength) s.asked,
        shown sending ≤ 1 ↔ ¬Repeated sending.attempts := by
      intro sending hsending
      obtain ⟨n,hmade⟩ := hattempts sending hsending
      rw [shown, hmade]
      exact shown_once_iff network defaultSendAttempts n
    exact forall₂_congr hone

end

def lostAcknowledgement : Network := fun n => if n = 0 then .transient true else .acknowledged

theorem chunk_is_shown_twice : ¬∀ answer, (TelegramAdapter.deliver lostAcknowledgement 99
      (splitMessage "ciao" maxMessageLength) (opened (⟨⟨0,0,none,none⟩,(),()⟩ :
        Session Unit Unit))).sendings = answer → (appearances 0 answer).Pairwise (· < ·) := by
  intro honce
  have hsplit : splitMessage "ciao" maxMessageLength = ["ciao"] := by
    rw [splitMessage, if_neg (by decide), chunks, if_neg (by decide)]
    rfl
  have htwice := honce _ rfl
  rw [hsplit] at htwice
  revert htwice
  decide

end Emma.ChunkDelivery

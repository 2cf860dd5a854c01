import Mathlib.Data.List.Basic
import Mathlib.Data.List.DropRight
import Mathlib.Data.List.TakeWhile
import Mathlib.Data.List.Flatten

/-!
# Text that can be read back

A text is put together from runs of one kind of character and from what stands
between them. Where the kind changes it can be cut in one way only, and words
joined by a single break are the words of the result.
-/

set_option autoImplicit false

namespace Delimited

variable {α : Type*}

def Stops (p : α → Bool) (tail : List α) : Prop := ∀ a ∈ tail.head?, p a = false

theorem stops_nil (p : α → Bool) : Stops p [] := by simp [Stops]

theorem stops_cons (p : α → Bool) (a : α) (tail : List α) (h : p a = false) :
    Stops p (a::tail) := by simpa [Stops] using h

theorem takeWhile_run (p : α → Bool) (run tail : List α) (hrun : ∀ a ∈ run, p a = true)
    (htail : Stops p tail) : (run ++ tail).takeWhile p = run := by
  rw [List.takeWhile_append_of_pos hrun]
  cases tail with
  | nil => simp
  | cons a tail => simp [htail a (by simp)]

theorem dropWhile_run (p : α → Bool) (run tail : List α) (hrun : ∀ a ∈ run, p a = true)
    (htail : Stops p tail) : (run ++ tail).dropWhile p = tail := by
  rw [List.dropWhile_append_of_pos hrun]
  cases tail with
  | nil => simp
  | cons a tail => simp [htail a (by simp)]

theorem rdropWhile_run (p : α → Bool) (front run : List α) (hrun : ∀ a ∈ run, p a = true)
    (hfront : ∀ a ∈ front.getLast?, p a = false) : (front ++ run).rdropWhile p = front := by
  rw [List.rdropWhile, List.reverse_append, dropWhile_run p run.reverse front.reverse,
    List.reverse_reverse]
  · intro a ha
    exact hrun a (List.mem_reverse.mp ha)
  · intro a ha
    rw [List.head?_reverse] at ha
    exact hfront a ha

theorem run_unique (p : α → Bool) {run run' tail tail' : List α}
    (hrun : ∀ a ∈ run, p a = true) (hrun' : ∀ a ∈ run', p a = true)
    (htail : Stops p tail) (htail' : Stops p tail') (h : run ++ tail = run' ++ tail') :
    run = run' ∧ tail = tail' := by
  have htake := congrArg (List.takeWhile p) h
  have hdrop := congrArg (List.dropWhile p) h
  rw [takeWhile_run p run tail hrun htail, takeWhile_run p run' tail' hrun' htail'] at htake
  rw [dropWhile_run p run tail hrun htail, dropWhile_run p run' tail' hrun' htail'] at hdrop
  exact ⟨htake,hdrop⟩

theorem cut_unique [DecidableEq α] {a : α} {front front' tail tail' : List α}
    (hfront : a ∉ front) (hfront' : a ∉ front') (h : front ++ a::tail = front' ++ a::tail') :
    front = front' ∧ tail = tail' := by
  have hcut := run_unique (fun b => decide (b ≠ a))
    (fun b hb => by simpa using fun hba : b = a => hfront (hba ▸ hb))
    (fun b hb => by simpa using fun hba : b = a => hfront' (hba ▸ hb))
    (stops_cons _ a tail (by simp)) (stops_cons _ a tail' (by simp)) h
  exact ⟨hcut.1,(List.cons.inj hcut.2).2⟩

theorem digits_injective {m n : ℕ} (h : Nat.toDigits 10 m = Nat.toDigits 10 n) : m = n := by
  have hread := congrArg (Nat.ofDigitChars 10 · 0) h
  simpa using hread

theorem digits_run (n : ℕ) : ∀ c ∈ Nat.toDigits 10 n, c.isDigit = true :=
  fun _ hc => Nat.isDigit_of_mem_toDigits (by omega) (by omega) hc

theorem digits_lead (n : ℕ) (h : 0 < n) : (Nat.toDigits 10 n).head? ≠ some '0' := by
  have hdigit : ∀ d < 10, 0 < d → [Nat.digitChar d].head? ≠ some '0' := by decide
  induction n using Nat.strong_induction_on with
  | _ n ih =>
    rw [Nat.toDigits_eq_if (by decide)]
    split
    · rename_i hsmall
      exact hdigit n hsmall h
    · rw [List.head?_append_of_ne_nil _ Nat.toDigits_ne_nil]
      exact ih (n/10) (by omega) (by omega)

theorem numeral_unique {m n : ℕ} {tail tail' : List Char} (htail : Stops Char.isDigit tail)
    (htail' : Stops Char.isDigit tail')
    (h : Nat.toDigits 10 m ++ tail = Nat.toDigits 10 n ++ tail') : m = n ∧ tail = tail' := by
  have hcut := run_unique Char.isDigit (digits_run m) (digits_run n) htail htail' h
  exact ⟨digits_injective hcut.1,hcut.2⟩

def numerals (mark separator : List Char) (ns : List ℕ) : List Char :=
  separator.intercalate (ns.map fun n => mark ++ Nat.toDigits 10 n)

theorem numerals_cons (mark separator : List Char) (n : ℕ) (ns : List ℕ) :
    numerals mark separator (n::ns) = mark ++ (Nat.toDigits 10 n ++
      if ns = [] then [] else separator ++ numerals mark separator ns) := by
  cases ns <;> simp [numerals, List.intercalate_cons_cons]

theorem mem_numerals (mark separator : List Char) (ns : List ℕ) (c : Char)
    (h : c ∈ numerals mark separator ns) : c ∈ mark ∨ c ∈ separator ∨ c.isDigit = true := by
  induction ns with
  | nil => simp [numerals] at h
  | cons n ns ih =>
    rw [numerals_cons, List.mem_append, List.mem_append] at h
    rcases h with h | h | h
    · exact .inl h
    · exact .inr (.inr (digits_run n c h))
    · split at h
      · simp at h
      · rcases List.mem_append.mp h with h | h
        · exact .inr (.inl h)
        · exact ih h

theorem numerals_unique (mark separator : List Char) (hseparator : Stops Char.isDigit separator)
    (hsome : separator ≠ []) {ms ns : List ℕ}
    (h : numerals mark separator ms = numerals mark separator ns) : ms = ns := by
  induction ms generalizing ns with
  | nil =>
    cases ns with
    | nil => rfl
    | cons n ns =>
      rw [numerals_cons] at h
      simp [numerals] at h
  | cons m ms ih =>
    cases ns with
    | nil =>
      rw [numerals_cons] at h
      simp [numerals] at h
    | cons n ns =>
      have hstops : ∀ tail : List ℕ, Stops Char.isDigit
          (if tail = [] then [] else separator ++ numerals mark separator tail) := by
        intro tail
        split
        · exact stops_nil _
        · cases separator with
          | nil => exact absurd rfl hsome
          | cons c cs => simpa [Stops] using hseparator
      rw [numerals_cons, numerals_cons] at h
      obtain ⟨rfl,htail⟩ := numeral_unique (hstops ms) (hstops ns) (List.append_cancel_left h)
      congr 1
      by_cases hms : ms = [] <;> by_cases hns : ns = []
      · rw [hms, hns]
      · simp [hms, hns, hsome] at htail
      · simp [hms, hns, hsome] at htail
      · rw [if_neg hms, if_neg hns] at htail
        exact ih (List.append_cancel_left htail)

def words (p : α → Bool) (text : List α) : List (List α) :=
  (text.splitOnP p).filter fun word => !word.isEmpty

theorem words_append_break (p : α → Bool) (front tail : List α) (a : α) (ha : p a = true) :
    words p (front ++ a::tail) = words p front ++ words p tail := by
  rw [words, List.splitOnP_append_cons front tail ha, List.filter_append]
  rfl

theorem words_word (p : α → Bool) (word : List α) (hword : word ≠ [])
    (hp : ∀ a ∈ word, p a = false) : words p word = [word] := by
  simp [words, List.splitOnP_eq_singleton hp, hword]

/-- A piece of a split stands in the text, before its end or a separator. -/
theorem mem_splitOn [DecidableEq α] (a : α) (text piece : List α) (h : piece ∈ text.splitOn a) :
    a ∉ piece ∧ ∃ front back, text = front ++ piece ++ back ∧ ∀ b ∈ back.head?, b = a := by
  generalize hn : text.length = n
  induction n using Nat.strong_induction_on generalizing text with
  | _ n ih =>
    by_cases hmem : a ∈ text
    · obtain ⟨first,rest,rfl,hfirst⟩ := List.eq_append_cons_of_mem hmem
      rw [List.splitOn_append_cons_self, List.splitOn_eq_singleton hfirst, List.singleton_append,
        List.mem_cons] at h
      rcases h with rfl | h
      · exact ⟨hfirst,[],a::rest,by simp,by simp⟩
      · obtain ⟨hnone,front,back,hrest,hends⟩ := ih rest.length (by simp at hn; omega) rest h rfl
        exact ⟨hnone,first ++ a::front,back,by simp [hrest],hends⟩
    · rw [List.splitOn_eq_singleton hmem, List.mem_singleton] at h
      exact ⟨h ▸ hmem,[],[],by simp [h],by simp⟩

theorem mem_splitOnP (p : α → Bool) (text piece : List α) (h : piece ∈ text.splitOnP p) :
    ∀ a ∈ piece, p a = false := by
  induction text generalizing piece with
  | nil =>
    obtain rfl : piece = [] := by simpa using h
    simp
  | cons b text ih =>
    intro a ha
    obtain ⟨first,rest,hsplit⟩ := List.exists_cons_of_ne_nil (List.splitOnP_ne_nil p text)
    rw [List.splitOnP_cons_eq_if_modifyHead, hsplit] at h
    rw [hsplit] at ih
    split at h
    · rcases List.mem_cons.mp h with rfl | h
      · simp at ha
      · exact ih piece h a ha
    · rename_i hb
      rcases List.mem_cons.mp h with rfl | h
      · rcases List.mem_cons.mp ha with rfl | ha
        · simpa using hb
        · exact ih first (by simp) a ha
      · exact ih piece (List.mem_cons_of_mem _ h) a ha

theorem mem_words (p : α → Bool) (text word : List α) (h : word ∈ words p text) :
    word ≠ [] ∧ ∀ a ∈ word, p a = false := by
  obtain ⟨hpiece,hsome⟩ := List.mem_filter.mp h
  exact ⟨by simpa using hsome,mem_splitOnP p text word hpiece⟩

theorem words_join (p : α → Bool) (a : α) (ha : p a = true) (ws : List (List α))
    (hws : ∀ word ∈ ws, word ≠ [] ∧ ∀ b ∈ word, p b = false) :
    words p ([a].intercalate ws) = ws := by
  induction ws with
  | nil => simp [words]
  | cons word ws ih =>
    have hone := hws word (by simp)
    have hrest := ih fun w hw => hws w (List.mem_cons_of_mem _ hw)
    cases ws with
    | nil => simpa using words_word p word hone.1 hone.2
    | cons next ws =>
      rw [List.intercalate_cons_cons, List.append_assoc, List.singleton_append,
        words_append_break p word _ a ha, words_word p word hone.1 hone.2, hrest]
      rfl

/-- Pieces without a break are what the joined text is split into. -/
theorem splitOnP_join (p : α → Bool) (a : α) (ha : p a = true) (pieces : List (List α))
    (hsome : pieces ≠ []) (hpieces : ∀ piece ∈ pieces, ∀ b ∈ piece, p b = false) :
    ([a].intercalate pieces).splitOnP p = pieces := by
  induction pieces with
  | nil => exact absurd rfl hsome
  | cons piece pieces ih =>
    have hone := List.splitOnP_eq_singleton (hpieces piece (by simp))
    cases pieces with
    | nil => simpa using hone
    | cons next pieces =>
      have hrest := ih (by simp) fun q hq => hpieces q (List.mem_cons_of_mem _ hq)
      rw [List.intercalate_cons_cons, List.append_assoc, List.singleton_append,
        List.splitOnP_append_cons piece _ ha, hone, hrest]
      rfl

theorem mem_join (separator : List α) (pieces : List (List α)) (a : α)
    (h : a ∈ separator.intercalate pieces) : a ∈ separator ∨ ∃ piece ∈ pieces, a ∈ piece := by
  induction pieces with
  | nil => simp at h
  | cons piece pieces ih =>
    cases pieces with
    | nil => exact .inr ⟨piece,by simp,by simpa using h⟩
    | cons next pieces =>
      rw [List.intercalate_cons_cons, List.append_assoc, List.mem_append, List.mem_append] at h
      rcases h with h | h | h
      · exact .inr ⟨piece,by simp,h⟩
      · exact .inl h
      · rcases ih h with h | ⟨other,hother,h⟩
        · exact .inl h
        · exact .inr ⟨other,List.mem_cons_of_mem _ hother,h⟩

theorem infix_join (separator : List α) (pieces : List (List α)) (piece : List α)
    (h : piece ∈ pieces) : piece <:+: separator.intercalate pieces := by
  induction pieces with
  | nil => cases h
  | cons first pieces ih =>
    cases pieces with
    | nil =>
      obtain rfl := List.mem_singleton.mp h
      exact ⟨[],[],by simp⟩
    | cons second pieces =>
      rw [List.intercalate_cons_cons]
      rcases List.mem_cons.mp h with rfl | hrest
      · exact ⟨[],separator ++ separator.intercalate (second::pieces),by simp⟩
      · exact (ih hrest).trans ⟨first ++ separator,[],by simp⟩

theorem join_ne_nil (separator : List α) (pieces : List (List α)) (hpieces : pieces ≠ [])
    (hsome : ∀ p ∈ pieces, p ≠ []) : separator.intercalate pieces ≠ [] := by
  cases pieces with
  | nil => exact absurd rfl hpieces
  | cons piece pieces =>
    have hpiece := hsome piece (by simp)
    cases pieces <;> simp [List.intercalate_cons_cons, hpiece]

theorem last_join (separator : List α) (pieces : List (List α)) (hsome : ∀ p ∈ pieces, p ≠ [])
    (a : α) (h : a ∈ (separator.intercalate pieces).getLast?) :
    ∃ piece ∈ pieces, a ∈ piece.getLast? := by
  induction pieces with
  | nil => simp at h
  | cons piece pieces ih =>
    cases pieces with
    | nil => exact ⟨piece,by simp,by simpa using h⟩
    | cons next pieces =>
      have hrest := join_ne_nil separator (next::pieces) (by simp)
        fun p hp => hsome p (List.mem_cons_of_mem _ hp)
      rw [List.intercalate_cons_cons, List.getLast?_append_of_ne_nil _ hrest] at h
      obtain ⟨other,hother,hlast⟩ := ih (fun p hp => hsome p (List.mem_cons_of_mem _ hp)) h
      exact ⟨other,List.mem_cons_of_mem _ hother,hlast⟩

end Delimited

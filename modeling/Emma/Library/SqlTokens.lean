import Mathlib.Data.List.Basic

/-!
# The tokens of an SQL text

A string literal runs from a quote to the next one that is not doubled, and two
quotes in a row inside it denote one. Outside of literals words, symbols, blanks
and the two kinds of comments are told apart. A byte stands as the character of
its number.
-/

set_option autoImplicit false

namespace SqlTokens

inductive Token where
  | word (text : List Char)
  | literal (text : List Char)
  | symbol (c : Char)
  deriving DecidableEq

inductive Mode where
  | between
  | word (text : List Char)
  | literal (text : List Char)
  /-- Behind a quote that closes the literal unless another follows. -/
  | quote (text : List Char)
  | dash
  | slash
  | lineComment
  | blockComment
  | star
  deriving DecidableEq

def isGap (c : Char) : Bool := c = ' ' || c = '\t' || c = '\n' || c = '\r' || c = '\x0c'

def isWordChar (c : Char) : Bool := c.isAlphanum || c = '_' || c = '$' || 128 ≤ c.toNat

def start (c : Char) : List Token × Mode :=
  if isGap c then ([],.between)
  else if isWordChar c then ([],.word [c])
  else if c = '\'' then ([],.literal [])
  else if c = '-' then ([],.dash)
  else if c = '/' then ([],.slash)
  else ([.symbol c],.between)

def ended (token : Token) (c : Char) : List Token × Mode := (token::(start c).1,(start c).2)

def step (mode : Mode) (c : Char) : List Token × Mode :=
  match mode with
  | .between => start c
  | .word text => if isWordChar c then ([],.word (text ++ [c])) else ended (.word text) c
  | .literal text => if c = '\'' then ([],.quote text) else ([],.literal (text ++ [c]))
  | .quote text => if c = '\'' then ([],.literal (text ++ ['\''])) else ended (.literal text) c
  | .dash => if c = '-' then ([],.lineComment) else ended (.symbol '-') c
  | .slash => if c = '*' then ([],.blockComment) else ended (.symbol '/') c
  | .lineComment => if c = '\n' then ([],.between) else ([],.lineComment)
  | .blockComment => if c = '*' then ([],.star) else ([],.blockComment)
  | .star =>
    if c = '/' then ([],.between) else if c = '*' then ([],.star) else ([],.blockComment)

def walk (mode : Mode) : List Char → List Token × Mode
  | [] => ([],mode)
  | c::text => ((step mode c).1 ++ (walk (step mode c).2 text).1,(walk (step mode c).2 text).2)

def close : Mode → Option (List Token)
  | .word text => some [.word text]
  | .literal _ => none
  | .quote text => some [.literal text]
  | .dash => some [.symbol '-']
  | .slash => some [.symbol '/']
  | _ => some []

def tokenise (text : List Char) : Option (List Token) :=
  (close (walk .between text).2).map ((walk .between text).1 ++ ·)

def doubled (text : List Char) : List Char :=
  text.flatMap fun c => if c = '\'' then ['\'','\''] else [c]

@[simp] theorem walk_nil (mode : Mode) : walk mode [] = ([],mode) := rfl

theorem walk_append (mode : Mode) (front back : List Char) : walk mode (front ++ back) =
    ((walk mode front).1 ++ (walk (walk mode front).2 back).1,
      (walk (walk mode front).2 back).2) := by
  induction front generalizing mode with
  | nil => rfl
  | cons c front ih =>
    rw [List.cons_append, walk, ih]
    simp only [walk, List.append_assoc]

/-- Inside a literal a doubled text is read as it was, whatever it says. -/
theorem walk_doubled (before text : List Char) :
    walk (.literal before) (doubled text) = ([],.literal (before ++ text)) := by
  induction text generalizing before with
  | nil => simp [doubled]
  | cons c text ih =>
    rw [doubled, List.flatMap_cons, walk_append, ← doubled]
    have hfirst : walk (.literal before) (if c = '\'' then ['\'','\''] else [c]) =
        ([],.literal (before ++ [c])) := by
      by_cases hc : c = '\''
      · subst hc
        rfl
      · simp [walk, step, hc]
    rw [hfirst, ih, List.append_assoc]
    rfl

theorem walk_literal (text : List Char) (c : Char) (back : List Char) (hc : c ≠ '\'') :
    walk (.literal []) (doubled text ++ '\''::c::back) =
      (.literal text::(walk .between (c::back)).1,(walk .between (c::back)).2) := by
  rw [walk_append, walk_doubled, List.nil_append]
  simp only [walk, step, if_neg hc, ended, ite_true, List.nil_append, List.cons_append]

def Opens (front : List Char) (before : List Token) : Prop :=
  walk .between front = (before,.literal [])

def Closes (back : List Char) (later : List Token) (mode : Mode) : Prop :=
  back.head? = some '\'' ∧ (back.drop 1).head?.any (· ≠ '\'') = true ∧
    walk .between (back.drop 1) = (later,mode)

instance (front : List Char) (before : List Token) : Decidable (Opens front before) :=
  inferInstanceAs (Decidable (_ = _))

instance (back : List Char) (later : List Token) (mode : Mode) :
    Decidable (Closes back later mode) := inferInstanceAs (Decidable (_ ∧ _ ∧ _))

/-- A text between the quotes of a statement is one literal of it, whatever it
says, and all else is read as it is without it. -/
theorem walk_around {front back : List Char} {before later : List Token} {mode : Mode}
    (text : List Char) (hfront : Opens front before) (hback : Closes back later mode) :
    walk .between (front ++ doubled text ++ back) = (before ++ .literal text::later,mode) := by
  obtain ⟨hquote,hnext,hwalk⟩ := hback
  cases back with
  | nil => cases hquote
  | cons q back =>
    obtain rfl := Option.some.inj hquote
    cases back with
    | nil => cases hnext
    | cons c back =>
      have hc : c ≠ '\'' := by simpa using hnext
      rw [List.append_assoc, walk_append, hfront, walk_literal text c back hc]
      rw [List.drop_one, List.tail_cons] at hwalk
      rw [hwalk]

theorem walk_more (text more : List Char) (h : ∀ c ∈ more, isWordChar c = true) :
    walk (.word text) more = ([],.word (text ++ more)) := by
  induction more generalizing text with
  | nil => simp
  | cons c more ih =>
    have hc : isWordChar c = true := h c List.mem_cons_self
    have hrest := ih (text ++ [c]) fun d hd => h d (List.mem_cons_of_mem c hd)
    simp only [walk, step, if_pos hc, hrest, List.append_assoc, List.cons_append, List.nil_append]

theorem gap_of_wordChar (c : Char) (h : isWordChar c = true) : isGap c = false := by
  rw [Bool.eq_false_iff]
  intro hgap
  simp only [isGap, Bool.or_eq_true, decide_eq_true_eq] at hgap
  rcases hgap with (((rfl | rfl) | rfl) | rfl) | rfl <;> exact absurd h (by decide)

theorem walk_word (text : List Char) (hsome : text ≠ [])
    (h : ∀ c ∈ text, isWordChar c = true) : walk .between text = ([],.word text) := by
  obtain ⟨c,rest,rfl⟩ := List.exists_cons_of_ne_nil hsome
  have hc : isWordChar c = true := h c List.mem_cons_self
  have hgap := gap_of_wordChar c hc
  have hrest := walk_more [c] rest fun d hd => h d (List.mem_cons_of_mem c hd)
  simp only [walk, step, start, hgap, hc, hrest, Bool.false_eq_true, ite_false, ite_true,
    List.nil_append, List.cons_append]

theorem doubled_append (front back : List Char) :
    doubled (front ++ back) = doubled front ++ doubled back := List.flatMap_append

theorem doubled_plain (text : List Char) (h : '\'' ∉ text) : doubled text = text := by
  induction text with
  | nil => rfl
  | cons c text ih =>
    have hc : c ≠ '\'' := fun hc => h (hc ▸ List.mem_cons_self)
    rw [doubled, List.flatMap_cons, if_neg hc, ← doubled, ih fun hin => h (List.mem_cons_of_mem c hin)]
    rfl

end SqlTokens

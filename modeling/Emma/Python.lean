import Emma.Library.Delimited
import Mathlib.Data.List.DropRight
import Mathlib.Data.List.TakeWhile

/-!
# The parts of Python the program leans on

Exceptions are told apart by the class a handler names. Text is handled by
code point, as `str` does, with the white space of `str.isspace`.
-/

set_option autoImplicit false

namespace Emma.Python

/-- An exception, by the class its handlers name, with its text. -/
inductive PyError where
  | osError (text : String)
  | databaseError (text : String)
  | runtimeError (text : String)
  | valueError (text : String)
  | typeError (text : String)
  | keyError (text : String)
  | overflowError (text : String)
  deriving DecidableEq, Repr

/-- `str` of an exception. -/
def PyError.text : PyError → String
  | .osError text => text
  | .databaseError text => text
  | .runtimeError text => text
  | .valueError text => text
  | .typeError text => text
  | .keyError text => text
  | .overflowError text => text

/-- `str.isspace` on one code point. -/
def isSpace (c : Char) : Bool :=
  let k := c.toNat
  (9 ≤ k && k ≤ 13) || (28 ≤ k && k ≤ 32) || k = 133 || k = 160 || k = 5760 ||
    (8192 ≤ k && k ≤ 8202) || k = 8232 || k = 8233 || k = 8239 || k = 8287 || k = 12288

/-- `str.strip` on code points. -/
def stripChars (cs : List Char) : List Char :=
  (cs.dropWhile isSpace).rdropWhile isSpace

def strip (text : String) : String := String.ofList (stripChars text.toList)

/-- `str.split()`. -/
def splitWords (text : String) : List String :=
  (Delimited.words isSpace text.toList).map String.ofList

/-- `" ".join(text.split())`. -/
def joinWords (text : String) : String := " ".intercalate (splitWords text)

/-- `str.startswith`. -/
def startsWith (text opening : String) : Bool := opening.toList.isPrefixOf text.toList

theorem joinWords_toList (text : String) :
    (joinWords text).toList = [' '].intercalate (Delimited.words isSpace text.toList) := by
  simp [joinWords, splitWords, String.toList_intercalate, Function.comp_def]

theorem infix_join (separator : String) (lines : List String) (line : String)
    (h : line ∈ lines) : line.toList <:+: (separator.intercalate lines).toList := by
  rw [String.toList_intercalate]
  exact Delimited.infix_join _ _ _ (List.mem_map_of_mem h)

theorem joinWords_joinWords (text : String) : joinWords (joinWords text) = joinWords text := by
  have hwords : Delimited.words isSpace (joinWords text).toList =
      Delimited.words isSpace text.toList := by
    rw [joinWords_toList]
    exact Delimited.words_join isSpace ' ' (by decide) _ fun word hword =>
      Delimited.mem_words isSpace text.toList word hword
  rw [joinWords, splitWords, hwords]
  rfl

theorem mem_joinWords (text : String) (c : Char) (h : c ∈ (joinWords text).toList) :
    isSpace c = false ∨ c = ' ' := by
  rw [joinWords_toList] at h
  rcases Delimited.mem_join _ _ c h with h | ⟨word,hword,h⟩
  · exact .inr (by simpa using h)
  · exact .inl ((Delimited.mem_words isSpace text.toList word hword).2 c h)

theorem joinWords_last (text : String) :
    ∀ c ∈ (joinWords text).toList.getLast?, isSpace c = false := by
  intro c hc
  have hwords := Delimited.mem_words isSpace text.toList
  rw [joinWords_toList] at hc
  obtain ⟨word,hword,hlast⟩ := Delimited.last_join _ _ (fun w hw => (hwords w hw).1) c hc
  exact (hwords word hword).2 c (List.mem_of_getLast? hlast)

theorem startsWith_iff (text opening : String) :
    startsWith text opening = true ↔ opening.toList <+: text.toList := by
  simp [startsWith]

theorem startsWith_append (opening rest : String) :
    startsWith (opening ++ rest) opening = true := by
  simp [startsWith_iff]

/-- Text that neither opens nor ends on a blank is already stripped. -/
theorem strip_of_ends (text : String) (hfirst : ∀ c ∈ text.toList.head?, isSpace c = false)
    (hlast : ∀ c ∈ text.toList.getLast?, isSpace c = false) : strip text = text := by
  have hdrop : text.toList.dropWhile isSpace = text.toList := by
    cases hlist : text.toList with
    | nil => rfl
    | cons c cs => simp [hfirst c (by simp [hlist])]
  have hrdrop : text.toList.rdropWhile isSpace = text.toList := by
    rw [List.rdropWhile_eq_self_iff]
    intro hsome
    simp [hlast _ (List.getLast?_eq_some_getLast hsome)]
  rw [strip, stripChars, hdrop, hrdrop, String.ofList_toList]

theorem strip_ends (text : String) : (∀ c ∈ (strip text).toList.head?, isSpace c = false) ∧
    ∀ c ∈ (strip text).toList.getLast?, isSpace c = false := by
  have hchars : (strip text).toList = (text.toList.dropWhile isSpace).rdropWhile isSpace := by
    rw [strip, String.toList_ofList, stripChars]
  constructor
  · intro c hc
    rw [hchars] at hc
    obtain ⟨rest,hfront⟩ := List.rdropWhile_prefix isSpace (text.toList.dropWhile isSpace)
    have hhead : c ∈ (text.toList.dropWhile isSpace).head? := by
      rw [← hfront, List.head?_append, hc]
      rfl
    have hnot := List.head?_dropWhile_not isSpace text.toList
    rw [hhead] at hnot
    simpa using hnot
  · intro c hc
    rw [hchars] at hc
    have hsome := List.ne_nil_of_mem (List.mem_of_getLast? hc)
    have hlast := List.rdropWhile_last_not isSpace (text.toList.dropWhile isSpace) hsome
    rw [List.getLast?_eq_some_getLast hsome] at hc
    rw [← Option.some.inj hc]
    simpa using hlast

theorem strip_strip (text : String) : strip (strip text) = strip text :=
  strip_of_ends (strip text) (strip_ends text).1 (strip_ends text).2

theorem strip_of_tight (opening middle closing : String) (first last : Char)
    (rest front : List Char) (hopening : opening.toList = first::rest)
    (hclosing : closing.toList = front ++ [last]) (hfirst : isSpace first = false)
    (hlast : isSpace last = false) :
    strip (opening ++ middle ++ closing) = opening ++ middle ++ closing := by
  have hlist : (opening ++ middle ++ closing).toList =
      first::(rest ++ middle.toList ++ front) ++ [last] := by
    simp [String.toList_append, hopening, hclosing]
  apply strip_of_ends
  · simp [hlist, hfirst]
  · rw [hlist, List.getLast?_concat]
    simpa using hlast

theorem append_ne_empty (opening middle closing : String) (h : opening ≠ "") :
    opening ++ middle ++ closing ≠ "" := by
  simp [String.append_eq_empty_iff, h]

end Emma.Python

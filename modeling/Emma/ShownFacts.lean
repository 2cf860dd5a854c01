import Emma.ContextReading
import Emma.Library.Filling

/-!
# The facts in front of the model

No fact breaks a line or looks like another one, so the lines can be read back.
They are filled in the order of the numbers, and a line that does not fit is
counted in a note at the end.
-/

set_option autoImplicit false

namespace Emma.ShownFacts
open Emma.Python Emma.Facts Emma.ContextReading Delimited Filling

/-- The characters at which `str.splitlines` breaks a line. -/
def isLineBreak (c : Char) : Bool :=
  let k := c.toNat
  (10 ≤ k && k ≤ 13) || (28 ≤ k && k ≤ 30) || k = 133 || k = 8232 || k = 8233

def splitLines (text : String) : List String :=
  (text.toList.splitOnP isLineBreak).map String.ofList

def readFact (line : String) : Option (ℕ × String) :=
  match line.toList with
  | '-' :: ' ' :: '#' :: rest =>
    match rest.dropWhile Char.isDigit with
    | ':' :: ' ' :: text =>
      some (Nat.ofDigitChars 10 (rest.takeWhile Char.isDigit) 0,String.ofList text)
    | _ => none
  | _ => none

def lineLength (row : ℕ × Fact) : ℕ := (FactsContext.factLine row).length

/-- What the snapshot shows of a table: these facts, and how many more there are. -/
structure Shows (t : FactTable) (shown : List (ℕ × Fact)) (dropped : ℕ) : Prop where
  empty : active t = [] → FactsContext.snapshot t = ""
  header : active t ≠ [] →
    (splitLines (FactsContext.snapshot t)).head? = some FactsContext.header
  lines : (splitLines (FactsContext.snapshot t)).tail =
    shown.map (fun row => "- #" ++ toString row.1 ++ ": " ++ row.2.text) ++
      if dropped = 0 then [] else
        ["- (altri " ++ toString dropped ++ " fatti non entrano in questo spazio)"]
  readBack : (splitLines (FactsContext.snapshot t)).tail.filterMap readFact =
    shown.map fun row => (row.1,row.2.text)
  increasing : (shown.map Prod.fst).Pairwise (· < ·)
  bounded : total lineLength shown ≤ FactsContext.maxContextChars
  shown_active : shown.Sublist (active t)
  counted : shown.length+dropped = (active t).length
  left_out : ∀ row ∈ active t, row ∉ shown → FactsContext.maxContextChars <
    total lineLength (shown.filter fun other => other.1 < row.1)+lineLength row
  all : total lineLength (active t) ≤ FactsContext.maxContextChars → shown = active t ∧ dropped = 0

theorem fitting_fill (used : ℕ) (rows : List (ℕ × Fact)) :
    (FactsContext.fitting used rows).1 =
        fill FactsContext.maxContextChars lineLength used rows ∧
      (FactsContext.fitting used rows).1.length+(FactsContext.fitting used rows).2 =
        rows.length := by
  induction rows generalizing used with
  | nil => exact ⟨rfl,rfl⟩
  | cons row rows ih =>
    rw [FactsContext.fitting, fill, lineLength]
    split
    · obtain ⟨hfill,hcount⟩ := ih used
      exact ⟨hfill,congrArg (·+1) hcount⟩
    · obtain ⟨hfill,hcount⟩ := ih (used+(FactsContext.factLine row).length)
      exact ⟨congrArg (row::·) hfill,(Nat.add_right_comm _ 1 _).trans (congrArg (·+1) hcount)⟩

theorem lineBreak_space (c : Char) (h : isLineBreak c = true) : isSpace c = true ∧ c ≠ ' ' := by
  simp only [isLineBreak, Bool.or_eq_true, Bool.and_eq_true, decide_eq_true_eq] at h
  constructor
  · simp only [isSpace, Bool.or_eq_true, Bool.and_eq_true, decide_eq_true_eq]
    omega
  · rintro rfl
    revert h
    decide

theorem digit_unbroken (c : Char) (h : c.isDigit = true) : isLineBreak c = false := by
  simp only [Char.isDigit, ge_iff_le, Bool.and_eq_true, decide_eq_true_eq,
    UInt32.le_iff_toNat_le] at h
  have hlow : 48 ≤ c.toNat := h.1
  have hhigh : c.toNat ≤ 57 := h.2
  simp only [isLineBreak, Bool.or_eq_false_iff, Bool.and_eq_false_iff, decide_eq_false_iff_not]
  omega

theorem text_unbroken (fact : Fact) : ∀ c ∈ fact.text.toList, isLineBreak c = false := by
  intro c hc
  rw [← fact.admissible.joined] at hc
  cases hbreak : isLineBreak c with
  | false => rfl
  | true =>
    obtain ⟨hspace,hblank⟩ := lineBreak_space c hbreak
    rcases mem_joinWords fact.text c hc with h | h
    · rw [hspace] at h
      cases h
    · exact absurd h hblank

theorem factLine_unbroken (row : ℕ × Fact) :
    ∀ c ∈ (FactsContext.factLine row).toList, isLineBreak c = false := by
  intro c hc
  rw [factLine_toList] at hc
  simp only [List.mem_cons, List.mem_append] at hc
  rcases hc with rfl | rfl | rfl | hc | rfl | rfl | hc
  all_goals first | decide | skip
  · exact digit_unbroken c (digits_run row.1 c hc)
  · exact text_unbroken row.2 c hc

theorem droppedLine_unbroken (dropped : ℕ) :
    ∀ c ∈ (FactsContext.droppedLine dropped).toList, isLineBreak c = false := by
  intro c hc
  rw [droppedLine_toList] at hc
  simp only [List.mem_append] at hc
  have hfront : ("- (altri ".toList.all fun c => !isLineBreak c) = true := by decide
  have hback :
      (" fatti non entrano in questo spazio)".toList.all fun c => !isLineBreak c) = true := by
    decide
  rw [List.all_eq_true] at hfront hback
  rcases hc with hc | hc | hc
  · simpa using hfront c hc
  · exact digit_unbroken c (digits_run dropped c hc)
  · simpa using hback c hc

theorem unbroken_append {text more : String} (htext : ∀ c ∈ text.toList, isLineBreak c = false)
    (hmore : ∀ c ∈ more.toList, isLineBreak c = false) :
    ∀ c ∈ (text ++ more).toList, isLineBreak c = false := by
  intro c hc
  rw [String.toList_append] at hc
  exact (List.mem_append.mp hc).elim (htext c) (hmore c)

theorem unbroken_of_all {text : String} (h : (text.toList.all fun c => !isLineBreak c) = true) :
    ∀ c ∈ text.toList, isLineBreak c = false := by
  intro c hc
  simpa using List.all_eq_true.mp h c hc

theorem header_unbroken : ∀ c ∈ FactsContext.header.toList, isLineBreak c = false := by
  apply unbroken_append
  · apply unbroken_append
    · apply unbroken_append <;> exact unbroken_of_all (by decide +kernel)
    · exact unbroken_of_all (by decide +kernel)
  · exact unbroken_of_all (by decide +kernel)

theorem factLines_unbroken (t : FactTable) :
    ∀ line ∈ factLines t, ∀ c ∈ line.toList, isLineBreak c = false := by
  intro line hline
  rcases List.mem_append.mp hline with h | h
  · obtain ⟨row,-,rfl⟩ := List.mem_map.mp h
    exact factLine_unbroken row
  · unfold droppedLines at h
    split at h
    · simp at h
    · obtain rfl := List.mem_singleton.mp h
      exact droppedLine_unbroken _

theorem splitLines_snapshot (t : FactTable) (hsome : active t ≠ []) :
    splitLines (FactsContext.snapshot t) = FactsContext.header::factLines t := by
  have hjoined : (FactsContext.snapshot t).toList =
      ['\n'].intercalate ((FactsContext.header::factLines t).map String.toList) := by
    have hnewline : "\n".toList = ['\n'] := rfl
    obtain ⟨line,lines,hlines⟩ : ∃ line lines, factLines t = line::lines :=
      List.exists_cons_of_ne_nil fun hnil => hsome ((factLines_nil t).mp hnil)
    rw [factsSnapshot_eq, if_neg hsome, String.toList_append, String.toList_append,
      String.toList_intercalate, hnewline, hlines]
    simp only [List.map_cons, List.intercalate_cons_cons]
  rw [splitLines, hjoined, splitOnP_join isLineBreak '\n' (by decide) _ (by simp)]
  · simp [Function.comp_def]
  · simpa using ⟨header_unbroken,factLines_unbroken t⟩

theorem splitLines_tail (t : FactTable) :
    (splitLines (FactsContext.snapshot t)).tail = factLines t := by
  by_cases hnone : active t = []
  · rw [(factsSnapshot_empty t).mpr hnone, (factLines_nil t).mpr hnone]
    rfl
  · rw [splitLines_snapshot t hnone, List.tail_cons]

theorem readFact_factLine (row : ℕ × Fact) :
    readFact (FactsContext.factLine row) = some (row.1,row.2.text) := by
  have hstops : Stops Char.isDigit (':' :: ' ' :: row.2.text.toList) :=
    stops_cons _ _ _ (by decide)
  have hdrop := dropWhile_run Char.isDigit _ _ (digits_run row.1) hstops
  have htake := takeWhile_run Char.isDigit _ _ (digits_run row.1) hstops
  simp [readFact, factLine_toList, hdrop, htake]

theorem readFact_droppedLine (dropped : ℕ) :
    readFact (FactsContext.droppedLine dropped) = none := by
  have hfront : "- (altri ".toList = ['-',' ','(','a','l','t','r','i',' '] := rfl
  rw [readFact, droppedLine_toList, hfront]
  rfl

theorem readBack_factLines (t : FactTable) : (factLines t).filterMap readFact =
    (FactsContext.fitting 0 (active t)).1.map fun row => (row.1,row.2.text) := by
  have hfacts : ∀ rows : List (ℕ × Fact), (rows.map FactsContext.factLine).filterMap readFact =
      rows.map fun row => (row.1,row.2.text) := by
    intro rows
    induction rows with
    | nil => rfl
    | cons row rows ih => simp [readFact_factLine, ih]
  rw [factLines, List.filterMap_append, hfacts, droppedLines]
  split
  · simp
  · simp [readFact_droppedLine]

theorem fill_smaller {rows front back : List (ℕ × Fact)} {row : ℕ × Fact}
    (hrows : rows = front ++ row::back) (hids : (rows.map Prod.fst).Pairwise (· < ·)) :
    (fill FactsContext.maxContextChars lineLength 0 rows).filter
        (fun other => other.1 < row.1) =
      fill FactsContext.maxContextChars lineLength 0 front := by
  subst hrows
  rw [List.map_append, List.map_cons, List.pairwise_append, List.pairwise_cons] at hids
  obtain ⟨-,⟨hbehind,-⟩,hbefore⟩ := hids
  rw [fill_append, List.filter_append]
  have hfront : ∀ other ∈ fill FactsContext.maxContextChars lineLength 0 front,
      other.1 < row.1 := by
    intro other hother
    have hmem := (fill_sublist _ _ _ _).subset hother
    exact hbefore _ (List.mem_map_of_mem hmem) _ List.mem_cons_self
  have hback : ∀ used, ∀ other ∈ fill FactsContext.maxContextChars lineLength used (row::back),
      ¬other.1 < row.1 := by
    intro used other hother
    rcases List.mem_cons.mp ((fill_sublist _ _ _ _).subset hother) with rfl | hmem
    · omega
    · have := hbehind _ (List.mem_map_of_mem hmem)
      omega
  rw [List.filter_eq_self.mpr (by simpa using hfront),
    List.filter_eq_nil_iff.mpr (by simpa using hback _), List.append_nil]

/-- The snapshot of any table can be read back, keeps to its space, and leaves out
only what does not fit. -/
theorem facts_are_shown (t : FactTable) : ∃ shown dropped, Shows t shown dropped := by
  obtain ⟨hfill,hcount⟩ := fitting_fill 0 (active t)
  have hids : ((active t).map Prod.fst).Pairwise (· < ·) :=
    t.ordered.sublist (List.filter_sublist.map _)
  have hsublist : (FactsContext.fitting 0 (active t)).1.Sublist (active t) :=
    hfill ▸ fill_sublist _ _ _ _
  refine ⟨_,_,?_,?_,?_,?_,hids.sublist (hsublist.map _),?_,hsublist,hcount,?_,?_⟩
  · exact (factsSnapshot_empty t).mpr
  · intro hsome
    rw [splitLines_snapshot t hsome, List.head?_cons]
  · exact splitLines_tail t
  · rw [splitLines_tail, readBack_factLines]
  · have htotal := fill_total FactsContext.maxContextChars lineLength 0 (active t) (Nat.zero_le _)
    rw [hfill]
    omega
  · intro row hrow hleft
    rw [hfill] at hleft ⊢
    obtain ⟨front,back,hrows,hfull⟩ := fill_left _ _ hrow hleft
    rw [fill_smaller hrows hids]
    omega
  · intro hfits
    have hall := fill_all FactsContext.maxContextChars lineLength 0 (active t) (by omega)
    rw [hfill, hall] at hcount ⊢
    exact ⟨rfl,by omega⟩

end Emma.ShownFacts

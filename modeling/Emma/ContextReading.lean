import Emma.DevelopmentTools
import Emma.Facts

/-!
# What the context line says

The two snapshots can be read back: the numbers of the open jobs, which of them
wait on the user, the facts that are shown and how many are left out. So the
line changes exactly when one of these does.
-/

set_option autoImplicit false

namespace Emma.ContextReading
open Emma.Python Emma.Tasks Emma.DevelopmentTools Emma.Facts Delimited

/-! The line about the queue. -/

def openNumbers (t : TaskTable) : List ℕ := (openTasks t).map Prod.fst

def waitingTasks (t : TaskTable) : List (ℕ × Task) :=
  (openTasks t).filter fun row => row.2.status = .waitingUser

def waitingNumbers (t : TaskTable) : List ℕ := (waitingTasks t).map Prod.fst

def jobs (ns : List ℕ) : List Char := numerals ['#'] [',',' '] ns

theorem numbers_toList (tasks : List (ℕ × Task)) :
    (DevelopmentContext.numbers tasks).toList = jobs (tasks.map Prod.fst) := by
  simp [DevelopmentContext.numbers, jobs, numerals, String.toList_intercalate, Function.comp_def]

theorem jobs_unique {ms ns : List ℕ} (h : jobs ms = jobs ns) : ms = ns :=
  numerals_unique ['#'] [',',' '] (stops_cons _ _ _ (by decide)) (by simp) h

theorem paren_notMem_jobs (ns : List ℕ) : ')' ∉ jobs ns := by
  intro h
  rcases mem_numerals _ _ _ _ h with h | h | h <;> revert h <;> decide

def counted (between : List Char) (ns : List ℕ) (tail : List Char) : List Char :=
  Nat.toDigits 10 ns.length ++ (between ++ (jobs ns ++ ')'::tail))

theorem counted_unique {between tail tail' : List Char} {ms ns : List ℕ}
    (hbetween : ∀ rest, Stops Char.isDigit (between ++ rest))
    (h : counted between ms tail = counted between ns tail') : ms = ns ∧ tail = tail' := by
  have hnumeral := (numeral_unique (hbetween _) (hbetween _) h).2
  have hcut := cut_unique (paren_notMem_jobs ms) (paren_notMem_jobs ns)
    (List.append_cancel_left hnumeral)
  exact ⟨jobs_unique hcut.1,hcut.2⟩

theorem counted_ne {text between : List Char} (htext : Stops Char.isDigit text)
    (hbetween : ∀ rest, Stops Char.isDigit (between ++ rest)) (ns : List ℕ) (tail : List Char) :
    text ≠ counted between ns tail := by
  intro h
  have hrun : [] = Nat.toDigits 10 ns.length ∧ text = between ++ (jobs ns ++ ')'::tail) :=
    run_unique Char.isDigit (by simp) (digits_run ns.length) htext (hbetween _) h
  exact Nat.toDigits_ne_nil hrun.1.symm

def announced (none lead between : List Char) (ns : List ℕ) (tail : List Char) : List Char :=
  if ns = [] then none else lead ++ counted between ns tail

theorem announced_unique {none lead between tail tail' : List Char} {ms ns : List ℕ}
    (hnone : ∀ ns tail, none ≠ lead ++ counted between ns tail)
    (hbetween : ∀ rest, Stops Char.isDigit (between ++ rest))
    (h : announced none lead between ms tail = announced none lead between ns tail') :
    ms = ns ∧ (ms ≠ [] → tail = tail') := by
  unfold announced at h
  split at h <;> split at h
  · simp_all
  · exact absurd h (hnone _ _)
  · exact absurd h.symm (hnone _ _)
  · have hcounted := counted_unique hbetween (List.append_cancel_left h)
    exact ⟨hcounted.1,fun _ => hcounted.2⟩

theorem listed_toList (between : String) (tasks : List (ℕ × Task)) (tail : List Char) :
    (DevelopmentContext.listed between tasks).toList ++ tail =
      counted between.toList (tasks.map Prod.fst) ('.'::tail) := by
  have hclose : ").".toList = [')','.'] := rfl
  simp only [DevelopmentContext.listed, counted, String.toList_append, numbers_toList, hclose,
    List.length_map, Nat.toString_eq_repr, Nat.toList_repr, List.append_assoc, List.cons_append,
    List.nil_append]

def waitingPart (ns : List ℕ) (tail : List Char) : List Char :=
  announced tail " Di questi, ".toList " attendono una risposta dell'utente (".toList ns ('.'::tail)

def openPart (ns waiting : List ℕ) : List Char :=
  announced DevelopmentContext.noneOpen.toList [] " aperti (".toList ns
    ('.'::waitingPart waiting DevelopmentContext.closing.toList)

theorem snapshot_toList (t : TaskTable) : (DevelopmentContext.snapshot t).toList =
    DevelopmentContext.opening.toList ++ openPart (openNumbers t) (waitingNumbers t) := by
  unfold DevelopmentContext.snapshot openNumbers waitingNumbers waitingTasks openPart
  cases openTasks t with
  | nil => exact String.toList_append
  | cons row tasks =>
    have hsome : List.map Prod.fst (row::tasks) ≠ [] := by simp
    dsimp only
    generalize (row::tasks).filter (fun row => row.2.status = .waitingUser) = waiting
    rw [String.toList_append, String.toList_append, String.toList_append, List.append_assoc,
      List.append_assoc, listed_toList, announced, if_neg hsome, List.nil_append, waitingPart,
      announced]
    by_cases hwaiting : waiting = []
    · rw [hwaiting, if_pos rfl, if_pos List.map_nil, String.toList_empty, List.nil_append]
    · rw [if_neg hwaiting, if_neg (by simpa using hwaiting), String.toList_append,
        List.append_assoc, listed_toList]

theorem first_append {text : String} (more : String) {c : Char}
    (h : text.toList.head? = some c) : (text ++ more).toList.head? = some c := by
  simp [String.toList_append, List.head?_append, h]

theorem last_append (more : String) {text : String} {c : Char}
    (h : text.toList.getLast? = some c) : (more ++ text).toList.getLast? = some c := by
  simp [String.toList_append, List.getLast?_append, h]

theorem strip_developmentSnapshot (t : TaskTable) :
    strip (DevelopmentContext.snapshot t) = DevelopmentContext.snapshot t := by
  have hfirst : DevelopmentContext.opening.toList.head? = some 'S' := by decide
  have hnone : DevelopmentContext.noneOpen.toList.getLast? = some '.' := by
    apply last_append
    decide
  have hlast : DevelopmentContext.closing.toList.getLast? = some '.' := by
    apply last_append
    decide
  apply strip_of_ends
  · intro c hc
    have hopening : (DevelopmentContext.snapshot t).toList.head? = some 'S' := by
      rw [snapshot_toList, List.head?_append, hfirst]
      rfl
    obtain rfl : 'S' = c := by simpa [hopening] using hc
    decide
  · intro c hc
    have hclosing : (DevelopmentContext.snapshot t).toList.getLast? = some '.' := by
      unfold DevelopmentContext.snapshot
      split
      · exact last_append _ hnone
      · exact last_append _ hlast
    obtain rfl : '.' = c := by simpa [hclosing] using hc
    decide

theorem newline_notMem_append {text more : String} (htext : '\n' ∉ text.toList)
    (hmore : '\n' ∉ more.toList) : '\n' ∉ (text ++ more).toList := by
  simp [String.toList_append, htext, hmore]

theorem newline_notMem_digits (n : ℕ) : '\n' ∉ Nat.toDigits 10 n := fun h =>
  absurd (digits_run n _ h) (by decide)

theorem newline_notMem_listed {between : String} (hbetween : '\n' ∉ between.toList)
    (tasks : List (ℕ × Task)) : '\n' ∉ (DevelopmentContext.listed between tasks).toList := by
  have hjobs : '\n' ∉ jobs (tasks.map Prod.fst) := by
    intro h
    rcases mem_numerals _ _ _ _ h with h | h | h <;> revert h <;> decide
  have hlisted := listed_toList between tasks []
  rw [List.append_nil] at hlisted
  rw [hlisted, counted]
  simp [newline_notMem_digits, hbetween, hjobs]

theorem newline_notMem_snapshot (t : TaskTable) :
    '\n' ∉ (DevelopmentContext.snapshot t).toList := by
  have hopening : '\n' ∉ DevelopmentContext.opening.toList := by decide
  have hnone : '\n' ∉ DevelopmentContext.noneOpen.toList := by
    apply newline_notMem_append
    · apply newline_notMem_append <;> decide
    · decide
  have hclosing : '\n' ∉ DevelopmentContext.closing.toList := by
    apply newline_notMem_append
    · apply newline_notMem_append <;> decide
    · decide
  unfold DevelopmentContext.snapshot
  split
  · exact newline_notMem_append hopening hnone
  · apply newline_notMem_append _ hclosing
    apply newline_notMem_append
    · exact newline_notMem_append hopening (newline_notMem_listed (by decide) _)
    · split
      · decide
      · exact newline_notMem_append (by decide) (newline_notMem_listed (by decide) _)

theorem snapshot_ne_empty (t : TaskTable) : DevelopmentContext.snapshot t ≠ "" := by
  intro h
  have hfirst : DevelopmentContext.opening.toList.head? = some 'S' := by decide
  have hlist := snapshot_toList t
  rw [h, String.toList_empty] at hlist
  rw [(List.append_eq_nil_iff.mp hlist.symm).1] at hfirst
  cases hfirst

theorem waitingNumbers_nil (t : TaskTable) (h : openNumbers t = []) : waitingNumbers t = [] := by
  have hopen : openTasks t = [] := by simpa [openNumbers] using h
  simp [waitingNumbers, waitingTasks, hopen]

theorem stops_blank {text : List Char} (htext : text.head? = some ' ') (rest : List Char) :
    Stops Char.isDigit (text ++ rest) := by
  cases text with
  | nil => simp at htext
  | cons c cs =>
    obtain rfl : c = ' ' := by simpa using htext
    exact stops_cons _ _ _ (by decide)

theorem openPart_unique {ms ns waiting waiting' : List ℕ}
    (h : openPart ms waiting = openPart ns waiting') :
    ms = ns ∧ (ms ≠ [] → waitingPart waiting DevelopmentContext.closing.toList =
      waitingPart waiting' DevelopmentContext.closing.toList) := by
  have hbetween := stops_blank (show " aperti (".toList.head? = some ' ' from rfl)
  have hnone : Stops Char.isDigit DevelopmentContext.noneOpen.toList := by
    intro c hc
    rw [show DevelopmentContext.noneOpen.toList.head? = some 'n' from rfl] at hc
    obtain rfl := Option.mem_some_iff.mp hc
    rfl
  have hparts := announced_unique (fun ns tail => counted_ne hnone hbetween ns tail) hbetween h
  exact ⟨hparts.1,fun hsome => (List.cons.inj (hparts.2 hsome)).2⟩

theorem second_append {text : String} (more : String) {c : Char}
    (h : text.toList[1]? = some c) : (text ++ more).toList[1]? = some c := by
  have hlong : 1 < text.toList.length := by
    by_contra hshort
    rw [List.getElem?_eq_none (by omega)] at h
    cases h
  rw [String.toList_append, List.getElem?_append_left hlong]
  exact h

theorem waitingPart_unique {ms ns : List ℕ}
    (h : waitingPart ms DevelopmentContext.closing.toList =
      waitingPart ns DevelopmentContext.closing.toList) : ms = ns := by
  have hbetween := stops_blank
    (show " attendono una risposta dell'utente (".toList.head? = some ' ' from rfl)
  have hlead : " Di questi, ".toList[1]? = some 'D' := by decide
  have hclosing : DevelopmentContext.closing.toList[1]? = some 'Q' := by
    apply second_append
    apply second_append
    decide
  apply And.left (announced_unique _ hbetween h)
  intro ns tail hsame
  rw [hsame, ← String.toList_ofList (l := counted _ _ _), ← String.toList_append,
    second_append _ hlead] at hclosing
  cases hclosing

/-- The line about the queue changes exactly when a number appears, disappears
or changes sides. -/
theorem developmentSnapshot_inj (t t' : TaskTable) :
    DevelopmentContext.snapshot t = DevelopmentContext.snapshot t' ↔
      openNumbers t = openNumbers t' ∧ waitingNumbers t = waitingNumbers t' := by
  rw [← String.toList_inj, snapshot_toList, snapshot_toList]
  constructor
  · intro h
    have hopen := openPart_unique (List.append_cancel_left h)
    constructor
    · exact hopen.1
    · by_cases hnone : openNumbers t = []
      · rw [waitingNumbers_nil t hnone, waitingNumbers_nil t' (hopen.1 ▸ hnone)]
      · exact waitingPart_unique (hopen.2 hnone)
  · rintro ⟨hopen,hwaiting⟩
    rw [hopen, hwaiting]

/-! The lines about the facts. -/

def shownFacts (t : FactTable) : List (ℕ × String) × ℕ :=
  ((FactsContext.fitting 0 (active t)).1.map fun row => (row.1,row.2.text),
    (FactsContext.fitting 0 (active t)).2)

def droppedLines (dropped : ℕ) : List String :=
  if dropped = 0 then [] else [FactsContext.droppedLine dropped]

def factLines (t : FactTable) : List String :=
  (FactsContext.fitting 0 (active t)).1.map FactsContext.factLine ++
    droppedLines (FactsContext.fitting 0 (active t)).2

theorem factLine_toList (row : ℕ × Fact) : (FactsContext.factLine row).toList =
    '-' :: ' ' :: '#' :: (Nat.toDigits 10 row.1 ++ ':' :: ' ' :: row.2.text.toList) := by
  have hmark : "- #".toList = ['-',' ','#'] := rfl
  have hcolon : ": ".toList = [':',' '] := rfl
  simp only [FactsContext.factLine, String.toList_append, hmark, hcolon, Nat.toString_eq_repr,
    Nat.toList_repr, List.append_assoc, List.cons_append, List.nil_append]

theorem droppedLine_toList (dropped : ℕ) : (FactsContext.droppedLine dropped).toList =
    "- (altri ".toList ++ (Nat.toDigits 10 dropped ++
      " fatti non entrano in questo spazio)".toList) := by
  simp only [FactsContext.droppedLine, String.toList_append, Nat.toString_eq_repr,
    Nat.toList_repr, List.append_assoc]

theorem newline_notMem_text (fact : Fact) : '\n' ∉ fact.text.toList := by
  intro h
  rw [← fact.admissible.joined] at h
  rcases mem_joinWords _ _ h with h | h <;> revert h <;> decide

theorem newline_notMem_lines (t : FactTable) : ∀ line ∈ factLines t, '\n' ∉ line.toList := by
  intro line hline
  rcases List.mem_append.mp hline with h | h
  · obtain ⟨row,-,rfl⟩ := List.mem_map.mp h
    rw [factLine_toList]
    simp [newline_notMem_text, newline_notMem_digits]
  · unfold droppedLines at h
    split at h
    · simp at h
    · obtain rfl := List.mem_singleton.mp h
      rw [droppedLine_toList]
      simp [newline_notMem_digits]

theorem factLine_inj {a b : ℕ × Fact} (h : FactsContext.factLine a = FactsContext.factLine b) :
    a.1 = b.1 ∧ a.2.text = b.2.text := by
  rw [← String.toList_inj, factLine_toList, factLine_toList] at h
  simp only [List.cons.injEq, true_and] at h
  obtain ⟨hid,htext⟩ := numeral_unique (stops_cons _ _ _ (by decide))
    (stops_cons _ _ _ (by decide)) h
  exact ⟨hid,String.toList_inj.mp (by simpa using htext)⟩

theorem factLine_ne_droppedLine (row : ℕ × Fact) (dropped : ℕ) :
    FactsContext.factLine row ≠ FactsContext.droppedLine dropped := by
  intro h
  rw [← String.toList_inj, factLine_toList, droppedLine_toList] at h
  simp at h

theorem droppedLine_inj {m n : ℕ}
    (h : FactsContext.droppedLine m = FactsContext.droppedLine n) : m = n := by
  rw [← String.toList_inj, droppedLine_toList, droppedLine_toList] at h
  have hstops := stops_blank
    (show " fatti non entrano in questo spazio)".toList.head? = some ' ' from rfl) []
  rw [List.append_nil] at hstops
  exact (numeral_unique hstops hstops (List.append_cancel_left h)).1

theorem lines_unique {shown shown' : List (ℕ × Fact)} {m n : ℕ}
    (h : shown.map FactsContext.factLine ++ droppedLines m =
      shown'.map FactsContext.factLine ++ droppedLines n) :
    (shown.map fun row => (row.1,row.2.text)) = (shown'.map fun row => (row.1,row.2.text)) ∧
      m = n := by
  induction shown generalizing shown' with
  | nil =>
    cases shown' with
    | nil =>
      by_cases hm : m = 0 <;> by_cases hn : n = 0 <;> simp [droppedLines, hm, hn] at h ⊢
      exact droppedLine_inj h
    | cons row shown' =>
      unfold droppedLines at h
      split at h
      · simp at h
      · exact absurd (List.cons.inj h).1.symm (factLine_ne_droppedLine row m)
  | cons row shown ih =>
    cases shown' with
    | nil =>
      have hn := congrArg List.head? h
      unfold droppedLines at hn
      split at hn <;> split at hn
      all_goals simp [factLine_ne_droppedLine] at hn
    | cons row' shown' =>
      obtain ⟨hrow,hrest⟩ := List.cons.inj h
      obtain ⟨hid,htext⟩ := factLine_inj hrow
      obtain ⟨hshown,hdropped⟩ := ih hrest
      exact ⟨by simp [hid, htext, hshown],hdropped⟩

theorem factLines_shown (t : FactTable) : factLines t =
    (shownFacts t).1.map (fun fact => "- #" ++ toString fact.1 ++ ": " ++ fact.2) ++
      droppedLines (shownFacts t).2 := by
  simp [factLines, shownFacts, Function.comp_def, FactsContext.factLine]

theorem factLines_nil (t : FactTable) : factLines t = [] ↔ active t = [] := by
  unfold factLines droppedLines
  cases active t with
  | nil => simp [FactsContext.fitting]
  | cons row rest =>
    unfold FactsContext.fitting
    split <;> simp

theorem factsSnapshot_eq (t : FactTable) : FactsContext.snapshot t =
    if active t = [] then ""
    else FactsContext.header ++ "\n" ++ "\n".intercalate (factLines t) := by
  unfold FactsContext.snapshot factLines droppedLines
  cases active t with
  | nil => rfl
  | cons row rest => rw [if_neg (by simp)]

theorem factsSnapshot_empty (t : FactTable) : FactsContext.snapshot t = "" ↔ active t = [] := by
  rw [factsSnapshot_eq]
  split
  · simp_all
  · simp_all [String.append_eq_empty_iff]

theorem joinedLines_inj {xs ys : List String} (hxs : ∀ line ∈ xs, '\n' ∉ line.toList)
    (hys : ∀ line ∈ ys, '\n' ∉ line.toList) (hxs' : xs ≠ []) (hys' : ys ≠ [])
    (h : "\n".intercalate xs = "\n".intercalate ys) : xs = ys := by
  have hnewline : "\n".toList = ['\n'] := rfl
  have hsplit := congrArg (fun text : String => text.toList.splitOn '\n') h
  simp only [String.toList_intercalate, hnewline] at hsplit
  rw [List.splitOn_intercalate _ (by simpa using hxs) (by simpa using hxs'),
    List.splitOn_intercalate _ (by simpa using hys) (by simpa using hys')] at hsplit
  exact List.map_injective_iff.mpr (fun _ _ => String.toList_inj.mp) hsplit

theorem factLine_last (row : ℕ × Fact) :
    ∀ c ∈ (FactsContext.factLine row).toList.getLast?, isSpace c = false := by
  intro c hc
  have hlast := joinWords_last row.2.text
  rw [row.2.admissible.joined] at hlast
  have hwritten : row.2.text.toList ≠ [] := fun h =>
    row.2.admissible.written (String.toList_eq_nil_iff.mp h)
  rw [FactsContext.factLine, String.toList_append, List.getLast?_append_of_ne_nil _ hwritten] at hc
  exact hlast c hc

theorem factLines_last (t : FactTable) : ∀ line ∈ factLines t,
    line.toList ≠ [] ∧ ∀ c ∈ line.toList.getLast?, isSpace c = false := by
  intro line hline
  rcases List.mem_append.mp hline with h | h
  · obtain ⟨row,-,rfl⟩ := List.mem_map.mp h
    constructor
    · rw [factLine_toList]
      simp
    · exact factLine_last row
  · unfold droppedLines at h
    split at h
    · simp at h
    · obtain rfl := List.mem_singleton.mp h
      have hlast : (FactsContext.droppedLine (FactsContext.fitting 0 (active t)).2).toList.getLast? =
          some ')' := last_append _ (by decide)
      constructor
      · intro hnil
        rw [hnil] at hlast
        cases hlast
      · rw [hlast]
        intro c hc
        obtain rfl : ')' = c := by simpa using hc
        decide

theorem strip_factsSnapshot (t : FactTable) :
    strip (FactsContext.snapshot t) = FactsContext.snapshot t := by
  rw [factsSnapshot_eq]
  split
  · rfl
  rename_i hsome
  have hlines := factLines_last t
  apply strip_of_ends
  · intro c hc
    have hheader : FactsContext.header.toList.head? = some 'C' := by
      apply first_append
      apply first_append
      apply first_append
      decide
    rw [first_append _ (first_append _ hheader)] at hc
    obtain rfl : 'C' = c := by simpa using hc
    decide
  · intro c hc
    have hpieces : ∀ p ∈ (factLines t).map String.toList, p ≠ [] := by
      simpa using fun line hline => (hlines line hline).1
    have hwritten : ("\n".intercalate (factLines t)).toList ≠ [] := by
      rw [String.toList_intercalate]
      exact join_ne_nil _ _ (by simpa [factLines_nil] using hsome) hpieces
    rw [String.toList_append, List.getLast?_append_of_ne_nil _ hwritten,
      String.toList_intercalate] at hc
    obtain ⟨line,hline,hlast⟩ := last_join _ _ hpieces c hc
    obtain ⟨text,htext,rfl⟩ := List.mem_map.mp hline
    exact (hlines text htext).2 c hlast

/-- The facts in front of the model change exactly when a shown one does, or
the number of the others. -/
theorem factsSnapshot_inj (t t' : FactTable) :
    FactsContext.snapshot t = FactsContext.snapshot t' ↔ shownFacts t = shownFacts t' := by
  have hlines : shownFacts t = shownFacts t' ↔ factLines t = factLines t' := by
    constructor
    · intro h
      rw [factLines_shown, factLines_shown, h]
    · intro h
      have hunique := lines_unique h
      exact Prod.ext hunique.1 hunique.2
  rw [hlines]
  constructor
  · intro h
    by_cases hnone : active t = []
    · have hnone' : active t' = [] := by
        rwa [← factsSnapshot_empty, ← h, factsSnapshot_empty]
      rw [(factLines_nil t).mpr hnone, (factLines_nil t').mpr hnone']
    · have hnone' : active t' ≠ [] := by
        rwa [ne_eq, ← factsSnapshot_empty, ← h, factsSnapshot_empty]
      rw [factsSnapshot_eq, factsSnapshot_eq, if_neg hnone, if_neg hnone', String.append_right_inj]
        at h
      exact joinedLines_inj (newline_notMem_lines t) (newline_notMem_lines t')
        (by rwa [ne_eq, factLines_nil]) (by rwa [ne_eq, factLines_nil]) h
  · intro h
    have hnone : active t = [] ↔ active t' = [] := by
      rw [← factLines_nil, ← factLines_nil, h]
    rw [factsSnapshot_eq, factsSnapshot_eq, h]
    simp only [hnone]

/-! Both together. -/

structure Told where
  openJobs : List ℕ
  waitingJobs : List ℕ
  facts : List (ℕ × String)
  leftOut : ℕ
  deriving DecidableEq

def told (tasks : TaskTable) (facts : FactTable) : Told where
  openJobs := openNumbers tasks
  waitingJobs := waitingNumbers tasks
  facts := (shownFacts facts).1
  leftOut := (shownFacts facts).2

def contextLine (tasks : TaskTable) (facts : FactTable) : String :=
  "\n".intercalate
    ([DevelopmentContext.snapshot tasks,FactsContext.snapshot facts].filter (· ≠ ""))

theorem contextLine_eq (tasks : TaskTable) (facts : FactTable) :
    contextLine tasks facts = DevelopmentContext.snapshot tasks ++
      if FactsContext.snapshot facts = "" then "" else "\n" ++ FactsContext.snapshot facts := by
  by_cases hfacts : FactsContext.snapshot facts = ""
  · simp [contextLine, snapshot_ne_empty, hfacts]
  · simp [contextLine, snapshot_ne_empty, hfacts, String.intercalate_cons_cons,
      String.append_assoc]

theorem contextLine_inj (tasks tasks' : TaskTable) (facts facts' : FactTable) :
    contextLine tasks facts = contextLine tasks' facts' ↔
      told tasks facts = told tasks' facts' := by
  have htold : told tasks facts = told tasks' facts' ↔
      DevelopmentContext.snapshot tasks = DevelopmentContext.snapshot tasks' ∧
        FactsContext.snapshot facts = FactsContext.snapshot facts' := by
    rw [developmentSnapshot_inj, factsSnapshot_inj, Prod.ext_iff]
    simp only [told, Told.mk.injEq, and_assoc]
  rw [htold]
  constructor
  · intro h
    have hnewline : "\n".toList = ['\n'] := rfl
    rw [contextLine_eq, contextLine_eq, ← String.toList_inj, String.toList_append,
      String.toList_append] at h
    have htail : ∀ text : String, Stops (fun c => decide (c ≠ '\n'))
        (if text = "" then "" else "\n" ++ text).toList := by
      intro text
      split
      · exact stops_nil _
      · rw [String.toList_append, hnewline]
        exact stops_cons _ _ _ (by decide)
    have hline : ∀ t : TaskTable, ∀ c ∈ (DevelopmentContext.snapshot t).toList,
        decide (c ≠ '\n') = true := by
      intro t c hc
      have hnone := newline_notMem_snapshot t
      simpa using fun hsame : c = '\n' => hnone (hsame ▸ hc)
    obtain ⟨hdevelopment,hfacts⟩ := run_unique _ (hline tasks) (hline tasks') (htail _) (htail _) h
    rw [String.toList_inj] at hdevelopment hfacts
    constructor
    · exact hdevelopment
    · split at hfacts <;> split at hfacts
      · simp_all
      · exact absurd hfacts.symm (by simp [String.append_eq_empty_iff])
      · exact absurd hfacts (by simp [String.append_eq_empty_iff])
      · exact String.append_right_inj _ |>.mp hfacts
  · rintro ⟨hdevelopment,hfacts⟩
    rw [contextLine_eq, contextLine_eq, hdevelopment, hfacts]

end Emma.ContextReading

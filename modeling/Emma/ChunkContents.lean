import Emma.Splitting

/-!
# What is in a chunk

Telegram counts UTF-16 code units where the splitter counts characters, and it
takes no message that is blank. Both depend on what a page happens to be made
of, as does the number of line ends that are lost around a cut.
-/

set_option autoImplicit false

namespace Emma.ChunkContents
open Emma.Python Emma.Telegram Emma.Splitting

/-! UTF-16. -/

def telegramLimit : ℕ := 4096

def supplementary (c : Char) : Bool := 0xFFFF < c.toNat

def utf16Length (text : String) : ℕ :=
  (text.toList.map fun c => if supplementary c then 2 else 1).sum

theorem utf16Length_ofList (cs : List Char) :
    utf16Length (String.ofList cs) = cs.length+cs.countP supplementary := by
  rw [utf16Length, String.toList_ofList]
  induction cs with
  | nil => rfl
  | cons c cs ih =>
    rw [List.map_cons, List.sum_cons, ih, List.length_cons, List.countP_cons]
    split <;> omega

/-- Before the place of the cut there is a visible character that ends beyond what
Telegram takes: a line end follows it in the window, or there is none in the half
where one is looked for. -/
def Overfull (limit : ℕ) (rest : List Char) : Prop :=
  ∃ front c back, rest.take limit = front ++ c::back ∧ isSpace c = false ∧
    telegramLimit < (front ++ [c]).length+(front ++ [c]).countP supplementary ∧
    ('\n' ∈ back ∨ '\n' ∉ (rest.take limit).drop (limit/2))

/-- What is left uncut may have so many characters, those of two code units twice. -/
def FitsWhole (rest : List Char) : Prop :=
  rest.length+rest.countP supplementary ≤ telegramLimit

theorem newline_blank : isSpace '\n' = true := by decide

theorem visible_before {front back first more : List Char} {c : Char}
    (hsame : front ++ c::back = first ++ '\n'::more) (hc : isSpace c = false) :
    (∃ t, first = front ++ c::t ∧ back = t ++ '\n'::more) ∨ ∃ t, more = t ++ c::back := by
  have hother : c ≠ '\n' := by
    rintro rfl
    rw [newline_blank] at hc
    cases hc
  rcases List.append_eq_append_iff.mp hsame with ⟨t,hfirst,hrest⟩ | ⟨t,hfront,hrest⟩
  · left
    cases t with
    | nil => exact absurd (List.cons.inj hrest).1 hother
    | cons d t =>
      obtain ⟨rfl,rfl⟩ := List.cons.inj hrest
      exact ⟨t,hfirst,rfl⟩
  · right
    cases t with
    | nil => exact absurd (List.cons.inj hrest).1.symm hother
    | cons d t => exact ⟨t,(List.cons.inj hrest).2⟩

/-- A page that ends at a line end has the visible characters before the last one. -/
theorem paged_line {front back first more : List Char} {c : Char}
    (hsame : front ++ c::back = first ++ '\n'::more) (hc : isSpace c = false)
    (hmore : ∀ t, more = t ++ c::back → '\n' ∉ back) :
    front ++ [c] <+: first ↔ '\n' ∈ back := by
  rcases visible_before hsame hc with ⟨t,rfl,rfl⟩ | ⟨t,ht⟩
  · exact iff_of_true ⟨t,by simp⟩ (by simp)
  · refine iff_of_false (fun hprefix => ?_) (hmore t ht)
    have hlength := congrArg List.length hsame
    have hshort := hprefix.length_le
    rw [ht] at hlength
    simp only [List.length_append, List.length_cons, List.length_nil] at hlength hshort
    omega

/-- The visible characters of a page are those before the place of the cut. -/
theorem paged_iff {limit : ℕ} {rest front back : List Char} {c : Char}
    (hlong : limit < rest.length) (hwindow : rest.take limit = front ++ c::back)
    (hc : isSpace c = false) : front ++ [c] <+: page limit rest ↔
      '\n' ∈ back ∨ '\n' ∉ (rest.take limit).drop (limit/2) := by
  have hhalf : ∀ first more, rest.take limit = first ++ '\n'::more → limit/2 ≤ first.length →
      '\n' ∈ (rest.take limit).drop (limit/2) := by
    intro first more hsame hlate
    rw [hsame, List.drop_append_of_le_length hlate]
    simp
  rw [page_long hlong]
  have hcuts := cut_cuts limit rest
  generalize cut limit rest = ends at hcuts
  cases hcuts with
  | full hnone =>
    rw [hwindow]
    exact iff_of_true ⟨back,by simp⟩ (.inr (hwindow ▸ hnone))
  | line first more hsame hlate hlast =>
    rw [take_front hsame, or_iff_left (not_not_intro (hhalf first more hsame hlate))]
    refine paged_line (hwindow.symm.trans hsame) hc fun t ht hmem => hlast ?_
    rw [ht]
    exact List.mem_append_right _ (List.mem_cons_of_mem _ hmem)
  | blankLine first more hsame hlate hlast =>
    have htwo : rest.take limit = (first ++ ['\n']) ++ '\n'::more := by simpa using hsame
    rw [take_front hsame, or_iff_left (not_not_intro (hhalf _ more htwo (by simpa using hlate)))]
    refine paged_line (hwindow.symm.trans hsame) hc fun t ht hmem => hlast ?_
    -- the second of the two line ends is no visible character
    obtain ⟨t',hmore⟩ : ∃ t', more = t' ++ c::back := by
      rcases @visible_before _ _ [] _ _ ht.symm hc with ⟨_,hnil,-⟩ | hbehind
      · simp at hnil
      · exact hbehind
    rw [hmore]
    exact List.mem_append_right _ (List.mem_cons_of_mem _ hmem)

theorem chunk_visible_iff {limit : ℕ} {rest front : List Char} {c : Char}
    (hlong : limit < rest.length) (hc : isSpace c = false) :
    front ++ [c] <+: chunk limit rest ↔ front ++ [c] <+: page limit rest := by
  obtain ⟨blanks,hpage,hblanks⟩ : ∃ blanks, page limit rest = chunk limit rest ++ blanks ∧
      ∀ d ∈ blanks, isSpace d = true :=
    ⟨_,page_chunk hlong,fun d hd => List.mem_rtakeWhile_imp hd⟩
  have hvisible : c ∉ blanks := fun hmem => by
    rw [hblanks c hmem] at hc
    cases hc
  rw [hpage]
  constructor
  · exact fun hprefix => hprefix.trans (List.prefix_append _ _)
  · rintro ⟨back,hback⟩
    rw [List.append_assoc, List.singleton_append] at hback
    rcases List.append_eq_append_iff.mp hback with ⟨t,hchunk,hrest⟩ | ⟨t,-,hmore⟩
    · cases t with
      | nil =>
        rw [List.nil_append] at hrest
        exact absurd (hrest ▸ List.mem_cons_self) hvisible
      | cons d t =>
        obtain ⟨rfl,-⟩ := List.cons.inj hrest
        exact ⟨t,by rw [hchunk]; simp⟩
    · exact absurd (by rw [hmore]; simp) hvisible

theorem units_le {front cs : List Char} (h : front <+: cs) :
    front.length+front.countP supplementary ≤ cs.length+cs.countP supplementary :=
  Nat.add_le_add h.length_le (h.sublist.countP_le)

/-- A page that is cut off is too long for Telegram exactly when it is overfull. -/
theorem chunk_overflows_iff {limit : ℕ} {rest : List Char} (hlong : limit < rest.length) :
    telegramLimit < (chunk limit rest).length+(chunk limit rest).countP supplementary ↔
      Overfull limit rest := by
  constructor
  · intro hover
    obtain ⟨front,c,hchunk⟩ : ∃ front c, chunk limit rest = front ++ [c] := by
      rcases List.eq_nil_or_concat (chunk limit rest) with hnil | ⟨front,c,hchunk⟩
      · rw [hnil] at hover
        exact absurd hover (Nat.not_lt_zero _)
      · exact ⟨front,c,by rw [hchunk, List.concat_eq_append]⟩
    have hc : isSpace c = false := by
      have hlast := List.rdropWhile_last_not isSpace (page limit rest)
      rw [chunk, if_pos hlong] at hchunk
      simpa [hchunk] using hlast
    have hpaged := (chunk_visible_iff hlong hc).mp ⟨[],by rw [List.append_nil, hchunk]⟩
    obtain ⟨back,hback⟩ : ∃ back, rest.take limit = front ++ c::back := by
      have hwithin : page limit rest <+: rest.take limit := by
        rw [List.prefix_take_iff, page_long hlong]
        exact ⟨List.take_prefix _ _,page_long hlong ▸ (page_next hlong).1⟩
      obtain ⟨back,hback⟩ := hpaged.trans hwithin
      exact ⟨back,by rw [← hback]; simp⟩
    exact ⟨front,c,back,hback,hc,hchunk ▸ hover,(paged_iff hlong hback hc).mp hpaged⟩
  · rintro ⟨front,c,back,hwindow,hc,hover,hplace⟩
    have hpaged := (paged_iff hlong hwindow hc).mpr hplace
    exact Nat.lt_of_lt_of_le hover (units_le ((chunk_visible_iff hlong hc).mpr hpaged))

/-- The chunks of an answer are short enough for Telegram exactly when no text that
is still to be cut is overfull, and the one that is not cut fits. -/
theorem chunks_fit_iff (text : String) :
    (∀ c ∈ splitMessage text maxMessageLength, utf16Length c ≤ telegramLimit) ↔
    ∀ rest, Remains maxMessageLength text.toList rest →
      if maxMessageLength < rest.length then ¬Overfull maxMessageLength rest
        else FitsWhole rest := by
  have hfits : ∀ rest, utf16Length (String.ofList (chunk maxMessageLength rest)) ≤ telegramLimit ↔
      if maxMessageLength < rest.length then ¬Overfull maxMessageLength rest
        else FitsWhole rest := by
    intro rest
    rw [utf16Length_ofList]
    split
    · rename_i hlong
      rw [← chunk_overflows_iff hlong, Nat.not_lt]
    · rename_i hshort
      rw [chunk, if_neg hshort, FitsWhole]
  rw [splitMessage_chunks]
  constructor
  · intro h rest hrest
    exact (hfits rest).mp (h _ ((mem_chunks _ _ _).mpr ⟨rest,hrest,rfl⟩))
  · intro h c hc
    obtain ⟨rest,hrest,rfl⟩ := (mem_chunks _ _ _).mp hc
    exact (hfits rest).mpr (h rest hrest)

/-- 2049 faces are within the limit of characters and beyond that of Telegram. -/
theorem faces_overflow : ¬∀ c ∈ splitMessage (String.ofList (List.replicate 2049 '😀'))
    maxMessageLength, utf16Length c ≤ telegramLimit := by
  intro h
  have hshort : ¬(maxMessageLength : ℕ) < (List.replicate 2049 '😀').length := by
    rw [List.length_replicate]
    decide
  have hone := h (String.ofList (List.replicate 2049 '😀')) (by
    rw [splitMessage_chunks, String.toList_ofList, chunks_eq, chunk, if_neg hshort]
    exact List.mem_cons_self)
  have hface : supplementary '😀' = true := by decide
  rw [utf16Length_ofList, List.countP_replicate, if_pos hface, List.length_replicate] at hone
  exact absurd hone (by decide)

/-! Blank chunks. -/

/-- The text begins with blanks, and the page that is cut off it ends within them:
they reach to its limit, or to the last line end of the half where it is cut. -/
def BlankAhead (limit : ℕ) (rest : List Char) : Prop :=
  limit ≤ (rest.takeWhile isSpace).length ∨
    '\n' ∈ (rest.takeWhile isSpace).drop (limit/2) ∧
      '\n' ∉ (rest.take limit).drop (rest.takeWhile isSpace).length

theorem blank_front_iff (front back : List Char) :
    (∀ c ∈ front, isSpace c = true) ↔
      front.length < ((front ++ '\n'::back).takeWhile isSpace).length := by
  constructor
  · intro hblank
    rw [List.takeWhile_append_of_pos hblank, List.takeWhile_cons_of_pos (by decide),
      List.length_append, List.length_cons]
    omega
  · intro hlong c hc
    have hfront : front <+: (front ++ '\n'::back).takeWhile isSpace :=
      List.prefix_of_prefix_length_le (List.prefix_append _ _) (List.takeWhile_prefix _)
        (Nat.le_of_lt hlong)
    exact List.mem_takeWhile_imp (hfront.subset hc)

/-- Where the second half of the window has no line end, the window is blank or
it is not. -/
theorem blankAhead_full {limit : ℕ} {rest : List Char} (hlong : limit < rest.length)
    (hnone : '\n' ∉ (rest.take limit).drop (limit/2)) :
    (∀ c ∈ rest.take limit, isSpace c = true) ↔ BlankAhead limit rest := by
  constructor
  · intro hblank
    left
    rw [← List.take_append_drop limit rest, List.takeWhile_append_of_pos hblank,
      List.length_append, List.length_take]
    omega
  · intro hahead
    by_cases hfull : limit ≤ (rest.takeWhile isSpace).length
    · have hfront : rest.take limit <+: rest.takeWhile isSpace :=
        List.prefix_of_prefix_length_le (List.take_prefix _ _) (List.takeWhile_prefix _)
          (by rw [List.length_take]; omega)
      exact fun c hc => List.mem_takeWhile_imp (hfront.subset hc)
    · have hfront : rest.takeWhile isSpace <+: rest.take limit :=
        List.prefix_of_prefix_length_le (List.takeWhile_prefix _) (List.take_prefix _ _)
          (by rw [List.length_take]; omega)
      obtain ⟨hline,-⟩ := hahead.resolve_left hfull
      obtain ⟨behind,hbehind⟩ := hfront
      refine absurd ?_ hnone
      rw [← hbehind, List.drop_append]
      exact List.mem_append_left _ hline

/-- Where the last line end of the window is in its second half, the text before
it is blank or it is not. -/
theorem blankAhead_line {limit : ℕ} {rest front back : List Char}
    (hwindow : rest.take limit = front ++ '\n'::back) (hhalf : limit/2 ≤ front.length)
    (hlast : '\n' ∉ back) : BlankAhead limit rest ↔ ∀ c ∈ front, isSpace c = true := by
  obtain ⟨hshort,hrest⟩ := window_line hwindow
  rw [blank_front_iff front (back ++ rest.drop limit), ← hrest, BlankAhead]
  generalize hn : (rest.takeWhile isSpace).length = n
  have hfront := List.takeWhile_prefix isSpace (l := rest)
  rw [List.prefix_iff_eq_take, hn] at hfront
  constructor
  · rintro (hfull | ⟨-,hnone⟩)
    · omega
    · by_contra hshort
      apply hnone
      rw [hwindow, List.drop_append_of_le_length (by omega)]
      simp
  · intro hmore
    by_cases hfull : limit ≤ n
    · exact .inl hfull
    · have hblanks : rest.takeWhile isSpace = front ++ '\n'::back.take (n-front.length-1) := by
        have htake := congrArg (List.take n) hwindow
        rw [List.take_take, Nat.min_eq_left (by omega), ← hfront] at htake
        rw [htake, List.take_append, List.take_of_length_le (by omega),
          show n-front.length = n-front.length-1+1 by omega, List.take_succ_cons,
          Nat.add_sub_cancel]
      refine .inr ⟨?_,?_⟩
      · rw [hblanks, List.drop_append_of_le_length hhalf]
        simp
      · intro hmem
        obtain ⟨k,hk⟩ : ∃ k, n = front.length+(k+1) := ⟨n-front.length-1,by omega⟩
        rw [hwindow, hk, List.drop_append, List.drop_eq_nil_of_le (by omega), List.nil_append,
          Nat.add_sub_cancel_left, List.drop_succ_cons] at hmem
        exact hlast (List.mem_of_mem_drop hmem)

/-- A page is blank exactly when it is cut off within the blanks ahead. -/
theorem page_blank_iff {limit : ℕ} {rest : List Char} (hlong : limit < rest.length) :
    (∀ c ∈ page limit rest, isSpace c = true) ↔ BlankAhead limit rest := by
  rw [page_long hlong]
  have hcuts := cut_cuts limit rest
  generalize cut limit rest = ends at hcuts
  cases hcuts with
  | full hnone => exact blankAhead_full hlong hnone
  | line front back hwindow hhalf hlast =>
    rw [blankAhead_line hwindow hhalf hlast, take_front hwindow]
  | blankLine front back hwindow hhalf hlast =>
    have htwo : rest.take limit = front ++ ['\n'] ++ '\n'::back := by simpa using hwindow
    rw [blankAhead_line htwo (by simpa using hhalf) hlast, take_front hwindow]
    constructor
    · intro hblank c hc
      rcases List.mem_append.mp hc with hc | hc
      · exact hblank c hc
      · rw [List.mem_singleton.mp hc]
        decide
    · exact fun hblank c hc => hblank c (List.mem_append_left _ hc)

theorem chunk_blank_iff {limit : ℕ} {rest : List Char} (hlong : limit < rest.length) :
    (∀ c ∈ chunk limit rest, isSpace c = true) ↔ BlankAhead limit rest := by
  rw [← page_blank_iff hlong]
  constructor
  · intro hblank c hc
    rw [page_chunk hlong] at hc
    rcases List.mem_append.mp hc with hc | hc
    · exact hblank c hc
    · exact List.mem_rtakeWhile_imp hc
  · intro hblank c hc
    rw [chunk, if_pos hlong] at hc
    exact hblank c ((List.rdropWhile_prefix _ _).subset hc)

/-- What the loop has left is an end of the text, and not nothing. -/
theorem remains_suffix {limit : ℕ} {text rest : List Char} (h : Remains limit text rest)
    (hsome : text ≠ []) : rest <:+ text ∧ rest ≠ [] := by
  induction h with
  | start => exact ⟨List.suffix_rfl,hsome⟩
  | @step rest _ hlong ih =>
    refine ⟨(List.drop_suffix _ _).trans ih.1,?_⟩
    have hwithin := cut_within limit rest
    intro hnil
    rw [List.drop_eq_nil_iff] at hnil
    omega

theorem suffix_visible {text : String} {rest : List Char} (hstripped : strip text = text)
    (hsuffix : rest <:+ text.toList) (hsome : rest ≠ []) : ∃ c ∈ rest, isSpace c = false := by
  obtain ⟨front,hfront⟩ := hsuffix
  obtain ⟨line,c,rfl⟩ := (List.eq_nil_or_concat rest).resolve_left hsome
  have hlast := (strip_ends text).2
  rw [hstripped, ← hfront] at hlast
  exact ⟨c,by simp,hlast c (by simp)⟩

/-- The chunks of a stripped answer all have something on them exactly when what
is left after no cut begins with blanks that the next page is cut off within. -/
theorem chunks_visible_iff (text : String) (limit : ℕ+) (hstripped : strip text = text)
    (hsome : text ≠ "") :
    (∀ c ∈ splitMessage text limit, ∃ char ∈ c.toList, isSpace char = false) ↔
    ∀ rest, Remains limit text.toList rest → limit < rest.length → ¬BlankAhead limit rest := by
  have hnotnil : text.toList ≠ [] := by simpa using hsome
  rw [splitMessage_chunks]
  constructor
  · intro h rest hrest hlong hahead
    obtain ⟨c,hc,hvisible⟩ := h _ ((mem_chunks _ _ _).mpr ⟨rest,hrest,rfl⟩)
    rw [String.toList_ofList] at hc
    have hblank := (chunk_blank_iff hlong).mpr hahead c hc
    exact absurd (hblank.symm.trans hvisible) (by decide)
  · intro h c hc
    obtain ⟨rest,hrest,rfl⟩ := (mem_chunks _ _ _).mp hc
    rw [String.toList_ofList]
    by_cases hlong : limit < rest.length
    · by_contra hnone
      refine h rest hrest hlong ((chunk_blank_iff hlong).mp fun char hchar => ?_)
      by_contra hvisible
      exact hnone ⟨char,hchar,by simpa using hvisible⟩
    · rw [chunk, if_neg hlong]
      obtain ⟨hsuffix,hmore⟩ := remains_suffix hrest hnotnil
      exact suffix_visible hstripped hsuffix hmore

/-- Blanks on both sides of the cut. -/
theorem chunks_visible_iff_words :
    (∀ c ∈ splitMessage "uno  due" 4, ∃ char ∈ c.toList, isSpace char = false) ↔
    ∀ rest, Remains 4 "uno  due".toList rest → 4 < rest.length → ¬BlankAhead 4 rest :=
  chunks_visible_iff "uno  due" 4 (by decide) (by decide)

def farWords (blanks : ℕ) : List Char := 'a'::(List.replicate blanks ' ' ++ ['b'])

theorem farWords_drop (blanks limit : ℕ) (hlimit : 0 < limit) (h : 2*limit ≤ blanks) :
    (farWords blanks).drop limit = List.replicate (blanks-(limit-1)) ' ' ++ ['b'] := by
  obtain ⟨k,rfl⟩ := Nat.exists_eq_add_of_lt hlimit
  rw [farWords, Nat.zero_add, List.drop_succ_cons,
    List.drop_append_of_le_length (by rw [List.length_replicate]; omega), List.drop_replicate,
    Nat.add_sub_cancel]

/-- Two pages of blanks between two words are enough for a blank chunk. -/
theorem farWords_blank (limit : ℕ+) (blanks : ℕ) (h : 2*(limit : ℕ) ≤ blanks) :
    ∃ c ∈ splitMessage (String.ofList (farWords blanks)) limit,
      ∀ char ∈ c.toList, isSpace char = true := by
  have hlimit := limit.pos
  have hspace : isSpace ' ' = true := by decide
  have hnone : '\n' ∉ farWords blanks := by simp [farWords, List.mem_replicate]
  have hlong : limit < (farWords blanks).length := by
    rw [farWords, List.length_cons, List.length_append, List.length_replicate]
    omega
  have hremains := Remains.step .start hlong
  rw [cut_full hnone, farWords_drop blanks limit hlimit h] at hremains
  generalize hn : blanks-((limit : ℕ)-1) = n at hremains
  have hmore : limit < (List.replicate n ' ' ++ ['b']).length := by
    rw [List.length_append, List.length_replicate]
    omega
  have hahead : BlankAhead limit (List.replicate n ' ' ++ ['b']) := by
    left
    rw [List.takeWhile_append_of_pos (by simp [hspace]), List.length_append,
      List.length_replicate]
    omega
  rw [splitMessage_chunks, String.toList_ofList]
  refine ⟨_,(mem_chunks _ _ _).mpr ⟨_,hremains,rfl⟩,?_⟩
  rw [String.toList_ofList]
  exact (chunk_blank_iff hmore).mpr hahead

theorem farWords_stripped (blanks : ℕ) :
    strip (String.ofList (farWords blanks)) = String.ofList (farWords blanks) := by
  have hfirst : isSpace 'a' = false := by decide
  have hlast : isSpace 'b' = false := by decide
  apply strip_of_ends
  · rw [String.toList_ofList]
    simp [farWords, hfirst]
  · rw [String.toList_ofList, farWords, ← List.cons_append, List.getLast?_concat]
    simp [hlast]

theorem blank_chunk_sent :
    strip (String.ofList (farWords 8000)) = String.ofList (farWords 8000) ∧
    String.ofList (farWords 8000) ≠ "" ∧
    ¬∀ c ∈ splitMessage (String.ofList (farWords 8000)) maxMessageLength,
      ∃ char ∈ c.toList, isSpace char = false := by
  have hsome : String.ofList (farWords 8000) ≠ "" := by
    intro hnil
    have hchars := congrArg String.toList hnil
    rw [String.toList_ofList] at hchars
    exact List.cons_ne_nil _ _ hchars
  refine ⟨farWords_stripped 8000,hsome,fun h => ?_⟩
  obtain ⟨c,hc,hblank⟩ := farWords_blank maxMessageLength 8000 (by decide)
  obtain ⟨char,hchar,hvisible⟩ := h c hc
  exact absurd ((hblank char hchar).symm.trans hvisible) (by decide)

/-! Line ends. -/

/-- Around the cut the line end that is cut at is the only one that is in neither
chunk. -/
def LosesOneNewline (limit : ℕ) (rest : List Char) : Prop :=
  rest = page limit rest ++ '\n'::next limit rest ∧
  (chunk limit rest).count '\n' = (page limit rest).count '\n' ∧
  ((chunk limit (next limit rest)).takeWhile isSpace).count '\n' =
    ((page limit (next limit rest)).takeWhile isSpace).count '\n'

/-- Right before the line end that is cut at there are blanks with another one in
them, or what is behind it begins with so many blanks that they fill a page, with
another one in it. -/
def BlankLinesAround (limit : ℕ) (rest : List Char) : Prop :=
  '\n' ∈ (page limit rest).rtakeWhile isSpace ∨
  limit < (next limit rest).length ∧ BlankAhead limit (next limit rest) ∧
    '\n' ∈ page limit (next limit rest)

theorem trimmed_newlines {limit : ℕ} {rest : List Char} (hlong : limit < rest.length) :
    (chunk limit rest).count '\n' = (page limit rest).count '\n' ↔
      '\n' ∉ (page limit rest).rtakeWhile isSpace := by
  have hcount := congrArg (List.count '\n') (page_chunk hlong)
  rw [List.count_append] at hcount
  rw [← List.count_eq_zero]
  omega

theorem leading_newlines (limit : ℕ) (rest : List Char) :
    ((chunk limit rest).takeWhile isSpace).count '\n' =
      ((page limit rest).takeWhile isSpace).count '\n' ↔
    ¬(limit < rest.length ∧ BlankAhead limit rest ∧ '\n' ∈ page limit rest) := by
  by_cases hlong : limit < rest.length
  · by_cases hahead : BlankAhead limit rest
    · have hpage := (page_blank_iff hlong).mpr hahead
      have hchunk : chunk limit rest = [] := by
        rw [chunk, if_pos hlong]
        exact List.rdropWhile_eq_nil_iff.mpr hpage
      rw [hchunk, List.takeWhile_eq_self_iff.mpr hpage, List.takeWhile_nil, List.count_nil,
        eq_comm, List.count_eq_zero]
      simp [hlong, hahead]
    · have hvisible : ¬∀ c ∈ chunk limit rest, isSpace c = true :=
        fun hblank => hahead ((chunk_blank_iff hlong).mp hblank)
      have hstop : ((chunk limit rest).takeWhile isSpace).length ≠ (chunk limit rest).length := by
        intro hall
        apply hvisible
        exact List.takeWhile_eq_self_iff.mp ((List.takeWhile_prefix _).eq_of_length hall)
      have hsame : (page limit rest).takeWhile isSpace = (chunk limit rest).takeWhile isSpace := by
        rw [page_chunk hlong, List.takeWhile_append, if_neg hstop]
      simp [hsame, hahead]
  · rw [chunk, page, if_neg hlong, if_neg hlong]
    simp [hlong]

theorem losesOneNewline_iff {limit : ℕ} {rest : List Char} (hlong : limit < rest.length)
    (hline : AtNewline limit rest) :
    LosesOneNewline limit rest ↔ ¬BlankLinesAround limit rest := by
  have hcut : rest = page limit rest ++ '\n'::next limit rest := by
    rcases (page_next hlong).2 with ⟨hno,-⟩ | ⟨-,hcut⟩
    · exact absurd hline hno
    · exact hcut
  rw [LosesOneNewline, BlankLinesAround, trimmed_newlines hlong, leading_newlines, not_or]
  exact and_iff_right hcut

theorem neighbours (text : String) (limit : ℕ+) {rest : List Char}
    (hrest : Remains limit text.toList rest) (hlong : limit < rest.length) :
    ∃ before after, splitMessage text limit = before ++
      String.ofList (chunk limit rest)::String.ofList (chunk limit (next limit rest))::after := by
  obtain ⟨front,hfront⟩ := chunks_of_remains limit _ _ hrest
  rw [splitMessage_chunks, hfront, chunks_eq, if_pos hlong, chunks_eq limit (next limit rest)]
  exact ⟨front,_,rfl⟩

/-- Exactly one line end is lost at each cut made at one exactly when there are no
further blank lines right before it, and no page full of blanks with one behind it. -/
theorem newlines_kept_iff (text : String) (limit : ℕ+) :
    (∀ rest, Remains limit text.toList rest → limit < rest.length → AtNewline limit rest →
      LosesOneNewline limit rest ∧ ∃ before after, splitMessage text limit = before ++
        String.ofList (chunk limit rest)::String.ofList (chunk limit (next limit rest))::after) ↔
    ∀ rest, Remains limit text.toList rest → limit < rest.length → AtNewline limit rest →
      ¬BlankLinesAround limit rest := by
  constructor
  · intro h rest hrest hlong hline
    exact (losesOneNewline_iff hlong hline).mp (h rest hrest hlong hline).1
  · intro h rest hrest hlong hline
    have hkept := (losesOneNewline_iff hlong hline).mpr (h rest hrest hlong hline)
    exact ⟨hkept,neighbours text limit hrest hlong⟩

/-- Of three line ends in a row only one is left. -/
theorem newlines_lost : splitMessage "a\n\n\nb" 4 = ["a","\nb"] ∧
    ¬∀ rest, Remains 4 "a\n\n\nb".toList rest → 4 < rest.length → AtNewline 4 rest →
      LosesOneNewline 4 rest ∧ ∃ before after, splitMessage "a\n\n\nb" 4 = before ++
        String.ofList (chunk 4 rest)::String.ofList (chunk 4 (next 4 rest))::after := by
  constructor
  · rw [splitMessage_chunks, chunks_eq, if_pos (by decide), chunks_eq, if_neg (by decide)]
    decide
  · intro h
    obtain ⟨⟨-,hcount,-⟩,-⟩ := h _ .start (by decide) (by rw [AtNewline]; decide)
    exact absurd hcount (by decide)

end Emma.ChunkContents

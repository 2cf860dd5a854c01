import Emma.Telegram

/-!
# How an answer is cut

While more than the limit is left, a page is cut off and the blanks at its end
are dropped. A page ends before a line end in the second half of the limit, and
that line end is skipped; where there is none the page is as long as the limit.
-/

set_option autoImplicit false

namespace Emma.Splitting
open Emma.Python Emma.Telegram

inductive Remains (limit : ℕ) (text : List Char) : List Char → Prop
  | start : Remains limit text text
  | step {rest : List Char} (h : Remains limit text rest) (hlong : limit < rest.length) :
      Remains limit text (rest.drop (cut limit rest).2)

def page (limit : ℕ) (rest : List Char) : List Char :=
  if limit < rest.length then rest.take (cut limit rest).1 else rest

def next (limit : ℕ) (rest : List Char) : List Char := rest.drop (cut limit rest).2

def chunk (limit : ℕ) (rest : List Char) : List Char :=
  if limit < rest.length then (page limit rest).rdropWhile isSpace else rest

def AtNewline (limit : ℕ) (rest : List Char) : Prop := (cut limit rest).1 < (cut limit rest).2

theorem rfindNewline_none (window : List Char) :
    rfindNewline window = none ↔ '\n' ∉ window := by
  rw [rfindNewline, Option.map_eq_none_iff, List.findIdx?_eq_none_iff]
  constructor
  · intro hnone hmem
    simpa using hnone '\n' (List.mem_reverse.mpr hmem)
  · intro hnone c hc
    simp only [decide_eq_false_iff_not]
    rintro rfl
    exact hnone (List.mem_reverse.mp hc)

theorem rfindNewline_some (window : List Char) (found : ℕ) (h : rfindNewline window = some found) :
    ∃ front back, window = front ++ '\n'::back ∧ front.length = found ∧ '\n' ∉ back := by
  obtain ⟨i,hi,rfl⟩ := Option.map_eq_some_iff.mp h
  obtain ⟨hlt,hhit,hbefore⟩ := List.findIdx?_eq_some_iff_getElem.mp hi
  rw [List.length_reverse] at hlt
  rw [List.getElem_reverse] at hhit
  refine ⟨window.take (window.length-1-i),window.drop (window.length-i),?_,?_,?_⟩
  · have hend : window[window.length-1-i] = '\n' := by simpa using hhit
    rw [← hend, show window.length-i = window.length-1-i+1 by omega, List.getElem_cons_drop,
      List.take_append_drop]
  · rw [List.length_take]
    omega
  · intro hmem
    obtain ⟨j,hj,hlater⟩ := List.getElem_of_mem hmem
    rw [List.length_drop] at hj
    rw [List.getElem_drop] at hlater
    have hnone := hbefore (i-1-j) (by omega)
    rw [List.getElem_reverse] at hnone
    have hsame : window.length-1-(i-1-j) = window.length-i+j := by omega
    simp [hsame, hlater] at hnone

theorem cut_full {limit : ℕ} {rest : List Char} (h : '\n' ∉ rest) :
    cut limit rest = (limit,limit) := by
  have hnone : rfindNewline (rest.take limit) = none :=
    (rfindNewline_none _).mpr fun hmem => h (List.mem_of_mem_take hmem)
  rw [cut, hnone]

inductive Cut (limit : ℕ) (rest : List Char) : ℕ × ℕ → Prop
  | full (h : '\n' ∉ (rest.take limit).drop (limit/2)) : Cut limit rest (limit,limit)
  | line (front back : List Char) (hwindow : rest.take limit = front ++ '\n'::back)
      (hhalf : limit/2 ≤ front.length) (hlast : '\n' ∉ back) (hend : front.getLast? ≠ some '\n') :
      Cut limit rest (front.length,front.length+1)
  | blankLine (front back : List Char) (hwindow : rest.take limit = front ++ '\n'::('\n'::back))
      (hhalf : limit/2 ≤ front.length+1) (hlast : '\n' ∉ back) :
      Cut limit rest (front.length,front.length+1)

theorem cut_cuts (limit : ℕ) (rest : List Char) : Cut limit rest (cut limit rest) := by
  unfold cut
  dsimp only
  split
  · rename_i hnone
    rw [rfindNewline_none] at hnone
    exact .full fun h => hnone (List.mem_of_mem_drop h)
  · rename_i found hfound
    obtain ⟨front,back,hwindow,rfl,hlast⟩ := rfindNewline_some _ _ hfound
    split
    · rename_i hearly
      obtain ⟨k,hk⟩ : ∃ k, limit/2 = front.length+(k+1) := ⟨limit/2-front.length-1,by omega⟩
      apply Cut.full
      rw [hwindow, hk, List.drop_append, List.drop_eq_nil_of_le (by omega), List.nil_append,
        Nat.add_sub_cancel_left, List.drop_succ_cons]
      exact fun h => hlast (List.mem_of_mem_drop h)
    · rename_i hlate
      rcases List.eq_nil_or_concat front with rfl | ⟨line,c,rfl⟩
      · exact .line [] back hwindow (by simpa using hlate) hlast (by simp)
      · simp only [List.concat_eq_append, List.length_append, List.length_singleton]
          at hwindow hlate ⊢
        have hbefore : (rest.take limit)[line.length+1-1]? = some c := by
          rw [hwindow]
          simp
        rw [hbefore]
        by_cases hc : c = '\n'
        · subst hc
          rw [if_pos ⟨Nat.succ_pos _,rfl⟩]
          exact .blankLine line back (by simpa using hwindow) (by omega) hlast
        · rw [if_neg (by simp [hc])]
          have hcut := Cut.line (line ++ [c]) back hwindow (by simpa using hlate) hlast
            (by simp [hc])
          simpa using hcut

theorem window_line {limit : ℕ} {rest front back : List Char}
    (hwindow : rest.take limit = front ++ '\n'::back) :
    front.length < limit ∧ rest = front ++ '\n'::(back ++ rest.drop limit) := by
  constructor
  · have hlength := congrArg List.length hwindow
    rw [List.length_take, List.length_append, List.length_cons] at hlength
    omega
  · have hrest := (List.take_append_drop limit rest).symm
    rw [hwindow] at hrest
    simpa using hrest

theorem take_front {limit : ℕ} {rest front back : List Char}
    (hwindow : rest.take limit = front ++ '\n'::back) : rest.take front.length = front := by
  conv_lhs => rw [(window_line hwindow).2]
  exact List.take_left' rfl

theorem drop_front {limit : ℕ} {rest front back : List Char}
    (hwindow : rest.take limit = front ++ '\n'::back) :
    rest.drop (front.length+1) = back ++ rest.drop limit := by
  conv_lhs => rw [(window_line hwindow).2]
  rw [List.drop_append, List.drop_eq_nil_of_le (by omega), List.nil_append,
    Nat.add_sub_cancel_left, List.drop_one, List.tail_cons]

theorem cut_within (limit : ℕ) (rest : List Char) : (cut limit rest).2 ≤ limit := by
  have hcuts := cut_cuts limit rest
  generalize cut limit rest = ends at hcuts
  cases hcuts with
  | full => exact Nat.le_refl _
  | line front back hwindow => exact (window_line hwindow).1
  | blankLine front back hwindow => exact (window_line hwindow).1

theorem page_long {limit : ℕ} {rest : List Char} (hlong : limit < rest.length) :
    page limit rest = rest.take (cut limit rest).1 := if_pos hlong

/-- A page and what is left make up the text, but for the line end between them. -/
theorem page_next {limit : ℕ} {rest : List Char} (hlong : limit < rest.length) :
    (page limit rest).length ≤ limit ∧
      (¬AtNewline limit rest ∧ rest = page limit rest ++ next limit rest ∨
        AtNewline limit rest ∧ rest = page limit rest ++ '\n'::next limit rest) := by
  have hline : ∀ front back : List Char, rest.take limit = front ++ '\n'::back →
      (rest.take front.length).length ≤ limit ∧
        rest = rest.take front.length ++ '\n'::rest.drop (front.length+1) := by
    intro front back hwindow
    rw [take_front hwindow, drop_front hwindow]
    exact ⟨Nat.le_of_lt (window_line hwindow).1,(window_line hwindow).2⟩
  rw [page_long hlong, next, AtNewline]
  have hcuts := cut_cuts limit rest
  generalize cut limit rest = ends at hcuts
  cases hcuts with
  | full h =>
    refine ⟨by simp,.inl ⟨by simp,?_⟩⟩
    exact (List.take_append_drop limit rest).symm
  | line front back hwindow =>
    exact ⟨(hline front back hwindow).1,.inr ⟨by simp,(hline front back hwindow).2⟩⟩
  | blankLine front back hwindow =>
    exact ⟨(hline front _ hwindow).1,.inr ⟨by simp,(hline front _ hwindow).2⟩⟩

theorem chunks_eq (limit : ℕ+) (rest : List Char) :
    chunks limit rest = String.ofList (chunk limit rest)::
      if limit < rest.length then chunks limit (next limit rest) else [] := by
  rw [chunks, chunk, page]
  split
  · rfl
  · rfl

/-- What the loop begins with is what it makes the rest of its chunks of. -/
theorem chunks_of_remains (limit : ℕ+) (text rest : List Char) (h : Remains limit text rest) :
    ∃ front, chunks limit text = front ++ chunks limit rest := by
  induction h with
  | start => exact ⟨[],rfl⟩
  | @step rest _ hlong ih =>
    obtain ⟨front,hfront⟩ := ih
    rw [chunks_eq limit rest, if_pos hlong] at hfront
    exact ⟨front ++ [String.ofList (chunk limit rest)],by simpa [next] using hfront⟩

theorem remains_trans {limit : ℕ} {text rest last : List Char} (h : Remains limit text rest)
    (h' : Remains limit rest last) : Remains limit text last := by
  induction h' with
  | start => exact h
  | step _ hlong ih => exact .step ih hlong

theorem mem_chunks (limit : ℕ+) (text : List Char) (c : String) :
    c ∈ chunks limit text ↔
      ∃ rest, Remains limit text rest ∧ c = String.ofList (chunk limit rest) := by
  constructor
  · intro hc
    induction text using chunks.induct limit with
    | case1 text hlong ih =>
      rw [chunks_eq, if_pos hlong, List.mem_cons] at hc
      rcases hc with rfl | hc
      · exact ⟨text,.start,rfl⟩
      · obtain ⟨rest,hrest,rfl⟩ := ih hc
        exact ⟨rest,remains_trans (.step .start hlong) hrest,rfl⟩
    | case2 text hshort =>
      rw [chunks_eq, if_neg hshort, List.mem_singleton] at hc
      exact ⟨text,.start,hc⟩
  · rintro ⟨rest,hrest,rfl⟩
    obtain ⟨front,hfront⟩ := chunks_of_remains limit text rest hrest
    rw [hfront, chunks_eq]
    simp

theorem splitMessage_chunks (text : String) (limit : ℕ+) :
    splitMessage text limit = chunks limit text.toList := by
  rw [splitMessage]
  split
  · rename_i hempty
    rw [hempty, chunks_eq]
    rfl
  · rfl

theorem chunk_length (limit : ℕ) (rest : List Char) : (chunk limit rest).length ≤ limit := by
  rw [chunk]
  split
  · rename_i hlong
    exact (List.rdropWhile_prefix _ _).length_le.trans (page_next hlong).1
  · omega

theorem page_chunk {limit : ℕ} {rest : List Char} (hlong : limit < rest.length) :
    page limit rest = chunk limit rest ++ (page limit rest).rtakeWhile isSpace := by
  rw [chunk, if_pos hlong, List.rdropWhile_append_rtakeWhile]

theorem chunks_woven (limit : ℕ+) (text : List Char) :
    ∃ gaps : List String, gaps.length+1 = (chunks limit text).length ∧
      (∀ gap ∈ gaps, ∀ c ∈ gap.toList, isSpace c = true) ∧
      text = (List.zipWith (· ++ ·) (chunks limit text) (gaps ++ [""])).flatMap String.toList := by
  induction text using chunks.induct limit with
  | case1 text hlong ih =>
    obtain ⟨gaps,hlength,hblank,hwoven⟩ := ih
    change gaps.length+1 = (chunks limit (next limit text)).length at hlength
    change next limit text = _ at hwoven
    obtain ⟨-,hsplit⟩ := page_next hlong
    have hgap : ∃ gap : List Char, (∀ c ∈ gap, isSpace c = true) ∧
        text = chunk limit text ++ gap ++ next limit text := by
      have hpage := page_chunk hlong
      have htrimmed : ∀ c ∈ (page limit text).rtakeWhile isSpace, isSpace c = true :=
        fun c hc => List.mem_rtakeWhile_imp hc
      rcases hsplit with ⟨-,hrest⟩ | ⟨-,hrest⟩
      · rw [hpage] at hrest
        exact ⟨_,htrimmed,hrest⟩
      · rw [hpage] at hrest
        refine ⟨(page limit text).rtakeWhile isSpace ++ ['\n'],?_,by simpa using hrest⟩
        intro c hc
        rcases List.mem_append.mp hc with hc | hc
        · exact htrimmed c hc
        · obtain rfl := List.mem_singleton.mp hc
          decide
    obtain ⟨gap,hspaces,htext⟩ := hgap
    refine ⟨String.ofList gap::gaps,?_,?_,?_⟩
    · rw [chunks_eq, if_pos hlong, List.length_cons, List.length_cons, hlength]
    · exact List.forall_mem_cons.mpr ⟨by simpa using hspaces,hblank⟩
    · rw [chunks_eq, if_pos hlong]
      conv_lhs => rw [htext, hwoven]
      simp [next]
  | case2 text hshort =>
    rw [chunks_eq, if_neg hshort]
    exact ⟨[],rfl,by simp,by simp [chunk, hshort]⟩

/-- Splitting ends, every chunk fits, and what is lost between two of them is
blank. -/
theorem splitting_loses_only_blanks (text : String) (limit : ℕ+) :
    splitMessage text limit ≠ [] ∧ (∀ c ∈ splitMessage text limit, c.length ≤ limit) ∧
    (∃ gaps : List String, gaps.length+1 = (splitMessage text limit).length ∧
      (∀ gap ∈ gaps, ∀ c ∈ gap.toList, isSpace c = true) ∧
      text = String.join (List.zipWith (· ++ ·) (splitMessage text limit) (gaps ++ [""]))) ∧
    (text.length ≤ limit → splitMessage text limit = [text]) := by
  rw [splitMessage_chunks]
  refine ⟨?_,?_,?_,?_⟩
  · rw [chunks_eq]
    simp
  · intro c hc
    obtain ⟨rest,-,rfl⟩ := (mem_chunks limit _ c).mp hc
    rw [String.length_ofList]
    exact chunk_length limit rest
  · obtain ⟨gaps,hlength,hblank,hwoven⟩ := chunks_woven limit text.toList
    refine ⟨gaps,hlength,hblank,?_⟩
    apply String.toList_inj.mp
    rw [String.toList_join]
    exact hwoven
  · intro hshort
    have hfits : ¬limit < text.toList.length := by
      rw [String.length_toList]
      omega
    rw [chunks_eq, if_neg hfits, chunk, if_neg hfits, String.ofList_toList]

end Emma.Splitting

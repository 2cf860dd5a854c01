import Emma.Library.QuotedText

/-!
# Searching text line by line

A search prints, line by line and from left to right, what matches a mark with a
run of characters behind it. Matches do not overlap and empty ones are not
printed. For a quoted label they are the places where it stands.
-/

set_option autoImplicit false

namespace LineSearch
open Delimited QuotedText

variable {α : Type*} [DecidableEq α]

def hits (mark : List α) (p : α → Bool) : ℕ → List α → List (List α)
  | _, [] => []
  | covered+1, _::text => hits mark p covered text
  | 0, a::text =>
    if mark.isPrefixOf (a::text) then
      match mark ++ ((a::text).drop mark.length).takeWhile p with
      | [] => hits mark p 0 text
      | c::found => (c::found)::hits mark p found.length text
    else hits mark p 0 text

def search (mark : List α) (p : α → Bool) (lines : List (List α)) : List (List α) :=
  lines.flatMap (hits mark p 0)

theorem hits_covered (mark : List α) (p : α → Bool) (covered : ℕ) (text : List α) :
    hits mark p covered text = hits mark p 0 (text.drop covered) := by
  induction text generalizing covered with
  | nil => cases covered <;> simp [hits]
  | cons a text ih =>
    cases covered with
    | zero => rfl
    | succ covered => exact ih covered

theorem hits_run (p : α → Bool) (run : List α) (h : ∀ a ∈ run, p a = true) (hsome : run ≠ []) :
    hits [] p 0 run = [run] := by
  obtain ⟨a,rest,rfl⟩ := List.exists_cons_of_ne_nil hsome
  have htake : (a::rest).takeWhile p = a::rest := List.takeWhile_eq_self_iff.mpr h
  rw [hits, if_pos List.isPrefixOf_nil_left, List.length_nil, List.drop_zero, htake]
  dsimp only [List.nil_append]
  rw [hits_covered, List.drop_length, hits]

theorem hits_outside (p : α → Bool) (front text : List α) (h : ∀ a ∈ front, p a = false) :
    hits [] p 0 (front ++ text) = hits [] p 0 text := by
  induction front with
  | nil => rfl
  | cons a front ih =>
    have ha : p a = false := h a List.mem_cons_self
    rw [List.cons_append, hits, if_pos List.isPrefixOf_nil_left, List.length_nil, List.drop_zero,
      List.takeWhile_cons_of_neg (by simp [ha])]
    exact ih fun b hb => h b (List.mem_cons_of_mem a hb)

theorem hits_miss (mark : List α) (p : α → Bool) (a : α) (text : List α)
    (h : ¬mark <+: a::text) : hits mark p 0 (a::text) = hits mark p 0 text := by
  rw [hits, if_neg (by rwa [List.isPrefixOf_iff_prefix])]

theorem hits_match (c : α) (front : List α) (p : α → Bool) (tail : List α) :
    hits (c::front) p 0 ((c::front) ++ tail) =
      ((c::front) ++ tail.takeWhile p)::hits (c::front) p 0 (tail.dropWhile p) := by
  have hstarts : (c::front).isPrefixOf (c::(front ++ tail)) = true := by
    rw [List.isPrefixOf_iff_prefix]
    exact ⟨tail,rfl⟩
  have hdrop : (c::(front ++ tail)).drop (c::front).length = tail := List.drop_left
  rw [List.cons_append, hits, if_pos hstarts, hdrop]
  dsimp only [List.cons_append]
  rw [hits_covered, List.length_append, ← List.drop_drop, List.drop_left]
  congr 2
  have hcut := @List.drop_left _ (tail.takeWhile p) (tail.dropWhile p)
  rwa [List.takeWhile_append_dropWhile] at hcut

variable (l : Label α)

omit [DecidableEq α] in
theorem mark_cons : ∃ front, l.mark = l.quote::front := ⟨_,rfl⟩

theorem hits_label (p : α → Bool) (hp : p l.quote = false) (text : List α) :
    hits l.mark p 0 text = (behind l.mark text).map fun tail => l.mark ++ tail.takeWhile p := by
  induction hlength : text.length using Nat.strong_induction_on generalizing text with
  | _ n ih =>
    cases text with
    | nil => rfl
    | cons a rest =>
      by_cases hstands : l.mark <+: a::rest
      · obtain ⟨tail,htail⟩ := hstands
        obtain ⟨front,hmark⟩ := mark_cons l
        have hshorter : (tail.dropWhile p).length < n := by
          have hdrop := (List.dropWhile_sublist (l := tail) p).length_le
          have hall := congrArg List.length htail
          rw [hmark, List.length_append, List.length_cons] at hall
          omega
        have hrun : l.quote ∉ tail.takeWhile p := by
          intro h
          rw [List.mem_takeWhile_imp h] at hp
          cases hp
        have hbehind : behind l.mark tail = behind l.mark (tail.dropWhile p) := by
          conv_lhs => rw [← List.takeWhile_append_dropWhile (p := p) (l := tail)]
          exact l.behind_plain _ _ hrun
        have hrest := ih _ hshorter (tail.dropWhile p) rfl
        rw [← htail, l.behind_mark, List.map_cons, hbehind, ← hrest, hmark, hits_match]
      · rw [hits_miss _ _ _ _ hstands, behind, if_neg (by rwa [List.isPrefixOf_iff_prefix])]
        exact ih rest.length (by rw [← hlength]; exact Nat.lt_succ_self _) rest rfl

omit [DecidableEq α] in
theorem prefix_line (mark line rest : List α) (newline : α) (h : newline ∉ mark) :
    mark <+: line ++ newline::rest ↔ mark <+: line := by
  constructor
  · rintro ⟨t,ht⟩
    rcases List.append_eq_append_iff.mp ht with ⟨more,hline,-⟩ | ⟨more,hmark,hmore⟩
    · exact ⟨more,hline.symm⟩
    · cases more with
      | nil =>
        rw [List.append_nil] at hmark
        exact ⟨[],by rw [hmark, List.append_nil]⟩
      | cons a more =>
        obtain ⟨rfl,-⟩ := List.cons.inj hmore
        exact absurd (by rw [hmark]; simp) h
  · rintro ⟨t,rfl⟩
    exact ⟨t ++ newline::rest,by rw [List.append_assoc]⟩

/-- No place where a mark stands, nor the run behind it, goes across the end of a
line. -/
theorem behind_line (mark line rest : List α) (newline : α) (p : α → Bool)
    (hmark : newline ∉ mark) (hsome : mark ≠ []) (hp : p newline = false) :
    (behind mark (line ++ newline::rest)).map (List.takeWhile p) =
      (behind mark line).map (List.takeWhile p) ++ (behind mark rest).map (List.takeWhile p) := by
  induction line with
  | nil =>
    obtain ⟨a,front,rfl⟩ := List.exists_cons_of_ne_nil hsome
    have hother : ¬(a::front) <+: newline::rest := by
      intro h
      exact hmark (by rw [(List.cons_prefix_cons.mp h).1]; exact List.mem_cons_self)
    have hmiss : behind (a::front) (newline::rest) = behind (a::front) rest := by
      rw [behind, if_neg (by rwa [List.isPrefixOf_iff_prefix])]
    rw [List.nil_append, hmiss]
    rfl
  | cons a line ih =>
    have hsame := prefix_line mark (a::line) rest newline hmark
    rw [List.cons_append] at hsame ⊢
    simp only [behind, List.isPrefixOf_iff_prefix, hsame]
    by_cases hstands : mark <+: a::line
    · obtain ⟨tail,htail⟩ := hstands
      have hlong : a::(line ++ newline::rest) = mark ++ (tail ++ newline::rest) := by
        rw [← List.cons_append, ← htail, List.append_assoc]
      have hrun : (tail ++ newline::rest).takeWhile p = tail.takeWhile p := by
        rw [List.takeWhile_append]
        split
        · rename_i hall
          rw [List.takeWhile_cons_of_neg (by simp [hp]), List.append_nil]
          exact ((List.takeWhile_prefix p).eq_of_length hall).symm
        · rfl
      rw [if_pos ⟨tail,htail⟩, if_pos ⟨tail,htail⟩, hlong, ← htail, List.drop_left, List.drop_left,
        List.map_cons, List.map_cons, ih, hrun, List.cons_append]
    · rw [if_neg hstands, if_neg hstands, ih]

theorem search_label (p : α → Bool) (newline : α) (text : List α) (hp : p l.quote = false)
    (hnewline : p newline = false) (hmark : newline ∉ l.mark) :
    search l.mark p (text.splitOn newline) =
      (behind l.mark text).map fun tail => l.mark ++ tail.takeWhile p := by
  induction hlength : text.length using Nat.strong_induction_on generalizing text with
  | _ n ih =>
    by_cases hlines : newline ∈ text
    · obtain ⟨line,rest,rfl,hline⟩ := List.eq_append_cons_of_mem hlines
      have hrest := ih rest.length (by rw [← hlength]; simp; omega) rest rfl
      have hone := hits_label l p hp line
      have hcut := behind_line l.mark line rest newline p hmark (List.cons_ne_nil _ _) hnewline
      have hmap := congrArg (List.map (l.mark ++ ·)) hcut
      rw [List.map_append, List.map_map, List.map_map, List.map_map] at hmap
      rw [List.splitOn_append_cons_self, List.splitOn_eq_singleton hline, search, List.flatMap_append,
        ← search, ← search, hrest]
      refine Eq.trans ?_ hmap.symm
      congr 1
      exact (List.flatMap_singleton _ _).trans hone
    · rw [List.splitOn_eq_singleton hlines]
      exact (List.flatMap_singleton _ _).trans (hits_label l p hp text)

end LineSearch

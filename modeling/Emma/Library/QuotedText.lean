import Emma.Library.Delimited

/-!
# Finding a quoted name without a parser

A quoted name with a colon behind it is searched for in text where names and
values stand between quotes. A value that has its own quotes behind an escape
cannot be mistaken for the name, whatever it says.
-/

set_option autoImplicit false

namespace QuotedText
open Delimited

variable {α : Type*}

def behind [DecidableEq α] (mark : List α) : List α → List (List α)
  | [] => []
  | a::text => if mark.isPrefixOf (a::text) then (a::text).drop mark.length :: behind mark text
      else behind mark text

structure Label (α : Type*) where
  quote : α
  escape : α
  colon : α
  name : List α
  name_some : name ≠ []
  quote_name : quote ∉ name
  escape_name : escape ∉ name
  colon_name : colon ∉ name
  colon_quote : colon ≠ quote

namespace Label

variable (l : Label α)

def mark : List α := l.quote::l.name ++ [l.quote,l.colon]

def Guarded (body : List α) : Prop :=
  ∀ front tail, body = front ++ l.quote::tail → front.getLast? = some l.escape

theorem guarded_nil : l.Guarded [] := by
  intro front tail h
  simp at h

theorem guarded_append (front tail : List α) (hfront : l.Guarded front) (htail : l.Guarded tail) :
    l.Guarded (front ++ tail) := by
  intro before after h
  rcases List.append_eq_append_iff.mp h with ⟨more,rfl,hafter⟩ | ⟨more,hfirst,hmore⟩
  · have hlast := htail more after hafter
    rw [List.getLast?_append, hlast]
    rfl
  · cases more with
    | nil =>
      rw [List.append_nil] at hfirst
      subst hfirst
      have hlast := htail [] after hmore.symm
      cases hlast
    | cons a more =>
      obtain ⟨rfl,-⟩ := List.cons.inj hmore
      exact hfront before more hfirst

theorem guarded_plain (body : List α) (h : l.quote ∉ body) : l.Guarded body := by
  rintro front tail rfl
  simp at h

theorem name_not_in_body (w body rest : List α) (c : α) (h : l.Guarded (w ++ body))
    (hc : c ≠ l.colon) : ¬l.name ++ [l.quote,l.colon] <+: body ++ l.quote::c::rest := by
  rintro ⟨t,ht⟩
  rw [List.append_assoc] at ht
  rcases List.append_eq_append_iff.mp ht with ⟨more,hbody,hmore⟩ | ⟨more,hname,hmore⟩
  · cases more with
    | nil => exact hc (by simpa using hmore.symm : c = l.colon ∧ rest = t).1
    | cons a more =>
      obtain ⟨rfl,-⟩ := List.cons.inj hmore
      have hlast := h (w ++ l.name) more (by rw [hbody, List.append_assoc])
      rw [List.getLast?_append, List.getLast?_eq_some_getLast l.name_some] at hlast
      exact l.escape_name (Option.some.inj hlast ▸ List.getLast_mem l.name_some)
  · cases more with
    | nil => exact hc (by simpa using hmore : c = l.colon ∧ rest = t).1
    | cons a more =>
      obtain ⟨rfl,-⟩ := List.cons.inj hmore
      exact l.quote_name (by simp [hname])

theorem name_not_at (c : α) (rest : List α) (hc : c ∉ l.name) :
    ¬l.name ++ [l.quote,l.colon] <+: c::rest := by
  rintro ⟨t,ht⟩
  cases hname : l.name with
  | nil => exact l.name_some hname
  | cons a name =>
    rw [hname] at ht
    obtain ⟨rfl,-⟩ := List.cons.inj ht
    exact hc (by simp [hname])

variable [DecidableEq α]

def escaped (print : α → List α) (text : List α) : List α :=
  text.flatMap fun a => if a = l.quote ∨ a = l.escape then [l.escape,a] else print a

theorem guarded_escaped (print : α → List α) (hprint : ∀ a, a ≠ l.quote → l.quote ∉ print a)
    (hescape : l.escape ≠ l.quote) (text : List α) : l.Guarded (l.escaped print text) := by
  induction text with
  | nil => exact l.guarded_nil
  | cons a text ih =>
    rw [escaped, List.flatMap_cons]
    apply l.guarded_append _ _ _ ih
    split
    · intro front tail h
      rcases List.cons_eq_append_iff.mp h with ⟨rfl,hquote⟩ | ⟨more,rfl,hmore⟩
      · exact absurd (List.cons.inj hquote).1.symm hescape
      · cases more with
        | nil => rfl
        | cons b more =>
          simp at hmore
    · rename_i hother
      exact l.guarded_plain _ (hprint a fun h => hother (.inl h))

theorem behind_skip (a : α) (text : List α) (h : a ≠ l.quote) :
    behind l.mark (a::text) = behind l.mark text := by
  rw [behind, if_neg]
  simp [mark, h.symm]

theorem behind_plain (front tail : List α) (h : l.quote ∉ front) :
    behind l.mark (front ++ tail) = behind l.mark tail := by
  induction front with
  | nil => rfl
  | cons a front ih =>
    rw [List.mem_cons, not_or] at h
    rw [List.cons_append, l.behind_skip a _ (Ne.symm h.1)]
    exact ih h.2

theorem behind_quote (text : List α) (h : ¬l.name ++ [l.quote,l.colon] <+: text) :
    behind l.mark (l.quote::text) = behind l.mark text := by
  rw [behind, if_neg]
  simpa [mark] using h

theorem behind_body (w body rest : List α) (c : α) (h : l.Guarded (w ++ body))
    (hcolon : c ≠ l.colon) (hc : c ∉ l.name) :
    behind l.mark (body ++ l.quote::c::rest) = behind l.mark (c::rest) := by
  induction body generalizing w with
  | nil => exact l.behind_quote _ (l.name_not_at c rest hc)
  | cons a body ih =>
    have hrest : l.Guarded ((w ++ [a]) ++ body) := by simpa using h
    rw [List.cons_append]
    by_cases ha : a = l.quote
    · rw [ha, l.behind_quote _ (l.name_not_in_body _ body rest c hrest hcolon)]
      exact ih _ hrest
    · rw [l.behind_skip a _ ha]
      exact ih _ hrest

theorem behind_value (body rest : List α) (c : α) (h : l.Guarded body) (hcolon : c ≠ l.colon)
    (hc : c ∉ l.name) :
    behind l.mark (l.quote::body ++ l.quote::c::rest) = behind l.mark (c::rest) := by
  rw [List.cons_append, l.behind_quote _ (l.name_not_in_body [] body rest c h hcolon)]
  exact l.behind_body [] body rest c h hcolon hc

theorem behind_other (name rest : List α) (hquote : l.quote ∉ name) (hname : name ≠ l.name) :
    behind l.mark (l.quote::name ++ l.quote::l.colon::rest) = behind l.mark rest := by
  rw [List.cons_append, l.behind_quote, l.behind_plain name _ hquote,
    l.behind_quote _ (l.name_not_at l.colon rest l.colon_name), l.behind_skip _ _ l.colon_quote]
  rintro ⟨t,ht⟩
  rw [List.append_assoc] at ht
  exact hname (cut_unique l.quote_name hquote ht).1.symm

theorem behind_mark (rest : List α) :
    behind l.mark (l.mark ++ rest) = rest::behind l.mark rest := by
  have hfirst : l.mark ++ rest = l.quote::(l.name ++ l.quote::l.colon::rest) := by simp [mark]
  have hstarts : l.mark.isPrefixOf (l.mark ++ rest) = true := by
    rw [List.isPrefixOf_iff_prefix]
    exact List.prefix_append _ _
  rw [hfirst, behind, ← hfirst, if_pos hstarts, List.drop_left, l.behind_plain _ _ l.quote_name,
    l.behind_quote _ (l.name_not_at l.colon rest l.colon_name), l.behind_skip _ _ l.colon_quote]

end Label
end QuotedText

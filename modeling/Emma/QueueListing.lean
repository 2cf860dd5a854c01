import Emma.Library.QuotedText
import Emma.QueueScript

/-!
# The listing on its way to the watcher

The script prints the rows as JSON and the watcher, which has no parser, searches
the text for the ids. Whatever the requests, notes and answers say, it finds the
ids of the rows and nothing else.
-/

set_option autoImplicit false

namespace Emma.QueueListing
open Emma.Tasks Emma.QueueScript QuotedText

/-- What `sqlite3 -json` makes of a time, and of the characters of a text other
than the double quote and the backslash. -/
structure Printer where
  time : ℚ → List Char
  other : Char → List Char
  time_plain : ∀ t, '"' ∉ time t
  other_plain : ∀ c, c ≠ '"' → '"' ∉ other c

def idLabel : Label Char where
  quote := '"'
  escape := '\\'
  colon := ':'
  name := ['i','d']
  name_some := by decide
  quote_name := by decide
  escape_name := by decide
  colon_name := by decide
  colon_quote := by decide

def stageText : Stage → String
  | .new => "new"
  | .understood => "understood"
  | .implemented => "implemented"
  | .committed => "committed"
  | .pushed => "pushed"
  | .deployed => "deployed"

def statusText : Status → String
  | .queued => "queued"
  | .waitingUser => "waiting_user"
  | .done => "done"
  | .abandoned => "abandoned"

inductive Column where
  | text (value : String)
  | real (value : ℚ)

namespace Printer

variable (p : Printer)

def column : Column → List Char
  | .text value => '"'::idLabel.escaped p.other value.toList ++ ['"']
  | .real value => p.time value

def entry (name : List Char) (column : Column) : List Char :=
  '"'::name ++ ['"',':'] ++ p.column column

end Printer

/-- `TASK_COLUMNS` behind the id. -/
def columns (task : Task) : List (String × Column) :=
  [("request",.text task.request),("stage",.text (stageText task.stage)),
    ("status",.text (statusText task.status)),("note",.text task.note),
    ("answer",.text task.answer),("created_at",.real task.createdAt),
    ("updated_at",.real task.updatedAt)]

namespace Printer

variable (p : Printer)

def object (row : ℕ × Task) : List Char :=
  '{'::idLabel.mark ++ (Nat.toDigits 10 row.1 ++
    ((columns row.2).flatMap fun c => ','::p.entry c.1.toList c.2) ++ ['}'])

def rows : List (ℕ × Task) → List Char
  | [] => []
  | row::rows => '['::p.object row ++ (rows.flatMap fun row => ',' :: '\n' :: p.object row) ++
      [']','\n']

/-- What the command substitution keeps of the output; a refusal fails. -/
def output : Except String Printed → Option (List Char)
  | .ok (.listing found) => some (chomp (p.rows found))
  | .ok (.line text) => some text.toList
  | .error _ => none

end Printer

/-- The second `grep` drops a match without digits. -/
def idsIn (text : List Char) : List (List Char) :=
  ((behind idLabel.mark text).map fun tail => tail.takeWhile Char.isDigit).filter (· ≠ [])

namespace Printer

variable (p : Printer)

theorem behind_entry (name rest : List Char) (column : Column) (c : Char) (hquote : '"' ∉ name)
    (hname : name ≠ idLabel.name) (hcolon : c ≠ ':') (hc : c ∉ idLabel.name) :
    behind idLabel.mark (p.entry name column ++ c::rest) = behind idLabel.mark (c::rest) := by
  have hother := idLabel.behind_other name (p.column column ++ c::rest) hquote hname
  have hfirst : p.entry name column ++ c::rest =
      '"'::name ++ '"' :: ':' :: (p.column column ++ c::rest) := by simp [entry]
  rw [hfirst]
  apply hother.trans
  cases column with
  | text value =>
    have hbody := idLabel.guarded_escaped p.other p.other_plain (by decide) value.toList
    rw [Printer.column, List.append_assoc]
    exact idLabel.behind_value _ rest c hbody hcolon hc
  | real value => exact idLabel.behind_plain _ _ (p.time_plain value)

/-- The columns behind the id hold no id, whatever is written in them. -/
theorem behind_entries (columns : List (String × Column)) (rest : List Char)
    (h : ∀ c ∈ columns, '"' ∉ c.1.toList ∧ c.1.toList ≠ idLabel.name) :
    behind idLabel.mark ((columns.flatMap fun c => ','::p.entry c.1.toList c.2) ++ '}'::rest) =
      behind idLabel.mark rest := by
  induction columns with
  | nil => exact idLabel.behind_skip '}' rest (by decide)
  | cons first columns ih =>
    have hrest := ih fun c hc => h c (List.mem_cons_of_mem _ hc)
    obtain ⟨hquote,hname⟩ := h first List.mem_cons_self
    rw [List.flatMap_cons, List.cons_append, List.cons_append,
      idLabel.behind_skip ',' _ (by decide), List.append_assoc]
    cases columns with
    | nil =>
      rw [List.flatMap_nil, List.nil_append] at hrest ⊢
      rw [p.behind_entry _ rest _ '}' hquote hname (by decide) (by decide)]
      exact hrest
    | cons second columns =>
      rw [List.flatMap_cons, List.cons_append, List.cons_append] at hrest ⊢
      rw [p.behind_entry _ _ _ ',' hquote hname (by decide) (by decide)]
      exact hrest

theorem columns_named (task : Task) (c : String × Column) (h : c ∈ columns task) :
    '"' ∉ c.1.toList ∧ c.1.toList ≠ idLabel.name := by
  have hname : c.1 ∈ ["request","stage","status","note","answer","created_at","updated_at"] :=
    List.mem_map_of_mem (f := Prod.fst) h
  revert hname
  generalize c.1 = name
  revert name
  decide

theorem behind_object (row : ℕ × Task) (rest : List Char) :
    ∃ tail, behind idLabel.mark (p.object row ++ rest) = tail::behind idLabel.mark rest ∧
      tail.takeWhile Char.isDigit = Nat.toDigits 10 row.1 := by
  have hdigits : '"' ∉ Nat.toDigits 10 row.1 := fun h => by
    simpa using Delimited.digits_run row.1 '"' h
  have hcolumns := p.behind_entries (columns row.2) rest (columns_named row.2)
  have hfirst : p.object row ++ rest = '{'::(idLabel.mark ++ (Nat.toDigits 10 row.1 ++
      (((columns row.2).flatMap fun c => ','::p.entry c.1.toList c.2) ++ '}'::rest))) := by
    simp [object]
  rw [hfirst, idLabel.behind_skip '{' _ (by decide), idLabel.behind_mark,
    idLabel.behind_plain _ _ hdigits, hcolumns]
  refine ⟨_,rfl,?_⟩
  apply Delimited.takeWhile_run
  · exact Delimited.digits_run row.1
  · rw [columns, List.flatMap_cons]
    exact Delimited.stops_cons _ ',' _ (by decide)

theorem behind_objects (found : List (ℕ × Task)) (rest : List Char) :
    (behind idLabel.mark ((found.flatMap fun row => ',' :: '\n' :: p.object row) ++ rest)).map
        (List.takeWhile Char.isDigit) =
      found.map (fun row => Nat.toDigits 10 row.1) ++
        (behind idLabel.mark rest).map (List.takeWhile Char.isDigit) := by
  induction found with
  | nil => rfl
  | cons row found ih =>
    obtain ⟨tail,hbehind,htail⟩ := p.behind_object row
      ((found.flatMap fun row => ',' :: '\n' :: p.object row) ++ rest)
    rw [List.flatMap_cons, List.append_assoc, List.cons_append, List.cons_append,
      idLabel.behind_skip ',' _ (by decide), idLabel.behind_skip '\n' _ (by decide), hbehind,
      List.map_cons, htail, List.map_cons, List.cons_append, ih]

theorem chomp_rows (row : ℕ × Task) (found : List (ℕ × Task)) :
    chomp (p.rows (row::found)) =
      '['::(p.object row ++ ((found.flatMap fun row => ',' :: '\n' :: p.object row) ++ [']'])) := by
  have hfront : p.rows (row::found) =
      (('['::(p.object row ++ (found.flatMap fun row => ',' :: '\n' :: p.object row))) ++ [']']) ++
        ['\n'] := by
    simp [Printer.rows]
  rw [hfront, chomp, List.rdropWhile_concat_pos _ _ _ (by decide),
    List.rdropWhile_concat_neg _ _ _ (by decide)]
  simp

/-- The id label stands once for each row, with the id behind it. -/
theorem behind_rows (found : List (ℕ × Task)) :
    (behind idLabel.mark (chomp (p.rows found))).map (List.takeWhile Char.isDigit) =
      found.map fun row => Nat.toDigits 10 row.1 := by
  cases found with
  | nil => rfl
  | cons row found =>
    obtain ⟨tail,hbehind,htail⟩ := p.behind_object row
      ((found.flatMap fun row => ',' :: '\n' :: p.object row) ++ [']'])
    have hend : behind idLabel.mark [']'] = [] := by decide
    rw [p.chomp_rows, idLabel.behind_skip '[' _ (by decide), hbehind, List.map_cons, htail,
      p.behind_objects, hend, List.map_nil, List.append_nil, List.map_cons]

/-- The ids found in a listing are those of its rows, in their order. -/
theorem idsIn_rows (found : List (ℕ × Task)) :
    idsIn (chomp (p.rows found)) = found.map fun row => Nat.toDigits 10 row.1 := by
  rw [idsIn, p.behind_rows, List.filter_eq_self]
  intro id hid
  obtain ⟨row,-,rfl⟩ := List.mem_map.mp hid
  simp [Nat.toDigits_ne_nil]

end Printer
end Emma.QueueListing

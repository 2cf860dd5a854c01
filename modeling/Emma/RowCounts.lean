import Emma.Library.LineSearch
import Emma.WatchTasks

/-!
# Rows counted without a parser

The watcher and the notice at the start of a session search the listing for the
label of the ids. One prints what stands behind it, the other how often it stands
there.
-/

set_option autoImplicit false

namespace Emma.RowCounts
open Emma.Tasks Emma.DevelopmentTools Emma.QueueScript Emma.QueueListing Emma.WatchTasks
open LineSearch QuotedText

/-- `ids_in`: the label with the digits behind it, and of that the digits. -/
def idsIn (listing : List Char) : List (List Char) :=
  search [] Char.isDigit (search idLabel.mark Char.isDigit (listing.splitOn '\n'))

/-- How many matches `ask_the_queue` counts. -/
def counted (listing : List Char) : ℕ :=
  (search idLabel.mark (fun _ => false) (listing.splitOn '\n')).length

theorem mark_without_digits : ∀ c ∈ idLabel.mark, c.isDigit = false := by
  have hall : idLabel.mark.all (fun c => !c.isDigit) = true := by decide
  intro c hc
  simpa using List.all_eq_true.mp hall c hc

theorem digits_of_match (digits : List Char) (h : ∀ c ∈ digits, c.isDigit = true) :
    hits [] Char.isDigit 0 (idLabel.mark ++ digits) = if digits = [] then [] else [digits] := by
  rw [hits_outside Char.isDigit idLabel.mark digits mark_without_digits]
  split
  · rename_i hnil
    rw [hnil]
    rfl
  · rename_i hsome
    exact hits_run Char.isDigit digits h hsome

theorem search_digits (runs : List (List Char)) (h : ∀ run ∈ runs, ∀ c ∈ run, c.isDigit = true) :
    search [] Char.isDigit (runs.map (idLabel.mark ++ ·)) = runs.filter (· ≠ []) := by
  induction runs with
  | nil => rfl
  | cons run runs ih =>
    have hrest := ih fun other hother => h other (List.mem_cons_of_mem run hother)
    rw [search] at hrest
    rw [search, List.map_cons, List.flatMap_cons, hrest,
      digits_of_match run (h run List.mem_cons_self)]
    by_cases hnil : run = []
    · simp [hnil]
    · simp [hnil]

/-- The two searches find what stands behind the label in the text as a whole. -/
theorem idsIn_eq (listing : List Char) : idsIn listing = QueueListing.idsIn listing := by
  have hfirst := search_label idLabel Char.isDigit '\n' listing (by decide) (by decide) (by decide)
  have hrun : ∀ run ∈ (behind idLabel.mark listing).map (List.takeWhile Char.isDigit),
      ∀ c ∈ run, c.isDigit = true := by
    intro run hrun c hc
    obtain ⟨tail,-,rfl⟩ := List.mem_map.mp hrun
    exact List.mem_takeWhile_imp hc
  rw [idsIn, hfirst, QueueListing.idsIn, ← search_digits _ hrun, List.map_map]
  rfl

theorem counted_eq (listing : List Char) :
    counted listing = (behind idLabel.mark listing).length := by
  rw [counted, search_label idLabel (fun _ => false) '\n' listing rfl rfl (by decide),
    List.length_map]

/-- Of any rows, whatever their texts say, the ids are found in their order and the
label is counted once for each; and of `list` these are the queued tasks. -/
theorem rows_are_counted (p : Printer) :
    (∀ found : List (ℕ × Task),
      idsIn (chomp (p.rows found)) = found.map (fun row => (toString row.1).toList) ∧
      counted (chomp (p.rows found)) = found.length) ∧
    ∀ (clock : Clock) (s : Stores), ∃ listing,
      p.output (run clock (overSsh "list") s).1 = some listing ∧
      idsIn listing = (queued s.tasks).map (fun row => (toString row.1).toList) ∧
      counted listing = (queued s.tasks).length := by
  have hrows : ∀ found : List (ℕ × Task),
      idsIn (chomp (p.rows found)) = found.map (fun row => (toString row.1).toList) ∧
      counted (chomp (p.rows found)) = found.length := by
    intro found
    have hbehind := congrArg List.length (p.behind_rows found)
    rw [List.length_map, List.length_map] at hbehind
    constructor
    · rw [idsIn_eq, p.idsIn_rows]
      simp only [Nat.toString_eq_repr, Nat.toList_repr]
    · rw [counted_eq, hbehind]
  exact ⟨hrows,fun clock s => ⟨_,(readQueue_eq p clock s).1,hrows (queued s.tasks)⟩⟩

end Emma.RowCounts

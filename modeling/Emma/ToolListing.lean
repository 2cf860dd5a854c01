import Emma.LockOut
import Mathlib.Data.List.Dedup

/-!
# What is listed and what is declared

The model is told about its tools twice: by the schemas that come with a request
and by the text of `list_tools`. The schemas leave out what is off, the text
marks it.
-/

set_option autoImplicit false

namespace Emma.ToolListing
open Emma.Python Emma.LanguageModel Emma.Orchestrator Emma.DevelopmentTools Emma.Facts
open Emma.ToolGate Emma.OwnTools Emma.LockOut Delimited

def mark (off : Bool) : List Char := if off then " (disattivato)".toList else []

/-- What cannot be taken for a mark. -/
def Solid (tail : List Char) : Prop := ∀ c ∈ tail.head?, c ≠ ' '

theorem mark_unique {off off' : Bool} {tail tail' : List Char} (htail : Solid tail)
    (htail' : Solid tail') (h : mark off ++ tail = mark off' ++ tail') :
    off = off' ∧ tail = tail' := by
  have hblank : ∀ tail : List Char, (mark true ++ tail).head? = some ' ' := fun _ => rfl
  cases off <;> cases off'
  · exact ⟨rfl,h⟩
  · have hhead : tail.head? = some ' ' := by
      rw [← hblank tail', ← h]
      rfl
    exact absurd rfl (htail _ hhead)
  · have hhead : tail'.head? = some ' ' := by
      rw [← hblank tail, h]
      rfl
    exact absurd rfl (htail' _ hhead)
  · exact ⟨rfl,List.append_cancel_left h⟩

section
variable {α : Type} (front back : α → List Char) (separator ending : List Char)

def marked (off : α → Bool) (entries : List α) : List Char :=
  separator.intercalate (entries.map fun a => front a ++ (mark (off a) ++ back a)) ++ ending

theorem marked_cons_cons (off : α → Bool) (a b : α) (entries : List α) :
    marked front back separator ending off (a::b::entries) = front a ++ (mark (off a) ++
      (back a ++ (separator ++ marked front back separator ending off (b::entries)))) := by
  simp [marked, List.intercalate_cons_cons]

theorem marks_read (hbetween : ∀ a tail, Solid (back a ++ (separator ++ tail)))
    (hlast : ∀ a, Solid (back a ++ ending)) (off off' : α → Bool) (entries : List α)
    (h : marked front back separator ending off entries =
      marked front back separator ending off' entries) : ∀ a ∈ entries, off a = off' a := by
  induction entries with
  | nil => simp
  | cons a entries ih =>
    cases entries with
    | nil =>
      simp only [marked, List.map_cons, List.map_nil, List.intercalate_singleton,
        List.append_assoc] at h
      obtain ⟨hsame,-⟩ := mark_unique (hlast a) (hlast a) (List.append_cancel_left h)
      simpa using hsame
    | cons b entries =>
      rw [marked_cons_cons, marked_cons_cons] at h
      obtain ⟨hsame,hrest⟩ := mark_unique (hbetween a _) (hbetween a _)
        (List.append_cancel_left h)
      have htail := ih (List.append_cancel_left (List.append_cancel_left hrest))
      intro c hc
      rcases List.mem_cons.mp hc with rfl | hc
      · exact hsame
      · exact htail c hc

end

def offAmong (tools : List (String × String)) (switchedOff : List String) : List String :=
  ((tools.map Prod.fst).dedup).filter fun name => name ∈ switchedOff

def isDetailed (arguments : Arguments) : Bool :=
  ((arguments.lookup "detailed").map fun value => truthy value.json).getD false

def opening (tools : List (String × String)) (switchedOff : List String) : String :=
  (if tools.length = 1 then "Ho 1 strumento"
    else "Ho " ++ toString tools.length ++ " strumenti") ++
  if offAmong tools switchedOff = [] then ""
    else ", di cui " ++ toString (offAmong tools switchedOff).length ++ " disattivati"

def isOff (tools : List (String × String)) (switchedOff : List String) (tool : String × String) :
    Bool :=
  tool.1 ∈ offAmong tools switchedOff

def shortEntries (tools : List (String × String)) (switchedOff : List String) : List Char :=
  marked (fun tool => tool.1.toList) (fun _ => []) [',', ' '] ['.'] (isOff tools switchedOff) tools

def longEntries (tools : List (String × String)) (switchedOff : List String) : List Char :=
  marked (fun tool => '-' :: ' ' :: tool.1.toList) (fun tool => ':' :: ' ' :: tool.2.toList)
    ['\n'] [] (isOff tools switchedOff) tools

theorem opening_solid (tools : List (String × String)) (switchedOff : List String) :
    ':' ∉ (opening tools switchedOff).toList := by
  have hdigits : ∀ n : ℕ, ':' ∉ Nat.toDigits 10 n := fun n h => by
    have := digits_run n ':' h
    revert this
    decide
  simp only [opening, String.toList_append, List.mem_append, not_or]
  constructor
  · split
    · decide
    · simp only [String.toList_append, List.mem_append, not_or, Nat.toString_eq_repr,
        Nat.toList_repr]
      exact ⟨⟨by decide,hdigits _⟩,by decide⟩
  · split
    · decide
    · simp only [String.toList_append, List.mem_append, not_or, Nat.toString_eq_repr,
        Nat.toList_repr]
      exact ⟨⟨by decide,hdigits _⟩,by decide⟩

theorem label_toList (tools : List (String × String)) (switchedOff : List String)
    (tool : String × String) :
    (ToolInventory.label (offAmong tools switchedOff) tool).toList =
      tool.1.toList ++ mark (isOff tools switchedOff tool) := by
  unfold ToolInventory.label isOff mark
  split
  · rename_i hoff
    simp [hoff]
  · rename_i hon
    simp [hon]

/-- The text of the listing: the opening up to a colon, and the entries. -/
theorem run_toList (tools : List (String × String)) (htools : tools ≠ [])
    (switchedOff : List String) (arguments : Arguments) :
    (ToolInventory.run tools switchedOff arguments).toList =
      (opening tools switchedOff).toList ++ ':' ::
        if isDetailed arguments then '\n' :: longEntries tools switchedOff
        else ' ' :: shortEntries tools switchedOff := by
  have hrun : ToolInventory.run tools switchedOff arguments =
      if isDetailed arguments then
        "\n".intercalate ((opening tools switchedOff ++ ":")::tools.map fun tool =>
          "- " ++ ToolInventory.label (offAmong tools switchedOff) tool ++ ": " ++ tool.2)
      else opening tools switchedOff ++ ": " ++
        ", ".intercalate (tools.map (ToolInventory.label (offAmong tools switchedOff))) ++ "." := by
    simp only [ToolInventory.run, if_neg htools]
    rfl
  rw [hrun]
  split
  · have hentries : (tools.map fun tool =>
        "- " ++ ToolInventory.label (offAmong tools switchedOff) tool ++ ": " ++ tool.2).map
          String.toList = tools.map fun tool => '-' :: ' ' :: tool.1.toList ++
            (mark (isOff tools switchedOff tool) ++ ':' :: ' ' :: tool.2.toList) := by
      rw [List.map_map]
      apply List.map_congr_left
      intro tool _
      simp [label_toList]
    have hnewline : "\n".toList = ['\n'] := rfl
    rw [String.toList_intercalate, List.map_cons, hentries, hnewline, longEntries, marked,
      List.append_nil]
    obtain ⟨tool,rest,rfl⟩ := List.exists_cons_of_ne_nil htools
    rw [List.map_cons, List.intercalate_cons_cons]
    simp
  · have hlabels : (tools.map (ToolInventory.label (offAmong tools switchedOff))).map
        String.toList = tools.map fun tool => tool.1.toList ++
          (mark (isOff tools switchedOff tool) ++ []) := by
      rw [List.map_map]
      apply List.map_congr_left
      intro tool _
      simp [label_toList]
    have hcomma : ", ".toList = [',', ' '] := rfl
    simp only [String.toList_append, String.toList_intercalate, hlabels, hcomma, shortEntries,
      marked]
    simp

/-- Two listings of the same tools read the same exactly when the same ones are off. -/
theorem run_eq_iff (tools : List (String × String)) (htools : tools ≠ [])
    (switchedOff switchedOff' : List String) (arguments : Arguments) :
    ToolInventory.run tools switchedOff arguments = ToolInventory.run tools switchedOff' arguments ↔
      ∀ tool ∈ tools, (tool.1 ∈ switchedOff ↔ tool.1 ∈ switchedOff') := by
  have hoff : ∀ off, ∀ tool ∈ tools, (isOff tools off tool = true ↔ tool.1 ∈ off) := by
    intro off tool htool
    have hname : tool.1 ∈ tools.map Prod.fst := List.mem_map_of_mem htool
    simp only [isOff, offAmong, List.mem_filter, List.mem_dedup, decide_eq_true_eq]
    exact and_iff_right hname
  constructor
  · intro h
    have htexts := congrArg String.toList h
    rw [run_toList tools htools, run_toList tools htools] at htexts
    obtain ⟨-,hentries⟩ := cut_unique (opening_solid tools switchedOff)
      (opening_solid tools switchedOff') htexts
    have hmarks : ∀ tool ∈ tools, isOff tools switchedOff tool = isOff tools switchedOff' tool := by
      cases hdetailed : isDetailed arguments with
      | true =>
        rw [hdetailed] at hentries
        apply marks_read _ _ _ _ _ _ _ _ tools (List.cons.inj hentries).2
        · intro tool tail c hc
          rw [← Option.some.inj hc]
          decide
        · intro tool c hc
          rw [← Option.some.inj hc]
          decide
      | false =>
        rw [hdetailed] at hentries
        apply marks_read _ _ _ _ _ _ _ _ tools (List.cons.inj hentries).2
        · intro tool tail c hc
          rw [← Option.some.inj hc]
          decide
        · intro tool c hc
          rw [← Option.some.inj hc]
          decide
    intro tool htool
    rw [← hoff switchedOff tool htool, ← hoff switchedOff' tool htool, hmarks tool htool]
  · intro h
    have hsame : offAmong tools switchedOff = offAmong tools switchedOff' := by
      apply List.filter_congr
      intro name hname
      obtain ⟨tool,htool,rfl⟩ := List.mem_map.mp (List.mem_dedup.mp hname)
      simp [h tool htool]
    unfold offAmong at hsame
    simp only [ToolInventory.run, hsame]

section
variable {ρ μ : Type}

theorem declared_names {ω : Type} (r : Router ω μ) (off : List String) :
    ((r.toolSchemas off).getD []).map ToolDeclaration.name =
      (r.tools.filter fun tool => tool.name ∉ off).map Tool.name := by
  unfold Router.toolSchemas
  split
  · rename_i hnone
    rw [hnone]
    rfl
  · rw [Option.getD_some, List.map_map]
    rfl

/-- Two gates leave the same schemas exactly when the same tools are off. -/
theorem toolSchemas_eq_iff {ω : Type} (r : Router ω μ) (off off' : List String) :
    r.toolSchemas off = r.toolSchemas off' ↔
      ∀ tool ∈ r.tools, (tool.name ∈ off ↔ tool.name ∈ off') := by
  have hdeclared : ∀ off, ∀ tool ∈ r.tools, (tool.name ∈ ((r.toolSchemas off).getD []).map
      ToolDeclaration.name ↔ tool.name ∉ off) := by
    intro off tool htool
    rw [declared_names]
    constructor
    · intro hmem
      obtain ⟨other,hother,hname⟩ := List.mem_map.mp hmem
      have hon := (List.mem_filter.mp hother).2
      rw [← hname]
      simpa using hon
    · intro hon
      exact List.mem_map_of_mem (List.mem_filter.mpr ⟨htool,by simpa using hon⟩)
  constructor
  · intro h tool htool
    rw [← not_iff_not, ← hdeclared off tool htool, h, hdeclared off' tool htool]
  · intro h
    have hoffered : (r.tools.filter fun tool => tool.name ∉ off) =
        r.tools.filter fun tool => tool.name ∉ off' := by
      apply List.filter_congr
      intro tool htool
      simp [h tool htool]
    rw [Router.toolSchemas, Router.toolSchemas, hoffered]

/-- `list_tools`, as `create_app` registers it. -/
def listTools : Tool (World (FactTable × ρ)) :=
  reading ToolInventory.name ToolInventory.description ToolInventory.inputSchema
    fun arguments w => ToolInventory.run inventory w.off arguments

theorem listTools_registered (a : App ρ μ) (clock : Clock) :
    (App.router a clock).toolByName ToolInventory.name = some listTools := rfl

/-- The text that `list_tools` gives in a state tells exactly what a request made in
that state declares. -/
theorem listing_tells_the_declared (a : App ρ μ) (clock : Clock) (arguments : Arguments)
    (w w' : World (FactTable × ρ)) :
    (App.router a clock).toolByName ToolInventory.name = some listTools ∧
      ((listTools.run arguments w).1 = (listTools.run arguments w').1 ↔
        (App.router a clock).toolSchemas ((App.router a clock).switchedOff w).1 =
          (App.router a clock).toolSchemas ((App.router a clock).switchedOff w').1) := by
  refine ⟨listTools_registered a clock,?_⟩
  have hgate : ∀ w, ((App.router a clock).switchedOff w).1 = w.off := fun _ => rfl
  have hrun : ∀ w : World (FactTable × ρ), (listTools.run arguments w).1 =
      .ok (ToolInventory.run inventory w.off arguments) := fun _ => rfl
  rw [hgate, hgate, hrun, hrun, Except.ok.injEq, run_eq_iff inventory (by decide),
    toolSchemas_eq_iff]
  have hnames := app_toolNames a clock
  constructor
  · intro h tool htool
    have hname : tool.name ∈ names := hnames ▸ List.mem_map_of_mem htool
    obtain ⟨entry,hentry,hsame⟩ := List.mem_map.mp hname
    rw [← hsame]
    exact h entry hentry
  · intro h entry hentry
    have hname : entry.1 ∈ (App.router a clock).tools.map Tool.name :=
      hnames ▸ List.mem_map_of_mem hentry
    obtain ⟨tool,htool,hsame⟩ := List.mem_map.mp hname
    rw [← hsame]
    exact h tool htool

end
end Emma.ToolListing

import Mathlib.Data.List.Infix
import Mathlib.Logic.Function.Basic

/-!
# A tree of directories over several devices

A path is the list of its names, the deepest first, so that what is above it is its
tail. Whatever is there stands in a directory. A link is what it leads to, but for the
device of its name. Where it leads nowhere, or a name is too long, none can be made.
New directories are on the device of the one they are made in.
-/

set_option autoImplicit false

namespace DirectoryTree

structure Entry where
  directory : Bool
  device : ℕ
  named : ℕ
  writable : Bool
  ours : Bool
  deriving DecidableEq, Repr

@[ext] structure FileTree (α : Type*) where
  entry : List α → Option Entry
  possible : List α → Bool
  root : ∃ e, entry [] = some e ∧ e.directory = true
  within : ∀ name path e, entry (name::path) = some e →
    ∃ parent, entry path = some parent ∧ parent.directory = true

namespace FileTree

variable {α : Type*}

def nearest (t : FileTree α) : List α → List α
  | [] => []
  | name::path => if (t.entry (name::path)).isSome then name::path else nearest t path

theorem nearest_there (t : FileTree α) (path : List α) :
    ∃ e, t.entry (t.nearest path) = some e := by
  induction path with
  | nil =>
    obtain ⟨e,he,-⟩ := t.root
    exact ⟨e,he⟩
  | cons name path ih =>
    rw [nearest]
    split
    · rename_i hthere
      exact Option.isSome_iff_exists.mp hthere
    · exact ih

theorem nearest_self (t : FileTree α) (path : List α) (e : Entry) (h : t.entry path = some e) :
    t.nearest path = path := by
  cases path with
  | nil => rfl
  | cons name path => rw [nearest, if_pos (by rw [h]; rfl)]

theorem nearest_missing (t : FileTree α) (name : α) (path : List α)
    (h : t.entry (name::path) = none) : t.nearest (name::path) = t.nearest path := by
  rw [nearest, if_neg (by simp [h])]

theorem above_directory (t : FileTree α) (name : α) (path : List α) (e : Entry)
    (h : t.entry (name::path) = some e) (above : List α) (habove : above <:+ path) :
    ∃ parent, t.entry above = some parent ∧ parent.directory = true := by
  induction path generalizing name e with
  | nil =>
    rw [List.suffix_nil.mp habove]
    exact t.root
  | cons next path ih =>
    obtain ⟨parent,hparent,hdirectory⟩ := t.within name (next::path) e h
    rcases List.suffix_cons_iff.mp habove with rfl | hhigher
    · exact ⟨parent,hparent,hdirectory⟩
    · exact ih next parent hparent hhigher

theorem above_there (t : FileTree α) (path : List α) (e : Entry) (h : t.entry path = some e)
    (above : List α) (habove : above <:+ path) : ∃ e', t.entry above = some e' := by
  cases path with
  | nil =>
    rw [List.suffix_nil.mp habove]
    exact ⟨e,h⟩
  | cons name path =>
    rcases List.suffix_cons_iff.mp habove with rfl | hhigher
    · exact ⟨e,h⟩
    · obtain ⟨parent,hparent,-⟩ := t.above_directory name path e h above hhigher
      exact ⟨parent,hparent⟩

theorem nearest_suffix (t : FileTree α) (path part : List α) (hpart : part <:+ path)
    (hmissing : t.entry part = none) : t.nearest path = t.nearest part := by
  induction path with
  | nil => rw [List.suffix_nil.mp hpart]
  | cons name path ih =>
    rcases List.suffix_cons_iff.mp hpart with rfl | hhigher
    · rfl
    · rw [← ih hhigher, t.nearest_missing]
      cases hthere : t.entry (name::path) with
      | none => rfl
      | some e =>
        obtain ⟨e',he'⟩ := t.above_there _ e hthere part hpart
        rw [hmissing] at he'
        cases he'

def Makeable (t : FileTree α) (path : List α) : Prop :=
  ∀ part, part <:+ path → t.entry part = none → t.possible part = true

theorem makeable_there (t : FileTree α) (path : List α) (e : Entry) (h : t.entry path = some e) :
    t.Makeable path := by
  intro part hpart hmissing
  obtain ⟨e',he'⟩ := t.above_there path e h part hpart
  rw [hmissing] at he'
  cases he'

theorem makeable_cons (t : FileTree α) (name : α) (path : List α)
    (h : t.entry (name::path) = none) :
    t.Makeable (name::path) ↔ t.Makeable path ∧ t.possible (name::path) = true := by
  constructor
  · intro hmakeable
    exact ⟨fun part hpart => hmakeable part (hpart.trans (List.suffix_cons name path)),
      hmakeable _ List.suffix_rfl h⟩
  · rintro ⟨habove,hlast⟩ part hpart
    rcases List.suffix_cons_iff.mp hpart with rfl | hhigher
    · exact fun _ => hlast
    · exact habove part hhigher

def Grounded (t : FileTree α) (path : List α) (ground : Entry) : Prop :=
  ground.directory = true ∧ (t.entry path = none → ground.writable = true ∧ t.Makeable path)

variable [DecidableEq α]

def set (t : FileTree α) (path : List α) (old new : Entry) (hold : t.entry path = some old)
    (hnew : old.directory = true → new.directory = true) : FileTree α where
  entry := Function.update t.entry path (some new)
  possible := t.possible
  root := by
    obtain ⟨e,he,hdirectory⟩ := t.root
    by_cases hroot : [] = path
    · rw [← hroot, he] at hold
      rw [← hroot, Function.update_self]
      exact ⟨new,rfl,hnew (Option.some.inj hold ▸ hdirectory)⟩
    · rw [Function.update_of_ne hroot]
      exact ⟨e,he,hdirectory⟩
  within := by
    intro name above e he
    have hthere : ∃ before, t.entry (name::above) = some before := by
      by_cases hpath : name::above = path
      · exact ⟨old,hpath ▸ hold⟩
      · rw [Function.update_of_ne hpath] at he
        exact ⟨e,he⟩
    obtain ⟨before,hbefore⟩ := hthere
    obtain ⟨parent,hparent,hdirectory⟩ := t.within name above before hbefore
    by_cases habove : above = path
    · rw [habove, hold] at hparent
      rw [habove, Function.update_self]
      exact ⟨new,rfl,hnew (Option.some.inj hparent ▸ hdirectory)⟩
    · rw [Function.update_of_ne habove]
      exact ⟨parent,hparent,hdirectory⟩

def allow (t : FileTree α) (path : List α) : FileTree α :=
  match h : t.entry path with
  | some e => t.set path e { e with writable := e.writable || e.ours } h id
  | none => t

theorem entry_allow (t : FileTree α) (path other : List α) :
    (t.allow path).entry other = if other = path
      then (t.entry other).map fun e => { e with writable := e.writable || e.ours }
      else t.entry other := by
  unfold allow
  split
  · rename_i e he
    by_cases hother : other = path
    · have hmap : (t.entry path).map (fun e => { e with writable := e.writable || e.ours }) =
          some { e with writable := e.writable || e.ours } := by
        rw [he]
        rfl
      rw [hother, if_pos rfl, hmap]
      exact Function.update_self ..
    · rw [if_neg hother]
      exact Function.update_of_ne hother ..
  · rename_i hnone
    by_cases hother : other = path
    · rw [hother, if_pos rfl, hnone]
      rfl
    · rw [if_neg hother]

theorem allow_idle (t : FileTree α) (path : List α) (e : Entry) (h : t.entry path = some e)
    (hidle : (e.writable || e.ours) = e.writable) : t.allow path = t := by
  have hpossible : (t.allow path).possible = t.possible := by
    unfold allow
    split <;> rfl
  ext1
  · funext other
    rw [entry_allow]
    split
    · rename_i hother
      rw [hother, h, Option.map_some, hidle]
    · rfl
  · exact hpossible

def newDirectory (device : ℕ) : Entry := ⟨true,device,device,true,true⟩

def grow (t : FileTree α) (name : α) (path : List α) (parent : Entry)
    (hparent : t.entry path = some parent) (hdirectory : parent.directory = true) : FileTree α where
  entry := Function.update t.entry (name::path) (some (newDirectory parent.device))
  possible := t.possible
  root := by
    rw [Function.update_of_ne (by simp)]
    exact t.root
  within := by
    intro other above e he
    by_cases hnew : above = name::path
    · rw [hnew, Function.update_self]
      exact ⟨_,rfl,rfl⟩
    rw [Function.update_of_ne hnew]
    by_cases hmade : other::above = name::path
    · obtain ⟨-,rfl⟩ := List.cons.inj hmade
      exact ⟨parent,hparent,hdirectory⟩
    · rw [Function.update_of_ne hmade] at he
      exact t.within other above e he

/-- A directory cannot be made where the caller may not write, or such a name cannot be. -/
def makeDirectory (t : FileTree α) (name : α) (path : List α) : Option (FileTree α) :=
  match hparent : t.entry path with
  | some parent =>
    if h : parent.directory = true ∧ parent.writable = true ∧ t.possible (name::path) = true then
      some (t.grow name path parent hparent h.1)
    else none
  | none => none

theorem makeDirectory_spec (t : FileTree α) (name : α) (path : List α) (parent : Entry)
    (hparent : t.entry path = some parent) (hdirectory : parent.directory = true) :
    (t.makeDirectory name path = none ↔
      ¬(parent.writable = true ∧ t.possible (name::path) = true)) ∧
    ∀ t', t.makeDirectory name path = some t' → t'.possible = t.possible ∧
      ∀ other, t'.entry other =
        if other = name::path then some (newDirectory parent.device) else t.entry other := by
  unfold makeDirectory
  split
  · rename_i found hfound
    obtain rfl : found = parent := Option.some.inj (hfound.symm.trans hparent)
    by_cases hmay : found.writable = true ∧ t.possible (name::path) = true
    · rw [dif_pos ⟨hdirectory,hmay⟩]
      constructor
      · simp [hmay]
      · intro t' ht'
        obtain rfl := Option.some.inj ht'
        exact ⟨rfl,fun other => Function.update_apply ..⟩
    · rw [dif_neg fun h => hmay h.2]
      exact ⟨by simp [hmay],fun t' ht' => by cases ht'⟩
  · rename_i hnone
    rw [hnone] at hparent
    cases hparent

def makeDirectories (t : FileTree α) : List α → Bool × FileTree α
  | [] => (true,t)
  | name::path => match t.entry (name::path) with
    | some e => (e.directory,t)
    | none => match makeDirectories t path with
      | (false,t) => (false,t)
      | (true,t) => match t.makeDirectory name path with
        | some t => (true,t)
        | none => (false,t)

structure Grown (t : FileTree α) (path : List α) (device : ℕ) (t' : FileTree α) : Prop where
  possible : t'.possible = t.possible
  entry : ∀ other, t'.entry other = (t.entry other).or
    (if other <:+ path then some (newDirectory device) else none)

theorem grown_there (t : FileTree α) (path : List α) (e : Entry) (device : ℕ)
    (h : t.entry path = some e) : t.Grown path device t where
  possible := rfl
  entry := by
    intro other
    by_cases hsuffix : other <:+ path
    · obtain ⟨e',he'⟩ := t.above_there path e h other hsuffix
      rw [he', Option.some_or]
    · rw [if_neg hsuffix, Option.or_none]

/-- All of them are made on the device of what was there, as if at once, or not all. -/
theorem makeDirectories_spec (t : FileTree α) (path : List α) (ground : Entry)
    (hground : t.entry (t.nearest path) = some ground) :
    ((t.makeDirectories path).1 = true ↔ t.Grounded path ground) ∧
      ((t.makeDirectories path).1 = true →
        t.Grown path ground.device (t.makeDirectories path).2) := by
  induction path with
  | nil =>
    obtain ⟨e,he,hdirectory⟩ := t.root
    obtain rfl : e = ground := Option.some.inj (he.symm.trans hground)
    rw [makeDirectories]
    refine ⟨iff_of_true rfl ⟨hdirectory,?_⟩,fun _ => t.grown_there [] e e.device he⟩
    rw [he]
    exact fun h => by cases h
  | cons name path ih =>
    cases hthere : t.entry (name::path) with
    | some e =>
      rw [t.nearest_self _ e hthere, hthere] at hground
      obtain rfl := Option.some.inj hground
      rw [makeDirectories, hthere]
      exact ⟨by simp [Grounded, hthere],fun _ => t.grown_there _ e e.device hthere⟩
    | none =>
      rw [t.nearest_missing name path hthere] at hground
      obtain ⟨hmakes,hgrown⟩ := ih hground
      rw [makeDirectories, hthere]
      dsimp only
      rcases hrest : t.makeDirectories path with ⟨_ | _,t₁⟩
      · dsimp only
        rw [hrest] at hmakes
        refine ⟨⟨nofun,?_⟩,nofun⟩
        rintro ⟨hdirectory,hmissing⟩
        obtain ⟨hwritable,hmakeable⟩ := hmissing hthere
        exact hmakes.mpr ⟨hdirectory,fun _ =>
          ⟨hwritable,((t.makeable_cons name path hthere).mp hmakeable).1⟩⟩
      · rw [hrest] at hmakes hgrown
        obtain ⟨hdirectory,hmissing⟩ := hmakes.mp rfl
        obtain ⟨hpossible,hmade⟩ := hgrown rfl
        dsimp only at hpossible hmade ⊢
        -- what the last directory is made in, whether it was there or not
        have hparent : ∃ parent, t₁.entry path = some parent ∧ parent.directory = true ∧
            parent.device = ground.device ∧ parent.writable = ground.writable ∧
              t.Makeable path := by
          rw [hmade path, if_pos List.suffix_rfl]
          cases hpath : t.entry path with
          | some e =>
            rw [t.nearest_self path e hpath, hpath] at hground
            obtain rfl := Option.some.inj hground
            exact ⟨e,rfl,hdirectory,rfl,rfl,t.makeable_there path e hpath⟩
          | none =>
            obtain ⟨hwritable,hmakeable⟩ := hmissing hpath
            exact ⟨_,rfl,rfl,rfl,hwritable.symm,hmakeable⟩
        obtain ⟨parent,hparent,hinside,hdevice,hwritable,hmakeable⟩ := hparent
        obtain ⟨hnone,hsome⟩ := t₁.makeDirectory_spec name path parent hparent hinside
        rw [hpossible, hwritable] at hnone
        have hgrounded : t.Grounded (name::path) ground ↔
            ground.writable = true ∧ t.possible (name::path) = true := by
          rw [Grounded, hthere, t.makeable_cons name path hthere]
          simp [hdirectory, hmakeable]
        rw [hgrounded]
        cases hlast : t₁.makeDirectory name path with
        | none => exact ⟨iff_of_false (by simp) (hnone.mp hlast),nofun⟩
        | some t₂ =>
          obtain ⟨hpossible₂,hentry⟩ := hsome t₂ hlast
          refine ⟨iff_of_true rfl ?_,fun _ => ⟨hpossible₂.trans hpossible,fun other => ?_⟩⟩
          · by_contra hnot
            rw [hnone.mpr hnot] at hlast
            cases hlast
          · dsimp only
            rw [hentry other, hmade other, hdevice]
            by_cases hother : other = name::path
            · rw [if_pos hother, hother, hthere, if_pos List.suffix_rfl]
              rfl
            · have hsuffix : other <:+ name::path ↔ other <:+ path := by
                rw [List.suffix_cons_iff]
                exact ⟨fun h => h.resolve_left hother,.inr⟩
              rw [if_neg hother]
              simp only [hsuffix]

/-- Where not all of them could be made, it is as if only those above were wanted. -/
theorem makeDirectories_part (t : FileTree α) (path : List α) :
    ∃ part, part <:+ path ∧ t.makeDirectories part = (true,(t.makeDirectories path).2) := by
  induction path with
  | nil => exact ⟨[],List.suffix_rfl,rfl⟩
  | cons name path ih =>
    cases hthere : t.entry (name::path) with
    | some e =>
      rw [makeDirectories, hthere]
      exact ⟨[],List.nil_suffix,rfl⟩
    | none =>
      obtain ⟨part,hpart,hsame⟩ := ih
      rcases hrest : t.makeDirectories path with ⟨_ | _,t₁⟩
      · have hall : t.makeDirectories (name::path) = (false,t₁) := by
          rw [makeDirectories, hthere, hrest]
        rw [hrest] at hsame
        rw [hall]
        exact ⟨part,hpart.trans (List.suffix_cons name path),hsame⟩
      · cases hlast : t₁.makeDirectory name path with
        | none =>
          have hall : t.makeDirectories (name::path) = (false,t₁) := by
            rw [makeDirectories, hthere, hrest]
            dsimp only
            rw [hlast]
          rw [hall]
          exact ⟨path,List.suffix_cons name path,hrest⟩
        | some t₂ =>
          have hall : t.makeDirectories (name::path) = (true,t₂) := by
            rw [makeDirectories, hthere, hrest]
            dsimp only
            rw [hlast]
          exact ⟨name::path,List.suffix_rfl,by rw [hall]⟩

/-- The new directories are as good a ground as what they were made on. -/
theorem Grown.ground {t t' : FileTree α} {made : List α} {base : Entry}
    (hgrown : t.Grown made base.device t') (hgrounded : t.Grounded made base)
    (hbase : t.entry (t.nearest made) = some base) (path : List α) :
    ∃ g g', t.entry (t.nearest path) = some g ∧ t'.entry (t'.nearest path) = some g' ∧
      g'.directory = g.directory ∧ g'.writable = g.writable ∧ g'.device = g.device := by
  induction path with
  | nil =>
    obtain ⟨e,he,-⟩ := t.root
    refine ⟨e,e,he,?_,rfl,rfl,rfl⟩
    rw [nearest, hgrown.entry, he, Option.some_or]
  | cons name path ih =>
    cases hthere : t.entry (name::path) with
    | some e =>
      have hthere' : t'.entry (name::path) = some e := by
        rw [hgrown.entry, hthere, Option.some_or]
      rw [t.nearest_self _ e hthere, t'.nearest_self _ e hthere']
      exact ⟨e,e,hthere,hthere',rfl,rfl,rfl⟩
    | none =>
      have hnew := hgrown.entry (name::path)
      rw [hthere, Option.none_or] at hnew
      by_cases hsuffix : name::path <:+ made
      · rw [if_pos hsuffix] at hnew
        have hmissing : t.entry made = none := by
          cases hmade : t.entry made with
          | none => rfl
          | some e =>
            obtain ⟨e',he'⟩ := t.above_there made e hmade _ hsuffix
            rw [hthere] at he'
            cases he'
        rw [← t.nearest_suffix made _ hsuffix hthere, t'.nearest_self _ _ hnew]
        exact ⟨base,_,hbase,hnew,hgrounded.1.symm,(hgrounded.2 hmissing).1.symm,rfl⟩
      · rw [if_neg hsuffix] at hnew
        rw [t.nearest_missing _ _ hthere, t'.nearest_missing _ _ hnew]
        exact ih

theorem Grown.makeable {t t' : FileTree α} {made : List α} {base : Entry}
    (hgrown : t.Grown made base.device t') (hgrounded : t.Grounded made base) (path : List α) :
    t'.Makeable path ↔ t.Makeable path := by
  constructor
  · intro h part hpart hmissing
    by_cases hsuffix : part <:+ made
    · cases hmade : t.entry made with
      | none => exact (hgrounded.2 hmade).2 part hsuffix hmissing
      | some e => exact t.makeable_there made e hmade part hsuffix hmissing
    · rw [← hgrown.possible]
      refine h part hpart ?_
      rw [hgrown.entry, hmissing, if_neg hsuffix, Option.or_none]
  · intro h part hpart hmissing
    rw [hgrown.possible]
    rw [hgrown.entry, Option.or_eq_none_iff] at hmissing
    exact h part hpart hmissing.1

end FileTree
end DirectoryTree

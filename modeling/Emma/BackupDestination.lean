import Emma.Library.DirectoryTree

/-!
# Where the archive goes

The default place is used only where it is a disk of its own, a chosen one as it is;
where that cannot be written to there is a place on the system disk. A dry run asks
the same questions and changes nothing. Paths are absolute, and what is made under one
name is not looked for under another.
-/

set_option autoImplicit false

namespace Emma.BackupDestination
open DirectoryTree

abbrev Path := List String

def defaultBackupDir : Path := ["emma","backup","mnt"]

def fallbackBackupDir : Path := ["emma","backups","var"]

inductive Location where
  | separateDisk
  | systemDiskFallback
  | systemDiskAsConfigured
  deriving DecidableEq, Repr

def device (t : FileTree String) (path : Path) : Option ℕ := (t.entry path).map Entry.device

/-- `stat -c %d`, which does not follow a link. -/
def named (t : FileTree String) (path : Path) : Option ℕ := (t.entry path).map Entry.named

def onItsOwnDisk (t : FileTree String) (path : Path) : Bool :=
  named t (t.nearest path) ≠ named t []

def isDirectory (t : FileTree String) (path : Path) : Bool := (t.entry path).any Entry.directory

def isWritable (t : FileTree String) (path : Path) : Bool := (t.entry path).any Entry.writable

/-- `mkdir` and `chmod` come before the test, except in a dry run. -/
def usable (dryRun : Bool) (path : Path) (t : FileTree String) : Bool × FileTree String :=
  if dryRun then
    (if isDirectory t path && isWritable t path then true
      else (t.entry path).isNone && isWritable t (t.nearest path),t)
  else match t.makeDirectories path with
    | (false,t) => (false,t)
    | (true,t) => (isWritable (t.allow path) path,t.allow path)

/-- `BACKUP_DIR` and `FELL_BACK`, for a destination that was chosen or not. -/
def settled (dryRun : Bool) (chosen : Option Path) (t : FileTree String) :
    (Path × Bool) × FileTree String :=
  let backupDir := chosen.getD defaultBackupDir
  if chosen = none ∧ onItsOwnDisk t backupDir = false then ((fallbackBackupDir,true),t)
  else match usable dryRun backupDir t with
    | (true,t) => ((backupDir,false),t)
    | (false,t) => ((fallbackBackupDir,true),t)

def label (apart fellBack : Bool) : Location :=
  if apart then .separateDisk
  else if fellBack then .systemDiskFallback
  else .systemDiskAsConfigured

def landed (dryRun : Bool) (backupDir : Path) (fellBack : Bool) (t : FileTree String) :
    Option (Path × Location) × FileTree String :=
  match usable dryRun backupDir t with
  | (true,t) => (some (backupDir,label (onItsOwnDisk t backupDir) fellBack),t)
  | (false,t) => (none,t)

def destination (dryRun : Bool) (chosen : Option Path) (t : FileTree String) :
    Option (Path × Location) × FileTree String :=
  match settled dryRun chosen t with
  | ((backupDir,fellBack),t) => landed dryRun backupDir fellBack t

/-! What the two kinds of test come to. -/

section
variable (t : FileTree String) (path : Path)

/-- A directory that can be written to, if need be after its mode was changed, or one
that can be made. -/
def Writes : Prop :=
  (∃ e, t.entry path = some e ∧ e.directory = true ∧ (e.writable = true ∨ e.ours = true)) ∨
    t.entry path = none ∧ isDirectory t (t.nearest path) = true ∧
      isWritable t (t.nearest path) = true ∧ t.Makeable path

def SeemsWritable : Prop :=
  (∃ e, t.entry path = some e ∧ e.directory = true ∧ e.writable = true) ∨
    t.entry path = none ∧ isWritable t (t.nearest path) = true

def nameDevice : Option ℕ :=
  if (t.entry path).isSome then named t path else device t (t.nearest path)

def apart : Bool := nameDevice t path ≠ named t []

/-- A directory of one's own that is closed to oneself, or a place below something
writable that is no directory, or where a name cannot be made, or that is a link from
the one disk to another. -/
def Deceptive : Prop :=
  (∃ e, t.entry path = some e ∧ e.directory = true ∧ e.writable = false ∧ e.ours = true) ∨
    t.entry path = none ∧ isWritable t (t.nearest path) = true ∧
      (isDirectory t (t.nearest path) = false ∨ ¬t.Makeable path ∨
        onItsOwnDisk t path ≠ apart t path)

theorem apart_there (e : Entry) (h : t.entry path = some e) :
    onItsOwnDisk t path = apart t path := by
  rw [onItsOwnDisk, apart, nameDevice, t.nearest_self path e h, h]
  rfl

theorem agrees_iff_not_deceptive : (SeemsWritable t path ↔ Writes t path) ∧
    (Writes t path → onItsOwnDisk t path = apart t path) ↔ ¬Deceptive t path := by
  cases hthere : t.entry path with
  | none =>
    unfold SeemsWritable Writes Deceptive
    rw [hthere]
    cases isWritable t (t.nearest path) <;> cases isDirectory t (t.nearest path) <;>
      by_cases hmakeable : t.Makeable path <;> simp [hmakeable]
  | some e =>
    have hsame := apart_there t path e hthere
    unfold SeemsWritable Writes Deceptive
    rw [hthere]
    cases hd : e.directory <;> cases hw : e.writable <;> cases ho : e.ours <;>
      simp [hd, hw, ho, hsame]

theorem usable_dry : ((usable true path t).1 = true ↔ SeemsWritable t path) ∧
    (usable true path t).2 = t := by
  constructor
  · unfold usable SeemsWritable isDirectory
    cases hthere : t.entry path with
    | none => simp [isWritable, hthere]
    | some e => simp [isWritable, hthere]
  · rfl

structure Prepared (tried : Path) (t' : FileTree String) : Prop where
  opened : ∃ e, t'.entry path = some e ∧ e.directory = true ∧ e.writable = true
  disk : device t' path = device t (t.nearest path)
  name : named t' path = nameDevice t path
  stays : ∀ other e, t.entry other = some e →
    t'.entry other = some (if other = path then { e with writable := true } else e)
  made : ∀ other e, t.entry other = none → t'.entry other = some e →
    e.directory = true ∧ (other <:+ path ∨ other <:+ tried)

def Left (t' : FileTree String) : Prop :=
  ∃ part, part <:+ path ∧ t.makeDirectories part = (true,t')

theorem usable_real :
    ((usable false path t).1 = true ↔ Writes t path) ∧
      (¬Writes t path → Left t path (usable false path t).2) ∧
      (Writes t path → Prepared t path path (usable false path t).2) := by
  obtain ⟨ground,hground⟩ := t.nearest_there path
  obtain ⟨hmakes,hgrown⟩ := t.makeDirectories_spec path ground hground
  have hdirectory : isDirectory t (t.nearest path) = ground.directory := by
    rw [isDirectory, hground, Option.any_some]
  have hwritable : isWritable t (t.nearest path) = ground.writable := by
    rw [isWritable, hground, Option.any_some]
  rcases hmake : t.makeDirectories path with ⟨_ | _,t₁⟩
  · have hrun : usable false path t = (false,t₁) := by simp [usable, hmake]
    have hwrites : ¬Writes t path := by
      intro hwrites
      have hgrounded : t.Grounded path ground := by
        rcases hwrites with ⟨e,he,hinside,-⟩ | ⟨-,hinside,hopen,hmakeable⟩
        · rw [t.nearest_self path e he, he] at hground
          obtain rfl := Option.some.inj hground
          exact ⟨hinside,fun hmissing => by simp [he] at hmissing⟩
        · exact ⟨hdirectory ▸ hinside,fun _ => ⟨hwritable ▸ hopen,hmakeable⟩⟩
      rw [hmake] at hmakes
      cases hmakes.mpr hgrounded
    obtain ⟨part,hpart,hsame⟩ := t.makeDirectories_part path
    rw [hmake] at hsame
    rw [hrun]
    exact ⟨iff_of_false (by simp) hwrites,fun _ => ⟨part,hpart,hsame⟩,
      fun h => absurd h hwrites⟩
  · have hrun : usable false path t = (isWritable (t₁.allow path) path,t₁.allow path) := by
      simp [usable, hmake]
    rw [hmake] at hmakes hgrown
    obtain ⟨hinside,hmissing⟩ := hmakes.mp rfl
    have hmade₁ := (hgrown rfl).entry
    dsimp only at hmade₁
    have hlast : ∃ e, t₁.entry path = some e ∧ e.directory = true ∧ e.device = ground.device ∧
        some e.named = nameDevice t path ∧
        ((e.writable || e.ours) = true ↔ Writes t path) := by
      rw [hmade₁ path, if_pos List.suffix_rfl, nameDevice]
      cases hpath : t.entry path with
      | some e =>
        rw [t.nearest_self path e hpath, hpath] at hground
        obtain rfl := Option.some.inj hground
        refine ⟨e,rfl,hinside,rfl,?_,?_⟩
        · simp [named, hpath]
        · simp [Writes, hpath, hinside]
      | none =>
        obtain ⟨hopen,hmakeable⟩ := hmissing hpath
        have hwrites : Writes t path :=
          .inr ⟨hpath,by rw [hdirectory, hinside],by rw [hwritable, hopen],hmakeable⟩
        refine ⟨_,rfl,rfl,rfl,?_,by simp [FileTree.newDirectory, hwrites]⟩
        simp [FileTree.newDirectory, device, hground]
    obtain ⟨e,he,hdir,hdevice,hname,hopened⟩ := hlast
    have hallowed := t₁.entry_allow path
    have hself : (t₁.allow path).entry path =
        some { e with writable := e.writable || e.ours } := by
      rw [hallowed, if_pos rfl, he, Option.map_some]
    rw [hrun]
    refine ⟨?_,?_,?_⟩
    · rw [← hopened]
      simp [isWritable, hself]
    · intro hwrites
      have hidle : (e.writable || e.ours) = e.writable := by
        have hclosed : (e.writable || e.ours) = false := by
          simpa using fun h => hwrites (hopened.mp h)
        rw [hclosed]
        simpa using (Bool.or_eq_false_iff.mp hclosed).1.symm
      rw [t₁.allow_idle path e he hidle]
      exact ⟨path,List.suffix_rfl,hmake⟩
    · intro hwrites
      constructor
      · exact ⟨_,hself,hdir,hopened.mpr hwrites⟩
      · rw [device, device, hself, hground]
        simp [hdevice]
      · rw [named, hself, ← hname]
        rfl
      · intro other old hold
        have hkept : t₁.entry other = some old := by
          rw [hmade₁ other, hold]
          rfl
        rw [hallowed, hkept]
        split
        · rename_i hother
          rw [hother, he] at hkept
          obtain rfl := Option.some.inj hkept
          rw [Option.map_some, hopened.mpr hwrites]
        · rfl
      · intro other new hnew hthere
        by_cases hother : other = path
        · rw [hother, hself] at hthere
          obtain rfl := Option.some.inj hthere
          exact ⟨hdir,.inl (hother ▸ List.suffix_rfl)⟩
        · rw [hallowed, if_neg hother, hmade₁ other, hnew, Option.none_or] at hthere
          split at hthere
          · rename_i hsuffix
            obtain rfl := Option.some.inj hthere
            exact ⟨rfl,.inl hsuffix⟩
          · cases hthere

end

/-! What is left changes no answer. -/

namespace Left
variable {t t₁ t' : FileTree String} {tried path : Path}

theorem refl (t : FileTree String) (tried : Path) : Left t tried t :=
  ⟨[],List.nil_suffix,rfl⟩

theorem grown (h : Left t tried t₁) : ∃ part base, part <:+ tried ∧
    t.Grown part base.device t₁ ∧ t.Grounded part base ∧
      t.entry (t.nearest part) = some base := by
  obtain ⟨part,hpart,hmake⟩ := h
  obtain ⟨base,hbase⟩ := t.nearest_there part
  obtain ⟨hmakes,hgrown⟩ := t.makeDirectories_spec part base hbase
  rw [hmake] at hmakes hgrown
  exact ⟨part,base,hpart,hgrown rfl,hmakes.mp rfl,hbase⟩

theorem stays (h : Left t tried t₁) (other : Path) (e : Entry) (he : t.entry other = some e) :
    t₁.entry other = some e := by
  obtain ⟨part,base,-,hgrown,-⟩ := h.grown
  rw [hgrown.entry, he, Option.some_or]

theorem made (h : Left t tried t₁) (other : Path) (e : Entry) (hnew : t.entry other = none)
    (he : t₁.entry other = some e) :
    e.directory = true ∧ e.named = e.device ∧ e.writable = true ∧ other <:+ tried := by
  obtain ⟨part,base,hpart,hgrown,-⟩ := h.grown
  rw [hgrown.entry, hnew, Option.none_or] at he
  split at he
  · rename_i hsuffix
    obtain rfl := Option.some.inj he
    exact ⟨rfl,rfl,rfl,hsuffix.trans hpart⟩
  · cases he

theorem ground (h : Left t tried t₁) (path : Path) :
    isDirectory t₁ (t₁.nearest path) = isDirectory t (t.nearest path) ∧
      isWritable t₁ (t₁.nearest path) = isWritable t (t.nearest path) ∧
      device t₁ (t₁.nearest path) = device t (t.nearest path) := by
  obtain ⟨part,base,-,hgrown,hgrounded,hbase⟩ := h.grown
  obtain ⟨g,g',hg,hg',hdirectory,hwritable,hdevice⟩ := hgrown.ground hgrounded hbase path
  simp [isDirectory, isWritable, device, hg, hg', hdirectory, hwritable, hdevice]

theorem makeable (h : Left t tried t₁) (path : Path) : t₁.Makeable path ↔ t.Makeable path := by
  obtain ⟨part,base,-,hgrown,hgrounded,-⟩ := h.grown
  exact hgrown.makeable hgrounded path

theorem root (h : Left t tried t₁) : named t₁ [] = named t [] := by
  obtain ⟨e,he,-⟩ := t.root
  rw [named, named, he, h.stays [] e he]

theorem writes (h : Left t tried t₁) (path : Path) : Writes t₁ path ↔ Writes t path := by
  obtain ⟨hdirectory,hwritable,-⟩ := h.ground path
  cases hpath : t.entry path with
  | some e => simp [Writes, hpath, h.stays path e hpath]
  | none =>
    cases hpath₁ : t₁.entry path with
    | none => simp [Writes, hpath, hpath₁, hdirectory, hwritable, h.makeable path]
    | some e =>
      obtain ⟨hinside,-,hopen,-⟩ := h.made path e hpath hpath₁
      have hmakeable := (h.makeable path).mp (t₁.makeable_there path e hpath₁)
      refine iff_of_true (.inl ⟨e,hpath₁,hinside,.inl hopen⟩) (.inr ⟨hpath,?_,?_,hmakeable⟩)
      · rw [← hdirectory, t₁.nearest_self path e hpath₁, isDirectory, hpath₁]
        exact hinside
      · rw [← hwritable, t₁.nearest_self path e hpath₁, isWritable, hpath₁]
        exact hopen

theorem nameDevice (h : Left t tried t₁) (path : Path) :
    nameDevice t₁ path = nameDevice t path := by
  obtain ⟨-,-,hdevice⟩ := h.ground path
  rw [BackupDestination.nameDevice, BackupDestination.nameDevice]
  cases hpath : t.entry path with
  | some e => simp [named, hpath, h.stays path e hpath]
  | none =>
    cases hpath₁ : t₁.entry path with
    | none => exact hdevice
    | some e =>
      obtain ⟨-,hname,-⟩ := h.made path e hpath hpath₁
      rw [t₁.nearest_self path e hpath₁, device, hpath₁] at hdevice
      change named t₁ path = device t (t.nearest path)
      rw [← hdevice, named, hpath₁, Option.map_some, Option.map_some, hname]

theorem apart (h : Left t tried t₁) (path : Path) : apart t₁ path = apart t path := by
  rw [BackupDestination.apart, BackupDestination.apart, h.nameDevice path, h.root]

theorem prepared (h : Left t tried t₁) (h' : Prepared t₁ path path t') :
    Prepared t path tried t' where
  opened := h'.opened
  disk := h'.disk.trans (h.ground path).2.2
  name := h'.name.trans (h.nameDevice path)
  stays other e he := h'.stays other e (h.stays other e he)
  made := by
    intro other e hnew he
    cases hbetween : t₁.entry other with
    | none =>
      obtain ⟨hinside,hsuffix⟩ := h'.made other e hbetween he
      exact ⟨hinside,.inl (hsuffix.elim id id)⟩
    | some old =>
      obtain ⟨hinside,-,-,hsuffix⟩ := h.made other old hnew hbetween
      rw [h'.stays other old hbetween] at he
      obtain rfl := Option.some.inj he
      refine ⟨?_,.inr hsuffix⟩
      split <;> exact hinside

end Left

/-! The destination of either kind of run. -/

namespace Prepared
variable {t t' t₂ : FileTree String} {path tried : Path}

theorem nearest (h : Prepared t path tried t') : t'.nearest path = path := by
  obtain ⟨e,he,-⟩ := h.opened
  exact t'.nearest_self path e he

theorem writes (h : Prepared t path tried t') : Writes t' path := by
  obtain ⟨e,he,hdirectory,hwritable⟩ := h.opened
  exact .inl ⟨e,he,hdirectory,.inl hwritable⟩

theorem root (h : Prepared t path tried t') : named t' [] = named t [] := by
  obtain ⟨e,he,-⟩ := t.root
  rw [named, named, he, h.stays [] e he]
  split <;> rfl

theorem onItsOwnDisk (h : Prepared t path tried t') : onItsOwnDisk t' path = apart t path := by
  rw [BackupDestination.onItsOwnDisk, apart, h.nearest, h.name, h.root]

theorem again (h : Prepared t path path t') (h₂ : Prepared t' path path t₂) :
    Prepared t path path t₂ where
  opened := h₂.opened
  disk := by rw [h₂.disk, h.nearest, h.disk]
  name := by
    obtain ⟨e,he,-⟩ := h.opened
    rw [h₂.name, nameDevice, he, Option.isSome_some, if_pos rfl, h.name]
  stays := by
    intro other e he
    rw [h₂.stays other _ (h.stays other e he)]
    split <;> rfl
  made := by
    intro other e hnew he
    cases hbetween : t'.entry other with
    | none => exact h₂.made other e hbetween he
    | some old =>
      obtain ⟨hinside,hsuffix⟩ := h.made other old hnew hbetween
      rw [h₂.stays other old hbetween] at he
      obtain rfl := Option.some.inj he
      refine ⟨?_,hsuffix⟩
      split <;> exact hinside

end Prepared

section
variable (chosen : Option Path) (t : FileTree String)

def Skipped : Prop := chosen = none ∧ onItsOwnDisk t defaultBackupDir = false

def Consulted (path : Path) : Prop :=
  path = chosen.getD defaultBackupDir ∧ ¬Skipped chosen t ∨
    path = fallbackBackupDir ∧ (Skipped chosen t ∨ ¬Writes t (chosen.getD defaultBackupDir))

inductive Outcome (works : Path → Prop) (own : Path → Bool) : Option (Path × Location) → Prop
  | here (hlooked : ¬Skipped chosen t) (hworks : works (chosen.getD defaultBackupDir)) :
      Outcome works own (some (chosen.getD defaultBackupDir,
        label (own (chosen.getD defaultBackupDir)) false))
  | fellBack (hpassed : Skipped chosen t ∨ ¬works (chosen.getD defaultBackupDir))
      (hworks : works fallbackBackupDir) :
      Outcome works own (some (fallbackBackupDir,label (own fallbackBackupDir) true))
  | died (hpassed : Skipped chosen t ∨ ¬works (chosen.getD defaultBackupDir))
      (hfails : ¬works fallbackBackupDir) : Outcome works own none

theorem settled_skipped (dryRun : Bool) (h : Skipped chosen t) :
    settled dryRun chosen t = ((fallbackBackupDir,true),t) := by
  obtain ⟨rfl,hdisk⟩ := h
  simp [settled, hdisk]

theorem settled_looked (dryRun : Bool) (h : ¬Skipped chosen t) :
    let tested := usable dryRun (chosen.getD defaultBackupDir) t
    settled dryRun chosen t = if tested.1 then ((chosen.getD defaultBackupDir,false),tested.2)
      else ((fallbackBackupDir,true),tested.2) := by
  intro tested
  have hlooked : ¬(chosen = none ∧ onItsOwnDisk t (chosen.getD defaultBackupDir) = false) := by
    rintro ⟨rfl,hdisk⟩
    exact h ⟨rfl,hdisk⟩
  rw [settled, if_neg hlooked]
  rcases htested : usable dryRun (chosen.getD defaultBackupDir) t with ⟨_ | _,t₁⟩ <;>
    simp [tested, htested]

theorem landed_eq (dryRun : Bool) (path : Path) (fellBack : Bool) :
    let tested := usable dryRun path t
    landed dryRun path fellBack t = if tested.1
      then (some (path,label (onItsOwnDisk tested.2 path) fellBack),tested.2)
      else (none,tested.2) := by
  intro tested
  rw [landed]
  rcases htested : usable dryRun path t with ⟨_ | _,t₁⟩ <;> simp [tested, htested]

theorem landed_dry (path : Path) (fellBack : Bool) :
    (SeemsWritable t path → landed true path fellBack t =
      (some (path,label (onItsOwnDisk t path) fellBack),t)) ∧
    (¬SeemsWritable t path → landed true path fellBack t = (none,t)) := by
  obtain ⟨hseems,hsame⟩ := usable_dry t path
  rw [landed_eq, hsame]
  exact ⟨fun h => if_pos (hseems.mpr h),fun h => if_neg fun htest => h (hseems.mp htest)⟩

theorem landed_real (path : Path) (fellBack : Bool) :
    (Writes t path → ∃ t', landed false path fellBack t =
      (some (path,label (apart t path) fellBack),t') ∧ Prepared t path path t') ∧
    (¬Writes t path → ∃ t', landed false path fellBack t = (none,t') ∧ Left t path t') := by
  obtain ⟨hworks,hleft,hprepared⟩ := usable_real t path
  rw [landed_eq]
  constructor
  · intro hwrites
    refine ⟨_,?_,hprepared hwrites⟩
    rw [if_pos (hworks.mpr hwrites), (hprepared hwrites).onItsOwnDisk]
  · intro hwrites
    exact ⟨_,if_neg fun h => hwrites (hworks.mp h),hleft hwrites⟩

theorem destination_dry :
    Outcome chosen t (SeemsWritable t) (onItsOwnDisk t) (destination true chosen t).1 ∧
      (destination true chosen t).2 = t := by
  have hfallback : ∀ hpassed : Skipped chosen t ∨ ¬SeemsWritable t (chosen.getD defaultBackupDir),
      Outcome chosen t (SeemsWritable t) (onItsOwnDisk t) (landed true fallbackBackupDir true t).1 ∧
        (landed true fallbackBackupDir true t).2 = t := by
    intro hpassed
    obtain ⟨hlanded,hlost⟩ := landed_dry t fallbackBackupDir true
    by_cases hseems : SeemsWritable t fallbackBackupDir
    · rw [hlanded hseems]
      exact ⟨.fellBack hpassed hseems,rfl⟩
    · rw [hlost hseems]
      exact ⟨.died hpassed hseems,rfl⟩
  by_cases hskipped : Skipped chosen t
  · rw [destination, settled_skipped chosen t true hskipped]
    exact hfallback (.inl hskipped)
  obtain ⟨hworks,hsame⟩ := usable_dry t (chosen.getD defaultBackupDir)
  rw [destination, settled_looked chosen t true hskipped, hsame]
  by_cases hseems : SeemsWritable t (chosen.getD defaultBackupDir)
  · rw [if_pos (hworks.mpr hseems)]
    dsimp only
    rw [(landed_dry t _ false).1 hseems]
    exact ⟨.here hskipped hseems,rfl⟩
  · rw [if_neg fun h => hseems (hworks.mp h)]
    exact hfallback (.inr hseems)

/-- What a run leaves that dies: some of the directories of the places it tried. -/
structure Remains (t' : FileTree String) : Prop where
  stays : ∀ other e, t.entry other = some e → t'.entry other = some e
  made : ∀ other e, t.entry other = none → t'.entry other = some e → e.directory = true ∧
    (other <:+ fallbackBackupDir ∨ other <:+ chosen.getD defaultBackupDir)

theorem remains_of_left {t₁ t₂ : FileTree String} (h : Left t (chosen.getD defaultBackupDir) t₁)
    (h' : Left t₁ fallbackBackupDir t₂) : Remains chosen t t₂ where
  stays other e he := h'.stays other e (h.stays other e he)
  made := by
    intro other e hnew he
    cases hbetween : t₁.entry other with
    | none =>
      obtain ⟨hdirectory,-,-,hsuffix⟩ := h'.made other e hbetween he
      exact ⟨hdirectory,.inl hsuffix⟩
    | some old =>
      obtain ⟨hdirectory,-,-,hsuffix⟩ := h.made other old hnew hbetween
      rw [h'.stays other old hbetween] at he
      obtain rfl := Option.some.inj he
      exact ⟨hdirectory,.inr hsuffix⟩

/-- The tree is prepared at the place that was found, or nearly as it was. -/
theorem destination_real :
    Outcome chosen t (Writes t) (apart t) (destination false chosen t).1 ∧
    match (destination false chosen t).1 with
    | some (backupDir,_) => Prepared t backupDir (chosen.getD defaultBackupDir)
        (destination false chosen t).2
    | none => Remains chosen t (destination false chosen t).2 := by
  have hfallback : ∀ t₁, Left t (chosen.getD defaultBackupDir) t₁ →
      (Skipped chosen t ∨ ¬Writes t (chosen.getD defaultBackupDir)) →
      Outcome chosen t (Writes t) (apart t) (landed false fallbackBackupDir true t₁).1 ∧
        match (landed false fallbackBackupDir true t₁).1 with
        | some (backupDir,_) => Prepared t backupDir (chosen.getD defaultBackupDir)
            (landed false fallbackBackupDir true t₁).2
        | none => Remains chosen t (landed false fallbackBackupDir true t₁).2 := by
    intro t₁ hleft hpassed
    obtain ⟨hlanded,hlost⟩ := landed_real t₁ fallbackBackupDir true
    rw [hleft.writes, hleft.apart] at hlanded
    rw [hleft.writes] at hlost
    by_cases hwrites : Writes t fallbackBackupDir
    · obtain ⟨t',hrun,hprepared⟩ := hlanded hwrites
      rw [hrun]
      exact ⟨.fellBack hpassed hwrites,hleft.prepared hprepared⟩
    · obtain ⟨t',hrun,hleft'⟩ := hlost hwrites
      rw [hrun]
      exact ⟨.died hpassed hwrites,remains_of_left chosen t hleft hleft'⟩
  by_cases hskipped : Skipped chosen t
  · rw [destination, settled_skipped chosen t false hskipped]
    exact hfallback t (.refl t _) (.inl hskipped)
  obtain ⟨hworks,hleft,hprepared⟩ := usable_real t (chosen.getD defaultBackupDir)
  rw [destination, settled_looked chosen t false hskipped]
  by_cases hwrites : Writes t (chosen.getD defaultBackupDir)
  · have hfound := hprepared hwrites
    rw [if_pos (hworks.mpr hwrites)]
    obtain ⟨t',hrun,hagain⟩ := (landed_real _ (chosen.getD defaultBackupDir) false).1 hfound.writes
    have hlabel : apart (usable false (chosen.getD defaultBackupDir) t).2
        (chosen.getD defaultBackupDir) = apart t (chosen.getD defaultBackupDir) := by
      obtain ⟨e,he,-⟩ := hfound.opened
      rw [← apart_there _ _ e he, hfound.onItsOwnDisk]
    dsimp only
    rw [hrun, hlabel]
    exact ⟨.here hskipped hwrites,hfound.again hagain⟩
  · rw [if_neg fun h => hwrites (hworks.mp h)]
    exact hfallback _ (hleft hwrites) (.inr hwrites)

theorem label_inj (one other fellBack : Bool) : label one fellBack = label other fellBack ↔
    one = other := by
  cases one <;> cases other <;> cases fellBack <;> decide

/-- Two kinds of test lead to one end where they agree on every place that is tried. -/
theorem outcome_eq_iff (works works' : Path → Prop) (own own' : Path → Bool)
    (found found' : Option (Path × Location)) (h : Outcome chosen t works own found)
    (h' : Outcome chosen t works' own' found') : found = found' ↔
      let backupDir := chosen.getD defaultBackupDir
      (¬Skipped chosen t → (works backupDir ↔ works' backupDir) ∧
        (works' backupDir → own backupDir = own' backupDir)) ∧
      (Skipped chosen t ∨ ¬works' backupDir →
        (works fallbackBackupDir ↔ works' fallbackBackupDir) ∧
          (works' fallbackBackupDir → own fallbackBackupDir = own' fallbackBackupDir)) := by
  cases h with
  | here hlooked hworks =>
    cases h' with
    | here _ hworks' => simp [hlooked, hworks, hworks', label_inj]
    | fellBack hpassed hworks' =>
      have hfails := hpassed.resolve_left hlooked
      constructor
      · intro hsame
        obtain ⟨hplace,-⟩ := Prod.mk.inj (Option.some.inj hsame)
        exact absurd (hplace ▸ hworks') hfails
      · rintro ⟨hagree,-⟩
        exact absurd ((hagree hlooked).1.mp hworks) hfails
    | died hpassed _ =>
      have hfails := hpassed.resolve_left hlooked
      simp [hlooked, hworks, hfails]
  | fellBack hpassed hworks =>
    cases h' with
    | here hlooked hworks' =>
      have hfails := hpassed.resolve_left hlooked
      constructor
      · intro hsame
        obtain ⟨hplace,-⟩ := Prod.mk.inj (Option.some.inj hsame)
        exact absurd (hplace ▸ hworks) hfails
      · rintro ⟨hagree,-⟩
        exact absurd ((hagree hlooked).1.mpr hworks') hfails
    | fellBack hpassed' hworks' =>
      have hdir : ¬Skipped chosen t → (works (chosen.getD defaultBackupDir) ↔
          works' (chosen.getD defaultBackupDir)) ∧ (works' (chosen.getD defaultBackupDir) →
            own (chosen.getD defaultBackupDir) = own' (chosen.getD defaultBackupDir)) := by
        intro hlooked
        have hfails' := hpassed'.resolve_left hlooked
        exact ⟨iff_of_false (hpassed.resolve_left hlooked) hfails',fun h => absurd h hfails'⟩
      simp only [Option.some.injEq, Prod.mk.injEq, true_and, label_inj]
      constructor
      · exact fun hown => ⟨hdir,fun _ => ⟨iff_of_true hworks hworks',fun _ => hown⟩⟩
      · exact fun hagree => (hagree.2 hpassed').2 hworks'
    | died hpassed' hfails =>
      simp only [reduceCtorEq, false_iff, not_and]
      intro _ hagree
      exact hfails ((hagree hpassed').1.mp hworks)
  | died hpassed hfails =>
    cases h' with
    | here hlooked hworks' =>
      simp only [reduceCtorEq, false_iff, not_and]
      intro hagree
      exact absurd ((hagree hlooked).1.mpr hworks') (hpassed.resolve_left hlooked)
    | fellBack hpassed' hworks' =>
      simp only [reduceCtorEq, false_iff, not_and]
      intro _ hagree
      exact hfails ((hagree hpassed').1.mpr hworks')
    | died hpassed' hfails' =>
      refine iff_of_true rfl ⟨fun hlooked => ?_,fun _ =>
        ⟨iff_of_false hfails hfails',fun h => absurd h hfails'⟩⟩
      have hnot := hpassed'.resolve_left hlooked
      exact ⟨iff_of_false (hpassed.resolve_left hlooked) hnot,fun h => absurd h hnot⟩

end
end Emma.BackupDestination

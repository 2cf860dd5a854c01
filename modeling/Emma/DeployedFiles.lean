import Emma.DeployStamp

/-!
# What a deploy brings

Whatever deploys are tried and wherever they stop, a file of the server is as it would
be without them or as it was in the working tree at some time, but for the stamp and
the caches of the tests, which every deploy writes. What else the archive leaves out,
`.env` and the database among it, is as it would be without them.
-/

set_option autoImplicit false

namespace Emma.DeployedFiles
open Runs Emma.DeployStamp

/-- The moves that write to the server's files, and the time they take. -/
def onServer : Move → Bool
  | .waits _ => true
  | .serverEdits _ _ => true
  | .serverDeletes _ => true
  | _ => false

def rewritten (f : File) : Bool := f = [stampFilename] || f.any (· ∈ testCaches)

def packedFiles : Phase → Option Files
  | .packed _ archive => some archive
  | .extracting _ archive _ => some archive
  | _ => none

/-- The server beside one without deploys; `seen` is what the working tree has held. -/
structure Brought (seen : File → Entry → Prop) (m own : Site) : Prop where
  now : m.now = own.now
  archive : ∀ archive, packedFiles m.phase = some archive → ∀ f e, archive.entry f = some e →
    shipped f = true ∧ seen f e
  installed : ∀ f, m.installed.entry f = own.installed.entry f ∨ rewritten f = true ∨
    shipped f = true ∧ ∃ e, m.installed.entry f = some e.unpacked ∧ seen f e

section
variable {seen : File → Entry → Prop} {m own : Site}

theorem Brought.passed (h : Brought seen m own) (m' : Site) (hnow : m'.now = m.now)
    (hinstalled : m'.installed = m.installed)
    (harchive : ∀ archive, packedFiles m'.phase = some archive → ∀ f e, archive.entry f = some e →
      shipped f = true ∧ seen f e) : Brought seen m' own where
  now := hnow.trans h.now
  archive := harchive
  installed := hinstalled ▸ h.installed

theorem Brought.put (h : Brought seen m own) (f : File) (e : Option Entry) :
    Brought seen { m with installed := m.installed.put f e }
      { own with installed := own.installed.put f e } where
  now := h.now
  archive := h.archive
  installed := by
    intro other
    dsimp only
    rw [Files.entry_put, Files.entry_put]
    split
    · exact .inl rfl
    · exact h.installed other

theorem Brought.packs (h : Brought seen m own) (stamp : Stamp)
    (htree : ∀ f e, m.tree.entry f = some e → seen f e) :
    Brought seen { m with phase := .packed stamp (m.tree.only shipped) } own := by
  refine h.passed _ rfl rfl ?_
  rintro archive ⟨⟩ f e hentry
  rw [Files.only] at hentry
  dsimp only at hentry
  split at hentry
  · rename_i hshipped
    exact ⟨hshipped,htree f e hentry⟩
  · cases hentry

theorem Brought.extracts (h : Brought seen m own) (stamp : Stamp) (archive : Files)
    (remaining : Finset File) (hphase : m.phase = .extracting stamp archive remaining) (f : File) :
    Brought seen { m with
      installed := match archive.entry f with
        | some e => m.installed.put f (some e.unpacked)
        | none => m.installed
      phase := .extracting stamp archive (remaining.erase f) } own := by
  have harchive := h.archive archive (by rw [hphase]; rfl)
  refine ⟨h.now,?_,?_⟩
  · rintro _ ⟨⟩
    exact harchive
  · intro other
    dsimp only
    cases hentry : archive.entry f with
    | none => exact h.installed other
    | some e =>
      dsimp only
      rw [Files.entry_put]
      split
      · rename_i hsame
        obtain ⟨hshipped,hseen⟩ := harchive f e hentry
        exact .inr (.inr ⟨hsame ▸ hshipped,e,rfl,hsame ▸ hseen⟩)
      · exact h.installed other

theorem Brought.tests (h : Brought seen m own) (f : File) (hcache : f.any (· ∈ testCaches) = true)
    (e : Entry) : Brought seen { m with installed := m.installed.put f (some e) } own where
  now := h.now
  archive := h.archive
  installed := by
    intro other
    dsimp only
    rw [Files.entry_put]
    split
    · rename_i hsame
      rw [hsame, rewritten, hcache, Bool.or_true]
      exact .inr (.inl rfl)
    · exact h.installed other

theorem step_brought {ignored : File → Bool} (h : Brought seen m own)
    (htree : ∀ f e, m.tree.entry f = some e → seen f e) (move : Move) :
    Brought seen (m.step ignored move)
      (if onServer move then own.step ignored move else own) := by
  cases move with
  | waits n => exact ⟨congrArg (·+n) h.now,h.archive,h.installed⟩
  | edits f content => exact h.passed _ rfl rfl h.archive
  | deletes f => exact h.passed _ rfl rfl h.archive
  | commits => exact h.passed _ rfl rfl h.archive
  | begins =>
    dsimp only [Site.step]
    split
    · exact h.passed _ rfl rfl nofun
    · exact h
  | checks =>
    dsimp only [Site.step]
    split
    · split
      · exact h.passed _ rfl rfl nofun
      · exact h.passed _ rfl rfl nofun
    · exact h
  | dates =>
    dsimp only [Site.step]
    split
    · exact h.passed _ rfl rfl nofun
    · exact h
  | packs =>
    dsimp only [Site.step]
    split
    · exact h.packs _ htree
    · exact h
  | stops =>
    dsimp only [Site.step]
    split
    · rename_i stamp archive hphase
      refine h.passed _ rfl rfl ?_
      rintro _ ⟨⟩
      exact h.archive archive (by rw [hphase]; rfl)
    · exact h
  | extracts f =>
    dsimp only [Site.step]
    split
    · rename_i stamp archive remaining hphase
      split
      · exact h.extracts stamp archive remaining hphase f
      · exact h
    · exact h
  | stamps whole =>
    dsimp only [Site.step]
    split
    · split
      · split
        · exact h.passed _ rfl rfl nofun
        · exact h.passed _ rfl rfl nofun
      · exact h
    · exact h
  | tests f content =>
    dsimp only [Site.step]
    split
    · split
      · rename_i hcache
        exact h.tests f hcache _
      · exact h
    · exact h
  | starts =>
    dsimp only [Site.step]
    split
    · exact h.passed _ rfl rfl nofun
    · exact h
  | fails => exact h.passed _ rfl rfl nofun
  | serverEdits f content =>
    have hput := h.put f (some ⟨content,m.now⟩)
    rw [h.now] at hput
    simpa [Site.step, onServer, h.now] using hput
  | serverDeletes f => exact h.put f none
  | restarts => exact h.passed _ rfl rfl h.archive
  | halts => exact h.passed _ rfl rfl h.archive

theorem run_brought {ignored : File → Bool} (moves : List Move) (h : Brought seen m own)
    (htree : Always (Site.step ignored) (fun m => ∀ f e, m.tree.entry f = some e → seen f e)
      moves m) : Brought seen (after (Site.step ignored) moves m)
      (after (Site.step ignored) (moves.filter onServer) own) := by
  induction moves generalizing m own with
  | nil => exact h
  | cons move moves ih =>
    obtain ⟨hfirst,hrest⟩ := (always_cons _ move moves m).mp htree
    have hstep := ih (step_brought h hfirst move) hrest
    rw [List.filter_cons]
    split
    · rename_i hown
      rwa [if_pos hown] at hstep
    · rename_i hother
      rwa [if_neg hother] at hstep

end

end Emma.DeployedFiles

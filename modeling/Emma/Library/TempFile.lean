import Mathlib.Logic.Function.Basic
import Mathlib.Data.List.Basic
import Mathlib.Data.List.TakeWhile

/-!
# A file put in place under a shared temporary name

Every writer opens the one temporary name, writes what it has piece by piece and
renames the file. A file that was opened stays the file that is written to, at the
writer's own place in it, whatever its names are by then. So writers may meet in one
file and write over each other, and a reader may find one that is half written. What
follows a key in such a file is of some writer, or has a character of a later piece.
-/

set_option autoImplicit false

namespace TempFile

variable {α : Type*}

def overlay (pad : α) (offset : ℕ) (text content : List α) : List α :=
  content.take offset ++ List.replicate (offset-content.length) pad ++ text ++
    content.drop (offset+text.length)

section
variable {key : List α} {stop : α}

/-- A key in a text in two parts is in the first, in the second, or across. -/
theorem key_cases {a b front back : List α} (h : a ++ b = front ++ key ++ back) :
    (∃ t, a = front ++ key ++ t ∧ back = t ++ b) ∨ (∃ t, b = t ++ key ++ back) ∨
      ∃ k l t, key = k ++ l ∧ k ≠ [] ∧ l ≠ [] ∧ a = front ++ k ∧ b = l ++ t ∧ back = t := by
  rcases List.append_eq_append_iff.mp h with ⟨t,hfront,hb⟩ | ⟨t,ha,hback⟩
  · rcases List.append_eq_append_iff.mp hfront with ⟨k,ha,hkey⟩ | ⟨k,-,ht⟩
    · by_cases hk : k = []
      · exact .inr (.inl ⟨[],by rw [hb, hkey, hk]; simp⟩)
      · by_cases ht : t = []
        · exact .inl ⟨[],by rw [ha, hkey, ht]; simp,by rw [hb, ht]; simp⟩
        · exact .inr (.inr ⟨k,t,back,hkey,hk,ht,ha,hb,rfl⟩)
    · exact .inr (.inl ⟨k,by rw [hb, ht]⟩)
  · exact .inl ⟨t,ha,hback⟩

/-- In a piece that ends with the stop, the stop follows every key. -/
theorem stop_behind {piece front back : List α} (hkey : key ≠ []) (hstop : stop ∉ key)
    (h : piece ++ [stop] = front ++ key ++ back) : stop ∈ back := by
  have hlast := congrArg List.getLast? h
  rcases List.eq_nil_or_concat back with rfl | ⟨rest,a,rfl⟩
  · obtain ⟨rest,a,hrest⟩ := (List.eq_nil_or_concat key).resolve_left hkey
    rw [hrest] at hlast hstop
    simp only [List.concat_eq_append, List.append_nil, ← List.append_assoc,
      List.getLast?_concat, Option.some.injEq] at hlast
    exact absurd (by simp [hlast]) hstop
  · simp only [List.concat_eq_append, ← List.append_assoc, List.getLast?_concat,
      Option.some.injEq] at hlast
    simp [hlast]

end

section
variable [DecidableEq α]

def Valued (P : List α → Prop) (key : List α) (stop : α) (content : List α) : Prop :=
  ∀ front back, content = front ++ key ++ back → P (back.takeWhile fun a => a ≠ stop)

variable {P P' : List α → Prop} {key : List α} {stop : α} {content : List α}

theorem valued_nil (hkey : key ≠ []) : Valued P key stop [] := by
  intro front back h
  have hnil := List.append_eq_nil_iff.mp (List.append_eq_nil_iff.mp h.symm).1
  exact absurd hnil.2 hkey

theorem Valued.mono (h : Valued P key stop content) (hmore : ∀ value, P value → P' value) :
    Valued P' key stop content := fun front back hcontent => hmore _ (h front back hcontent)

theorem valued_without {a : α} (ha : a ∈ key) (hnone : a ∉ content) :
    Valued P key stop content := by
  rintro front back rfl
  exact absurd (by simp [ha]) hnone

/-- A key that begins with a character of its own is only where it was written. -/
theorem valued_once {first : α} {rest value : List α}
    (hown : first ∉ rest ++ value ++ [stop]) (hstop : stop ∉ value) (hvalue : P value) :
    Valued P (first::rest) stop (first::rest ++ value ++ [stop]) := by
  intro front back h
  have hfront : front = [] := by
    cases front with
    | nil => rfl
    | cons b front =>
      obtain ⟨-,htail⟩ := List.cons.inj h
      refine absurd ?_ hown
      rw [show rest ++ value ++ [stop] = front ++ first::rest ++ back from htail]
      simp
  subst hfront
  rw [List.nil_append, List.append_assoc, List.append_cancel_left_eq] at h
  rw [← h, List.takeWhile_append_of_pos fun a ha => by
    simpa using fun hs : a = stop => hstop (hs ▸ ha)]
  simpa using hvalue

theorem takeWhile_stopped (run tail tail' : List α) (h : stop ∈ run) :
    (run ++ tail).takeWhile (fun a => a ≠ stop) = (run ++ tail').takeWhile fun a => a ≠ stop := by
  induction run with
  | nil => exact absurd h List.not_mem_nil
  | cons a run ih =>
    by_cases ha : a = stop
    · simp [ha]
    · have hrun : stop ∈ run := by simpa [Ne.symm ha] using h
      simp [ha] at ih ⊢
      exact ih hrun

/-- A run without the stop is passed whole, and what comes after it is reached. -/
theorem mem_takeWhile_reached {a : α} (run tail : List α) (h : stop ∉ run) (ha : a ≠ stop) :
    a ∈ (run ++ a::tail).takeWhile fun a => a ≠ stop := by
  rw [List.takeWhile_append_of_pos fun b hb => by
    simpa using fun hs : b = stop => h (hs ▸ hb)]
  simp [ha]

/-- A piece that ends with the stop, written over what is there: it may cut a value
short, but only with its first character. -/
theorem Valued.overlay {pad first : α} {offset : ℕ} {piece : List α}
    (h : Valued P key stop content) (hkey : key ≠ []) (hstop : stop ∉ key) (hpad : pad ∉ key)
    (hpadstop : pad ≠ stop) (hfirst : first ≠ stop)
    (hvalued : Valued P key stop (first::piece ++ [stop]))
    (hcut : offset = 0 ∨ first ∉ key.tail ∧ ∀ value, first ∈ value → P value) :
    Valued P key stop (overlay pad offset (first::piece ++ [stop]) content) := by
  have hpads : ∀ l, l ≠ [] → l ⊆ key → ¬l ⊆ List.replicate (offset-content.length) pad := by
    intro l hl hwithin hall
    obtain ⟨a,ha⟩ := List.exists_mem_of_ne_nil l hl
    exact hpad (List.eq_of_mem_replicate (hall ha) ▸ hwithin ha)
  have hnothing : offset = 0 →
      content.take offset ++ List.replicate (offset-content.length) pad = [] := by
    rintro rfl
    simp
  intro front back hcontent
  rw [TempFile.overlay, List.append_assoc] at hcontent
  rcases key_cases hcontent with ⟨t,hbefore,hback⟩ | ⟨t,hbehind⟩ | ⟨k,l,t,rfl,hk,hl,hbefore,hb,-⟩
  · -- the key is before the piece, and its value is ended there or by the piece
    rcases key_cases hbefore with ⟨t',htake,ht⟩ | ⟨t',ht'⟩ | ⟨k,l,t',rfl,-,hl,-,ht',-⟩
    · by_cases hended : stop ∈ t'
      · have hvalue := h front (t' ++ content.drop offset) (by
          conv_lhs => rw [← List.take_append_drop offset content, htake]
          simp)
        rw [hback, ht, List.append_assoc, takeWhile_stopped t' _ (content.drop offset) hended]
        exact hvalue
      · rcases hcut with hzero | ⟨-,hother⟩
        · have hnil := hnothing hzero
          rw [hbefore] at hnil
          simp [hkey] at hnil
        · have hrun : stop ∉ t := by
            rw [ht]
            simp [hended, List.mem_replicate, Ne.symm hpadstop]
          apply hother
          rw [hback]
          exact mem_takeWhile_reached t _ hrun hfirst
    · exact absurd (by rw [ht']; simp) (hpads key hkey (List.Subset.refl _))
    · exact absurd (by rw [ht']; simp) (hpads l hl (by simp))
  · -- the key is in the piece, or in what is left behind it
    rcases key_cases hbehind with ⟨t',hpiece,hback⟩ | ⟨t',hdrop⟩ | ⟨k,l,t',rfl,hk,-,hpiece,-⟩
    · rw [hback, takeWhile_stopped t' _ [] (stop_behind hkey hstop hpiece), List.append_nil]
      exact hvalued t t' hpiece
    · apply h (content.take (offset+(first::piece ++ [stop]).length) ++ t') back
      conv_lhs => rw [← List.take_append_drop (offset+(first::piece ++ [stop]).length) content,
        hdrop]
      simp
    · have hlast : stop ∉ k := fun hmem => hstop (List.mem_append_left _ hmem)
      have hnone : stop ∈ ([] : List α) :=
        stop_behind hk hlast (hpiece.trans (List.append_nil _).symm)
      cases hnone
  · -- the key cannot go on into the piece
    rcases hcut with hzero | ⟨htail,-⟩
    · have hnil := hnothing hzero
      rw [hbefore] at hnil
      exact absurd (List.append_eq_nil_iff.mp hnil).2 hk
    · obtain ⟨a,k,rfl⟩ := List.exists_cons_of_ne_nil hk
      obtain ⟨b,l,rfl⟩ := List.exists_cons_of_ne_nil hl
      obtain ⟨rfl,-⟩ := List.cons.inj hb
      exact absurd (by simp) htail

end

structure Disk (α : Type*) where
  temporary : Option ℕ
  published : Option ℕ
  content : ℕ → List α
  files : ℕ

namespace Disk

def empty : Disk α := ⟨none,none,fun _ => [],0⟩

def truncate (d : Disk α) : Disk α × ℕ :=
  match d.temporary with
  | some file => ({ d with content := Function.update d.content file [] },file)
  | none => ({ d with
      temporary := some d.files
      content := Function.update d.content d.files []
      files := d.files+1 },d.files)

def write (pad : α) (d : Disk α) (file offset : ℕ) (text : List α) : Disk α :=
  { d with content := Function.update d.content file (overlay pad offset text (d.content file)) }

def publish (d : Disk α) : Option (Disk α) :=
  d.temporary.map fun file => { d with temporary := none, published := some file }

def remove (d : Disk α) : Disk α := { d with temporary := none }

def read (d : Disk α) : Option (List α) := d.published.map d.content

def Holds (I : List α → Prop) (d : Disk α) : Prop := ∀ file, I (d.content file)

variable {I I' : List α → Prop} {d : Disk α}

theorem holds_empty (hnew : I []) : Holds I (empty : Disk α) := fun _ => hnew

theorem Holds.mono (h : Holds I d) (hmore : ∀ text, I text → I' text) : Holds I' d :=
  fun file => hmore _ (h file)

theorem Holds.update (h : Holds I d) (file : ℕ) (content : List α) (hcontent : I content)
    (other : ℕ) : I (Function.update d.content file content other) := by
  rw [Function.update_apply]
  split
  · exact hcontent
  · exact h other

theorem Holds.truncate (h : Holds I d) (hnew : I []) : Holds I d.truncate.1 := by
  unfold Disk.truncate
  split
  · exact h.update _ [] hnew
  · exact h.update _ [] hnew

theorem Holds.write (h : Holds I d) (pad : α) (file offset : ℕ) (text : List α)
    (hover : ∀ content, I content → I (overlay pad offset text content)) :
    Holds I (d.write pad file offset text) :=
  h.update file _ (hover _ (h file))

theorem Holds.publish (h : Holds I d) (d' : Disk α) (hd' : d.publish = some d') :
    Holds I d' := by
  obtain ⟨file,-,rfl⟩ := Option.map_eq_some_iff.mp hd'
  exact h

theorem Holds.remove (h : Holds I d) : Holds I d.remove := h

theorem Holds.read (h : Holds I d) (content : List α) (hread : d.read = some content) :
    I content := by
  obtain ⟨file,-,rfl⟩ := Option.map_eq_some_iff.mp hread
  exact h file

end Disk
end TempFile

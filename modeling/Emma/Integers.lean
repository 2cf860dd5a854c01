import Emma.Python
import Mathlib.Algebra.Order.Ring.Nat

/-!
# Integers written as text

`int` takes decimal digits of any script, with single underscores between them,
behind at most one sign. Neither it nor `str` handles more digits than a limit.
-/

set_option autoImplicit false

namespace Emma.Integers
open Emma.Python

def decimalZeros : List ℕ :=
  [0x30,0x660,0x6f0,0x7c0,0x966,0x9e6,0xa66,0xae6,0xb66,0xbe6,0xc66,0xce6,0xd66,0xde6,0xe50,0xed0,
   0xf20,0x1040,0x1090,0x17e0,0x1810,0x1946,0x19d0,0x1a80,0x1a90,0x1b50,0x1bb0,0x1c40,0x1c50,
   0xa620,0xa8d0,0xa900,0xa9d0,0xa9f0,0xaa50,0xabf0,0xff10,0x104a0,0x10d30,0x11066,0x110f0,
   0x11136,0x111d0,0x112f0,0x11450,0x114d0,0x11650,0x116c0,0x11730,0x118e0,0x11950,0x11c50,
   0x11d50,0x11da0,0x16a60,0x16ac0,0x16b50,0x1d7ce,0x1d7d8,0x1d7e2,0x1d7ec,0x1d7f6,0x1e140,
   0x1e2f0,0x1e950,0x1fbf0]

def decimalValue (c : Char) : Option ℕ :=
  (decimalZeros.find? fun base => base ≤ c.toNat && c.toNat ≤ base+9).map fun base => c.toNat-base

def maxStrDigits : ℕ := 4300

def tooManyDigits : PyError :=
  .valueError "Exceeds the limit (4300 digits) for integer string conversion"

def valueOf (digits : List ℕ) : ℕ := digits.foldl (fun n digit => 10*n+digit) 0

def unsigned (text : List Char) : Except PyError ℕ :=
  if (text.splitOnP (· = '_')).all fun piece =>
      !piece.isEmpty && piece.all fun c => (decimalValue c).isSome then
    if maxStrDigits < (text.filterMap decimalValue).length then .error tooManyDigits
    else .ok (valueOf (text.filterMap decimalValue))
  else .error (.valueError "invalid literal for int() with base 10")

def signed : List Char → Bool × List Char
  | '-'::text => (true,text)
  | '+'::text => (false,text)
  | text => (false,text)

/-- `int` of a text. -/
def parseInt (raw : String) : Except PyError ℤ :=
  match unsigned (signed (strip raw).toList).2 with
  | .ok n => .ok (if (signed (strip raw).toList).1 then -(n : ℤ) else n)
  | .error e => .error e

/-- `str` of an integer. -/
def intText (n : ℤ) : Except PyError String :=
  if 10^maxStrDigits ≤ n.natAbs then .error tooManyDigits else .ok (toString n)

theorem decimalValue_lt (c : Char) (digit : ℕ) (h : decimalValue c = some digit) : digit < 10 := by
  obtain ⟨base,hbase,rfl⟩ := Option.map_eq_some_iff.mp h
  have hrange := List.find?_some hbase
  simp only [Bool.and_eq_true, decide_eq_true_eq] at hrange
  omega

theorem valueOf_lt (digits : List ℕ) (h : ∀ digit ∈ digits, digit < 10) :
    valueOf digits < 10^digits.length := by
  induction digits using List.reverseRecOn with
  | nil => simp [valueOf]
  | append_singleton digits digit ih =>
    have hfront := ih fun other hother => h other (List.mem_append_left _ hother)
    have hlast := h digit (by simp)
    have hstep : valueOf (digits ++ [digit]) = 10*valueOf digits+digit := by
      simp [valueOf, List.foldl_append]
    rw [hstep, List.length_append, List.length_singleton, pow_succ]
    omega

theorem unsigned_lt (text : List Char) (n : ℕ) (h : unsigned text = .ok n) :
    n < 10^maxStrDigits := by
  unfold unsigned at h
  split at h
  · split at h
    · cases h
    · rename_i hlimit
      obtain rfl := Except.ok.inj h
      have hdigits : ∀ digit ∈ text.filterMap decimalValue, digit < 10 := by
        intro digit hdigit
        obtain ⟨c,-,hc⟩ := List.mem_filterMap.mp hdigit
        exact decimalValue_lt c digit hc
      exact (valueOf_lt _ hdigits).trans_le (Nat.pow_le_pow_right (by decide) (by omega))
  · cases h

theorem unsigned_error (text : List Char) (e : PyError) (h : unsigned text = .error e) :
    ∃ message, e = .valueError message := by
  unfold unsigned at h
  split at h
  · split at h
    · exact ⟨_,(Except.error.inj h).symm⟩
    · cases h
  · exact ⟨_,(Except.error.inj h).symm⟩

theorem intText_parsed (raw : String) (n : ℤ) (h : parseInt raw = .ok n) :
    intText n = .ok (toString n) := by
  unfold parseInt at h
  split at h
  · rename_i m hm
    have hlt := unsigned_lt _ m hm
    have habs : n.natAbs = m := by
      rw [← Except.ok.inj h]
      split <;> omega
    rw [intText, if_neg (by rw [habs]; exact not_le.mpr hlt)]
  · cases h

/-- Whatever is wrong with a text, `int` raises `ValueError`. -/
theorem parseInt_error (raw : String) (e : PyError) (h : parseInt raw = .error e) :
    ∃ message, e = .valueError message := by
  unfold parseInt at h
  split at h
  · cases h
  · rename_i other hother
    exact unsigned_error _ e (by rw [hother]; exact congrArg _ (Except.error.inj h))

end Emma.Integers

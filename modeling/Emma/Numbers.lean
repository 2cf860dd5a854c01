import Emma.Python
import Mathlib.Data.Int.Log
import Mathlib.Data.Rat.Floor

/-!
# Floats as the program meets them

A finite float is the rational it denotes, and division rounds to the nearest
double. Comparison with NaN is false, and turning a float that is not finite
into an integer raises.
-/

set_option autoImplicit false

namespace Emma.Numbers
open Emma.Python

inductive PyFloat where
  | nan
  | infinite (negative : Bool)
  | finite (value : ℚ)
  deriving DecidableEq

def roundHalfEven (q : ℚ) : ℤ :=
  if q-⌊q⌋ < 1/2 then ⌊q⌋ else if 1/2 < q-⌊q⌋ then ⌊q⌋+1 else ⌊q⌋+⌊q⌋ % 2

def nearestDouble (q : ℚ) : ℚ :=
  let unit : ℚ := 2^max (Int.log 2 |q| - 52) (-1074)
  roundHalfEven (q/unit)*unit

namespace PyFloat

def isFinite : PyFloat → Bool
  | .finite _ => true
  | _ => false

def lt (bound : ℚ) : PyFloat → Bool
  | .nan => false
  | .infinite negative => negative
  | .finite value => value < bound

def gt (bound : ℚ) : PyFloat → Bool
  | .nan => false
  | .infinite negative => !negative
  | .finite value => bound < value

def div (divisor : ℚ) : PyFloat → PyFloat
  | .finite value => .finite (nearestDouble (value/divisor))
  | other => other

/-- `round` with no number of digits. -/
def round : PyFloat → Except PyError ℤ
  | .nan => .error (.valueError "cannot convert float NaN to integer")
  | .infinite _ => .error (.overflowError "cannot convert float infinity to integer")
  | .finite value => .ok (roundHalfEven value)

/-- `f"{x:.0f}"`. -/
def fixed : PyFloat → String
  | .nan => "nan"
  | .infinite negative => if negative then "-inf" else "inf"
  | .finite value => (if value < 0 then "-" else "") ++ toString (roundHalfEven |value|)

theorem isFinite_div (divisor : ℚ) (x : PyFloat) : (x.div divisor).isFinite = x.isFinite := by
  cases x <;> rfl

theorem round_isOk (x : PyFloat) : (∃ n, x.round = .ok n) ↔ x.isFinite = true := by
  cases x <;> simp [round, isFinite]

end PyFloat
end Emma.Numbers

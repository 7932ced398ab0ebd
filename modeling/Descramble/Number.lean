import Descramble.Fault

/-!
# Numbers

A number is an exact integer or a double.  Arithmetic goes through doubles; exact integers come
from prefixed spellings and from rounding functions and are kept as they are.

* `Number.ofDouble` — a double in its normal form: an integral double below `2^53` in magnitude is
  an exact integer, negative zero apart.
* `Number.toDouble` — the nearest double; integers of `2^1024` and more have none.
* `Number.text` — the text of a number as script code writes it.
-/

set_option autoImplicit false

namespace Descramble

/-- An exact integer or a double. -/
inductive Number where
  | int (n : Int)
  | float (d : Double)
  deriving DecidableEq, Repr

namespace Number

/-- The least magnitude at which neighbouring integers share a double: `2^53`. -/
def safeBound : Nat := 0x20000000000000

/-- Is the integer below `2^53` in magnitude? -/
def isSafe (n : Int) : Bool := decide (n.natAbs < safeBound)

/-- The normal form of a double. -/
def ofDouble (d : Double) : Number :=
  match d.truncate? with
  | some n => if d.isInteger && isSafe n && !d.isNegZero then .int n else .float d
  | none => .float d

/-- The normal form of a number. -/
def normalize : Number → Number
  | .int n => .int n
  | .float d => ofDouble d

def nan : Number := .float .nan

def infinity : Number := .float (.infinite false)

/-- The double that an integer was rounded to, unless it is infinite. -/
def withinRange : Double → Except Fault Double
  | .finite negative rank => .ok (.finite negative rank)
  | _ => .error .integerTooLarge

/-- The double nearest to a number. -/
def toDouble : Number → Except Fault Double
  | .float d => .ok d
  | .int n => withinRange (Double.ofInt n)

/-- A number rounded toward zero; NaN and the infinities have no integral part. -/
def truncate? : Number → Option Int
  | .int n => some n
  | .float d => d.truncate?

/-- Positional between `10^-6` and `10^21`, where a whole number has no point. -/
def scriptStyle : DecimalStyle := ⟨-5, 21, false, 1⟩

/-- The text of a positive finite double that is not a safe integer. -/
def longText (rank : Nat) : List Char :=
  let d := Double.shortest rank
  let point : Int := (digitsOf d.digits).length + d.exponent
  let plain := Double.plainStyle
  if plain.leastPoint ≤ point ∧ point ≤ plain.greatestPoint then d.layout plain
  else d.layout scriptStyle

/-- The text of a double. -/
def doubleText : Double → String
  | .nan => "NaN"
  | .infinite negative => if negative then "-Infinity" else "Infinity"
  | .finite negative rank =>
    match ofDouble (.finite negative rank) with
    | .int n => intText n
    | .float _ =>
      if rank.val = 0 then "0"
      else String.ofList (if negative then '-' :: longText rank else longText rank)

/-- The text of a number. -/
def text : Number → Except Fault String
  | .float d => .ok (doubleText d)
  | .int n =>
    if isSafe n then .ok (intText n)
    else do return doubleText (← (Number.int n).toDouble)

/-- The text of a number in a diagnostic. -/
def shown : Number → String
  | .int n => intText n
  | .float d => d.text

end Number

end Descramble

import Descramble.Number.Reading
import Descramble.Text.Quoted

/-!
# Script values and their conversions

* `Value` — the values that a static computation can hold.
* `Value.toText`, `Value.toNumber`, `Value.truthy` — conversion to text, number and truth value.
* `Value.toInt32`, `Value.toUint32` — the signed and the unsigned low 32 bits.
* `Value.typeName` — the name of a value's type.

A conversion fails only on a value outside the model (`Value.foreign`) and on an exact integer that
is too large for a double.
-/

set_option autoImplicit false

namespace Descramble

/-- A script value. -/
inductive Value where
  | undefined
  | null
  | bool (b : Bool)
  | number (n : Number)
  | text (s : String)
  | array (items : List Value)
  /-- A value outside the model. -/
  | foreign
  deriving Repr

namespace Value

def ofInt (n : Int) : Value := .number (.int n)

def nan : Value := .number .nan

def isArray : Value → Bool
  | .array _ => true
  | _ => false

def isText : Value → Bool
  | .text _ => true
  | _ => false

/-- Is the value undefined or null? -/
def isNullish : Value → Bool
  | .undefined => true
  | .null => true
  | _ => false

/-! ## Conversion to text -/

mutual

/-- The text of a value.  The items of an array are separated by commas, undefined and null items
being empty. -/
def toText : Value → Except Fault String
  | .undefined => .ok "undefined"
  | .null => .ok "null"
  | .bool b => .ok (if b then "true" else "false")
  | .number n => n.text
  | .text s => .ok s
  | .array items => do
    let parts ← itemTexts items
    return String.ofList (Text.joinWith [','] parts)
  | .foreign => .error .foreign

/-- The texts of the items of an array. -/
def itemTexts : List Value → Except Fault (List (List Char))
  | [] => .ok []
  | .undefined :: rest => do return [] :: (← itemTexts rest)
  | .null :: rest => do return [] :: (← itemTexts rest)
  | item :: rest => do
    let first ← toText item
    return first.toList :: (← itemTexts rest)

end

mutual

/-- A value as a diagnostic shows it. -/
def shown : Value → String
  | .undefined => "undefined"
  | .null => "null"
  | .bool b => if b then "True" else "False"
  | .number n => n.shown
  | .text s => Text.shown s
  | .array items => "[" ++ String.intercalate ", " (shownItems items) ++ "]"
  | .foreign => "object"

def shownItems : List Value → List String
  | [] => []
  | item :: rest => shown item :: shownItems rest

end

/-! ## Conversion to numbers and truth values -/

/-- The number of a value; an array converts through its text. -/
def toNumber : Value → Except Fault Number
  | .undefined => .ok .nan
  | .null => .ok (.int 0)
  | .bool b => .ok (.int (if b then 1 else 0))
  | .number n => .ok n
  | .text s => .ok (.ofText s)
  | .array items => do return .ofText (← toText (.array items))
  | .foreign => .error .foreign

/-- The double of a value. -/
def toDouble (v : Value) : Except Fault Double := do (← v.toNumber).toDouble

/-- Zero, NaN, the empty text, undefined and null are false; all else is true. -/
def truthy : Value → Except Fault Bool
  | .undefined => .ok false
  | .null => .ok false
  | .bool b => .ok b
  | .number (.int n) => if n = 0 then .ok false else do
    let _ ← (Number.int n).toDouble
    return true
  | .number (.float d) => .ok (!(d.isZero || d.isNaN))
  | .text s => .ok (s != "")
  | .array _ => .ok true
  | .foreign => .error .foreign

/-- The name of a value's type. -/
def typeName : Value → Except Fault String
  | .undefined => .ok "undefined"
  | .null => .ok "object"
  | .bool _ => .ok "boolean"
  | .number _ => .ok "number"
  | .text _ => .ok "string"
  | .array _ => .ok "object"
  | .foreign => .error .foreign

/-! ## The low 32 bits -/

/-- The integral part of a value; NaN and the infinities count as zero. -/
def toInteger (v : Value) : Except Fault Int := do
  let n ← v.toNumber
  let _ ← n.toDouble
  return (n.truncate?).getD 0

/-- The low 32 bits of an integer, as a natural number. -/
def low32 (n : Int) : Nat := (n % 0x100000000).toNat

/-- The signed reading of 32 bits. -/
def signed32 (bits : Nat) : Int := if bits < 0x80000000 then bits else (bits : Int) - 0x100000000

/-- The signed reading of the low 32 bits of an integer. -/
def wrap32 (n : Int) : Int := signed32 (low32 n)

/-- The low 32 bits of a value, read as a signed integer. -/
def toInt32 (v : Value) : Except Fault Int := do return wrap32 (← v.toInteger)

/-- The low 32 bits of a value, read as an unsigned integer. -/
def toUint32 (v : Value) : Except Fault Nat := do return low32 (← v.toInt32)

/-- Can the value be written as a literal?  Texts and truth values can, and finite numbers. -/
def isLiteral : Value → Except Fault Bool
  | .text _ => .ok true
  | .bool _ => .ok true
  | .number n => do return (← n.toDouble).isFinite
  | _ => .ok false

end Value

end Descramble

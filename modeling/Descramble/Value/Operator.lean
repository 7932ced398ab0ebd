import Descramble.Value
import Descramble.Double.Power

/-!
# Operators on values

* `BinaryOp`, `UnaryOp` — the operators that can be computed, with their spellings.
* `Value.add`, `Value.power`, `Value.strictEquals`, `Value.looseEquals`, … — their meaning.
* `BinaryOp.apply`, `UnaryOp.apply` — one entry for all.

Operands are converted from left to right, so the fault of the left operand is reported first.
-/

set_option autoImplicit false

namespace Descramble

namespace Value

/-! ## Arithmetic -/

/-- A text that is not longer than the limit. -/
def checkedText (cs : List Char) : Except Fault Value :=
  if maxTextLength < cs.length then .error (.textTooLong cs.length)
  else .ok (.text (String.ofList cs))

/-- Applies an operation on doubles and brings the result to its normal form. -/
def arithmetic (op : Double → Double → Double) (left right : Value) : Except Fault Value := do
  let a ← left.toDouble
  let b ← right.toDouble
  return .number (.ofDouble (op a b))

/-- An array as its text; other values stay. -/
def flattened : Value → Except Fault Value
  | .array items => do return .text (← toText (.array items))
  | v => .ok v

/-- Concatenation if one side is a text or an array, else addition. -/
def add (left right : Value) : Except Fault Value := do
  let l ← left.flattened
  let r ← right.flattened
  if l.isText || r.isText then
    let a ← l.toText
    let b ← r.toText
    checkedText (a.toList ++ b.toList)
  else arithmetic Double.add l r

def sub (left right : Value) : Except Fault Value := arithmetic Double.sub left right

def mul (left right : Value) : Except Fault Value := arithmetic Double.mul left right

def div (left right : Value) : Except Fault Value := arithmetic Double.div left right

/-- The remainder with the sign of the dividend. -/
def mod (left right : Value) : Except Fault Value := arithmetic Double.fmod left right

/-- A power; poles, overflows and fractional powers of negative numbers are NaN, and exponents
beyond `maxPower` are refused. -/
def power (left right : Value) : Except Fault Value := do
  let base ← left.toDouble
  let exponent ← right.toDouble
  if (Double.ofInt maxPower).lt exponent.abs then .error (.powerTooHigh base exponent)
  else
    match base.pow? exponent with
    | some d => return .number (.ofDouble d)
    | none => return nan

def neg (v : Value) : Except Fault Value := do return .number (.ofDouble (← v.toDouble).neg)

def pos (v : Value) : Except Fault Value := do return .number (← v.toNumber).normalize

/-! ## Bits

A negative integer stands for the digits of its two's complement, which go on with ones for ever. -/

/-- The digits that both integers have. -/
def intAnd : Int → Int → Int
  | .ofNat m, .ofNat n => .ofNat (m &&& n)
  | .ofNat m, .negSucc n => .ofNat (m ^^^ (m &&& n))
  | .negSucc m, .ofNat n => .ofNat (n ^^^ (n &&& m))
  | .negSucc m, .negSucc n => .negSucc (m ||| n)

/-- The digits that one of the integers has. -/
def intOr (a b : Int) : Int := ~~~(intAnd (~~~a) (~~~b))

/-- The digits that just one of the integers has. -/
def intXor : Int → Int → Int
  | .ofNat m, .ofNat n => .ofNat (m ^^^ n)
  | .ofNat m, .negSucc n => .negSucc (m ^^^ n)
  | .negSucc m, .ofNat n => .negSucc (m ^^^ n)
  | .negSucc m, .negSucc n => .ofNat (m ^^^ n)

/-- Applies an operation to the signed readings of the low 32 bits, and reads the low 32 bits of the
result so. -/
def bitwise (op : Int → Int → Int) (left right : Value) : Except Fault Value := do
  let a ← left.toInt32
  let b ← right.toInt32
  return ofInt (wrap32 (op a b))

def bitAnd (left right : Value) : Except Fault Value := bitwise intAnd left right

def bitOr (left right : Value) : Except Fault Value := bitwise intOr left right

def bitXor (left right : Value) : Except Fault Value := bitwise intXor left right

def bitNot (v : Value) : Except Fault Value := do return ofInt (wrap32 (~~~(← v.toInt32)))

/-- Shift left, of which the low 32 bits are read; the low five bits of the right operand are the
distance. -/
def shiftLeft (left right : Value) : Except Fault Value := do
  let a ← left.toInt32
  let b ← right.toUint32
  return ofInt (wrap32 (a <<< (b &&& 31)))

/-- Shift right that keeps the sign. -/
def shiftRight (left right : Value) : Except Fault Value := do
  let a ← left.toInt32
  let b ← right.toUint32
  return ofInt (a >>> (b &&& 31))

/-- Shift right of the unsigned 32 bits. -/
def shiftRightUnsigned (left right : Value) : Except Fault Value := do
  let a ← left.toUint32
  let b ← right.toUint32
  return ofInt (a >>> (b &&& 31) : Nat)

/-! ## Comparison -/

/-- Equality without conversion.  Two arrays are never the same array. -/
def strictEquals : Value → Value → Except Fault Bool
  | .bool a, .bool b => .ok (a == b)
  | .number a, .number b => do return (← a.toDouble).eq (← b.toDouble)
  | .text a, .text b => .ok (a == b)
  | .undefined, .undefined => .ok true
  | .null, .null => .ok true
  | _, _ => .ok false

/-- Equality with conversion to numbers; undefined and null equal only each other. -/
def looseEquals (left right : Value) : Except Fault Bool :=
  if left.isNullish || right.isNullish then .ok (left.isNullish && right.isNullish)
  else if left.isArray && right.isArray then .ok false
  else if left.isArray || right.isArray then .error .objectComparison
  else do
    if (← left.typeName) = (← right.typeName) then strictEquals left right
    else return (← left.toDouble).eq (← right.toDouble)

/-- An order relation. -/
inductive Relation where
  | lt
  | gt
  | le
  | ge
  deriving DecidableEq, Repr

/-- Texts are compared by code points. -/
def Relation.holdsText (r : Relation) (a b : String) : Bool :=
  match r with
  | .lt => decide (a < b)
  | .gt => decide (b < a)
  | .le => !decide (b < a)
  | .ge => !decide (a < b)

def Relation.holdsDouble (r : Relation) (a b : Double) : Bool :=
  match r with
  | .lt => a.lt b
  | .gt => b.lt a
  | .le => a.le b
  | .ge => b.le a

/-- Two texts are compared as texts, other values as numbers; arrays are not compared. -/
def relational (r : Relation) (left right : Value) : Except Fault Bool :=
  if left.isArray || right.isArray then .error .objectComparison
  else
    match left, right with
    | .text a, .text b => .ok (r.holdsText a b)
    | left, right => do
      let a ← left.toDouble
      let b ← right.toDouble
      return r.holdsDouble a b

end Value

/-! ## Operators by their spelling -/

/-- The binary operators that can be computed. -/
inductive BinaryOp where
  | add
  | sub
  | mul
  | div
  | mod
  | power
  | bitAnd
  | bitOr
  | bitXor
  | shiftLeft
  | shiftRight
  | shiftRightUnsigned
  | strictEq
  | strictNe
  | looseEq
  | looseNe
  | relation (r : Value.Relation)
  deriving DecidableEq, Repr

namespace BinaryOp

def ofSymbol? (symbol : String) : Option BinaryOp :=
  match symbol with
  | "+" => some .add
  | "-" => some .sub
  | "*" => some .mul
  | "/" => some .div
  | "%" => some .mod
  | "**" => some .power
  | "&" => some .bitAnd
  | "|" => some .bitOr
  | "^" => some .bitXor
  | "<<" => some .shiftLeft
  | ">>" => some .shiftRight
  | ">>>" => some .shiftRightUnsigned
  | "===" => some .strictEq
  | "!==" => some .strictNe
  | "==" => some .looseEq
  | "!=" => some .looseNe
  | "<" => some (.relation .lt)
  | ">" => some (.relation .gt)
  | "<=" => some (.relation .le)
  | ">=" => some (.relation .ge)
  | _ => none

/-- The result of an operator. -/
def apply (op : BinaryOp) (left right : Value) : Except Fault Value :=
  match op with
  | .add => left.add right
  | .sub => left.sub right
  | .mul => left.mul right
  | .div => left.div right
  | .mod => left.mod right
  | .power => left.power right
  | .bitAnd => left.bitAnd right
  | .bitOr => left.bitOr right
  | .bitXor => left.bitXor right
  | .shiftLeft => left.shiftLeft right
  | .shiftRight => left.shiftRight right
  | .shiftRightUnsigned => left.shiftRightUnsigned right
  | .strictEq => do return .bool (← left.strictEquals right)
  | .strictNe => do return .bool (!(← left.strictEquals right))
  | .looseEq => do return .bool (← left.looseEquals right)
  | .looseNe => do return .bool (!(← left.looseEquals right))
  | .relation r => do return .bool (← Value.relational r left right)

end BinaryOp

/-- The unary operators that can be computed. -/
inductive UnaryOp where
  | neg
  | pos
  | not
  | bitNot
  | typeOf
  | void
  deriving DecidableEq, Repr

namespace UnaryOp

def ofSymbol? (symbol : String) : Option UnaryOp :=
  match symbol with
  | "-" => some .neg
  | "+" => some .pos
  | "!" => some .not
  | "~" => some .bitNot
  | "typeof" => some .typeOf
  | "void" => some .void
  | _ => none

/-- The result of an operator. -/
def apply (op : UnaryOp) (v : Value) : Except Fault Value :=
  match op with
  | .neg => v.neg
  | .pos => v.pos
  | .not => do return .bool (!(← v.truthy))
  | .bitNot => v.bitNot
  | .typeOf => do return .text (← v.typeName)
  | .void => .ok .undefined

end UnaryOp

end Descramble

import Descramble.Value.Operator

/-!
# Pure global functions

* `MathFunction` — the functions of the `Math` object.
* `Builtin` — these, the conversion functions, and `String.fromCharCode`.
* `Builtin.apply` — the value of a call.
-/

set_option autoImplicit false

namespace Descramble

/-! ## Functions of the Math object -/

/-- The functions of the `Math` object that can be computed. -/
inductive MathFunction where
  | abs
  | floor
  | ceil
  | round
  | trunc
  | sign
  | sqrt
  | max
  | min
  | pow
  deriving DecidableEq, Repr

namespace MathFunction

def ofName? (name : String) : Option MathFunction :=
  match name with
  | "abs" => some .abs
  | "floor" => some .floor
  | "ceil" => some .ceil
  | "round" => some .round
  | "trunc" => some .trunc
  | "sign" => some .sign
  | "sqrt" => some .sqrt
  | "max" => some .max
  | "min" => some .min
  | "pow" => some .pow
  | _ => none

/-- Rounds a finite double to an exact integer.  A zero result keeps the sign of the argument, and
NaN and the infinities stay. -/
def rounded (rounding : Double → Option Int) (d : Double) : Number :=
  match d, rounding d with
  | .finite _ _, some n => if n = 0 && d.isNegative then .float .negZero else .int n
  | d, _ => .ofDouble d

/-- One half. -/
def half : Double := Double.one.div (Double.ofInt 2)

/-- The sign of a number as `1` or `-1`; zeros and NaN stay. -/
def signOf (d : Double) : Number :=
  if d.isNaN || d.isZero then .ofDouble d
  else .int (if d.isNegative then -1 else 1)

/-- The first of the greatest values, where `above a b` says that `b` beats `a`. -/
def extreme (above : Double → Double → Bool) (empty : Double) (ds : List Double) : Number :=
  if ds.any Double.isNaN then .nan
  else
    match ds with
    | [] => .float empty
    | d :: rest => .ofDouble (rest.foldl (fun best x => if above best x then x else best) d)

/-- A function of one double. -/
def unary (f : Double → Number) : List Double → Except Fault Number
  | [d] => .ok (f d)
  | _ => .error .arity

/-- The function on doubles; a wrong number of arguments is a fault. -/
def onDoubles (f : MathFunction) (ds : List Double) : Except Fault Number :=
  match f with
  | .abs => unary (fun d => .ofDouble d.abs) ds
  | .floor => unary (rounded Double.floor?) ds
  | .ceil => unary (rounded Double.ceil?) ds
  | .round => unary (rounded (fun d => (d.add half).floor?)) ds
  | .trunc => unary (rounded Double.truncate?) ds
  | .sign => unary signOf ds
  | .sqrt => unary (fun d => .ofDouble d.sqrt) ds
  | .max => .ok (extreme (fun best x => best.lt x) (.infinite true) ds)
  | .min => .ok (extreme (fun best x => x.lt best) (.infinite false) ds)
  | .pow => .error .arity

/-- The value of a call.  All arguments are converted before they are counted; a power takes the
first two arguments, absent ones being undefined. -/
def apply (f : MathFunction) (args : List Value) : Except Fault Value :=
  match f with
  | .pow => Value.power (args.getD 0 .undefined) (args.getD 1 .undefined)
  | f => do
    let ds ← args.mapM Value.toDouble
    return .number (← f.onDoubles ds)

end MathFunction

/-! ## Global functions -/

/-- The pure functions that script code can call by a global name. -/
inductive Builtin where
  | parseInt
  | parseFloat
  | number
  | string
  | boolean
  | isNaN
  | isFinite
  | math (f : MathFunction)
  | fromCharCode
  deriving DecidableEq, Repr

namespace Builtin

/-- The function with a global name. -/
def ofName? (name : String) : Option Builtin :=
  match name with
  | "parseInt" => some .parseInt
  | "parseFloat" => some .parseFloat
  | "Number" => some .number
  | "String" => some .string
  | "Boolean" => some .boolean
  | "isNaN" => some .isNaN
  | "isFinite" => some .isFinite
  | _ => none

/-- The function that is a member of a global object. -/
def ofMember? (object name : String) : Option Builtin :=
  if object = "Math" then (MathFunction.ofName? name).map .math
  else if object = "String" ∧ name = "fromCharCode" then some .fromCharCode
  else none

/-- The integer at the start of a text, in the radix of the second argument. -/
def readInteger (text radix : Value) : Except Fault Value := do
  let s ← text.toText
  match radix with
  | .undefined => return .number (Number.parseInteger s.toList 0)
  | radix => return .number (Number.parseInteger s.toList (← radix.toInt32))

/-- The characters with the given codes, each taken modulo `2^16`. -/
def charsOfCodes (codes : List Nat) : Except Fault (List Char) :=
  let units := codes.map (· % 0x10000)
  if units.any (fun u => 0xD800 ≤ u && u ≤ 0xDFFF) then .error .surrogate
  else .ok (units.map Char.ofNat)

/-- The value of a call. -/
def apply (f : Builtin) (args : List Value) : Except Fault Value :=
  match f with
  | .parseInt => readInteger (args.getD 0 .undefined) (args.getD 1 .undefined)
  | .parseFloat => do
    let s ← (args.getD 0 .undefined).toText
    return .number (Number.parseDecimal s.toList)
  | .number =>
    match args with
    | [] => .ok (.ofInt 0)
    | v :: _ => do return .number (← v.toNumber)
  | .string =>
    match args with
    | [] => .ok (.text "")
    | v :: _ => do return .text (← v.toText)
  | .boolean =>
    match args with
    | [] => .ok (.bool false)
    | v :: _ => do return .bool (← v.truthy)
  | .isNaN => do return .bool (← (args.getD 0 .undefined).toDouble).isNaN
  | .isFinite => do return .bool (← (args.getD 0 .undefined).toDouble).isFinite
  | .math f => f.apply args
  | .fromCharCode => do
    let codes ← args.mapM Value.toUint32
    return .text (String.ofList (← charsOfCodes codes))

end Builtin

end Descramble

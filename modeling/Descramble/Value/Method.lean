import Descramble.Value.Operator
import Descramble.Unicode.Casing

/-!
# Methods and members of texts and arrays

* `Value.callMethod`, `Value.callNamed` — the value of a method call.
* `Value.member` — the value of a member access: the length, or the item at an index.

An index argument is converted to a number first.  `slice` counts negative indexes from the end;
`substring` and `indexOf` take them as zero.
-/

set_option autoImplicit false

namespace Descramble

namespace Value

/-! ## Indexes -/

/-- The double of a value together with its integral part. -/
def indexOf (v : Value) : Except Fault (Double × Int) := do
  let n ← v.toNumber
  return (← n.toDouble, n.truncate?.getD 0)

/-- An index counted from the end when it is negative, kept within the length. -/
def relativeIndex (length default : Nat) (v : Value) : Except Fault Nat :=
  match v with
  | .undefined => .ok default
  | v => do
    match ← v.indexOf with
    | (.nan, _) => return 0
    | (.infinite negative, _) => return if negative then 0 else length
    | (.finite _ _, n) =>
      if n < 0 then return (length + n).toNat else return min n.toNat length

/-- An index kept between zero and the length. -/
def clampedIndex (length default : Nat) (v : Value) : Except Fault Nat :=
  match v with
  | .undefined => .ok default
  | v => do
    match ← v.indexOf with
    | (.nan, _) => return 0
    | (.infinite negative, _) => return if negative then 0 else length
    | (.finite _ _, n) => return min n.toNat length

/-- The part of a list between two positions, empty when they cross. -/
def between {α : Type} (start stop : Nat) (xs : List α) : List α := (xs.take stop).drop start

/-! ## Shared by texts and arrays -/

def slice {α : Type} (xs : List α) (start stop : Value) : Except Fault (List α) := do
  let i ← relativeIndex xs.length 0 start
  let j ← relativeIndex xs.length xs.length stop
  return between i j xs

/-! ## Texts -/

/-- The character at a position, if the position is inside the text. -/
def charAt? (cs : List Char) (index : Value) : Except Fault (Option Char) :=
  match index with
  | .undefined => .ok cs.head?
  | index => do
    match ← index.indexOf with
    | (.nan, _) => return cs.head?
    | (.infinite _, _) => return none
    | (.finite _ _, n) => return if n < 0 then none else cs[n.toNat]?

def substring (cs : List Char) (start stop : Value) : Except Fault (List Char) := do
  let i ← clampedIndex cs.length 0 start
  let j ← clampedIndex cs.length cs.length stop
  return between (min i j) (max i j) cs

/-- The place as a value, `-1` if there is none. -/
def ofPlace (place : Option Nat) : Value :=
  match place with
  | some i => ofInt i
  | none => ofInt (-1)

def textIndexOf (cs : List Char) (needle start : Value) : Except Fault Value := do
  let i ← clampedIndex cs.length 0 start
  let s ← needle.toText
  return ofPlace (Text.findFrom? s.toList i cs)

/-- The pieces of a text, one per character when the separator is empty. -/
def pieces (cs : List Char) (separator : Value) : Except Fault (List (List Char)) :=
  match separator with
  | .undefined => .ok [cs]
  | separator => do
    let s ← separator.toText
    return if s.isEmpty then cs.map ([·]) else Text.splitOn s.toList cs

def split (cs : List Char) (separator limit : Value) : Except Fault Value := do
  let parts ← pieces cs separator
  let kept ← match limit with
    | .undefined => pure parts
    | limit => do pure (parts.take (← limit.toUint32))
  return .array (kept.map fun p => .text (String.ofList p))

/-- The methods of texts. -/
inductive TextMethod where
  | charAt
  | charCodeAt
  | toUpperCase
  | toLowerCase
  | slice
  | substring
  | indexOf
  | trim
  | concat
  | split
  deriving DecidableEq, Repr

def TextMethod.ofName? (name : String) : Option TextMethod :=
  match name with
  | "charAt" => some .charAt
  | "charCodeAt" => some .charCodeAt
  | "toUpperCase" => some .toUpperCase
  | "toLowerCase" => some .toLowerCase
  | "slice" => some .slice
  | "substring" => some .substring
  | "indexOf" => some .indexOf
  | "trim" => some .trim
  | "concat" => some .concat
  | "split" => some .split
  | _ => none

/-- The greatest number of arguments, for the methods that have one. -/
def TextMethod.arity? : TextMethod → Option Nat
  | .charAt => some 1
  | .charCodeAt => some 1
  | .toUpperCase => some 0
  | .toLowerCase => some 0
  | .slice => some 2
  | .substring => some 2
  | .indexOf => some 2
  | .trim => some 0
  | .concat => none
  | .split => some 2

/-- Are there at most as many arguments as a method takes? -/
def arityFits (arity : Option Nat) (args : List Value) : Bool :=
  match arity with
  | some n => decide (args.length ≤ n)
  | none => true

def TextMethod.apply (m : TextMethod) (cs : List Char) (args : List Value) : Except Fault Value :=
  if !arityFits m.arity? args then .error .arity
  else
    let first := args.getD 0 .undefined
    let second := args.getD 1 .undefined
    match m with
    | .charAt => do
      match ← charAt? cs first with
      | some c => return .text (String.ofList [c])
      | none => return .text ""
    | .charCodeAt => do
      match ← charAt? cs first with
      | some c => return ofInt c.toNat
      | none => return nan
    | .toUpperCase => .ok (.text (String.ofList (Unicode.upper cs)))
    | .toLowerCase => .ok (.text (String.ofList (Unicode.lower cs)))
    | .slice => do return .text (String.ofList (← Value.slice cs first second))
    | .substring => do return .text (String.ofList (← Value.substring cs first second))
    | .indexOf => textIndexOf cs first second
    | .trim => .ok (.text (String.ofList (Text.trim Text.isBlank cs)))
    | .concat => do
      let parts ← args.mapM toText
      checkedText (cs ++ parts.flatMap String.toList)
    | .split => Value.split cs first second

/-! ## Arrays -/

/-- The first position at or after `place` whose item equals the needle. -/
def findItem? (needle : Value) : (place : Nat) → List Value → Except Fault (Option Nat)
  | _, [] => .ok none
  | place, item :: rest => do
    if ← strictEquals item needle then return some place
    else findItem? needle (place + 1) rest

def arrayIndexOf (items : List Value) (needle start : Value) : Except Fault Value := do
  let i ← clampedIndex items.length 0 start
  return ofPlace (← findItem? needle i (items.drop i))

def join (items : List Value) (separator : Value) : Except Fault Value := do
  let s ← match separator with
    | .undefined => pure ","
    | separator => separator.toText
  checkedText (Text.joinWith s.toList (← itemTexts items))

/-- The methods of arrays. -/
inductive ArrayMethod where
  | join
  | indexOf
  | slice
  deriving DecidableEq, Repr

def ArrayMethod.ofName? (name : String) : Option ArrayMethod :=
  match name with
  | "join" => some .join
  | "indexOf" => some .indexOf
  | "slice" => some .slice
  | _ => none

def ArrayMethod.arity : ArrayMethod → Nat
  | .join => 1
  | .indexOf => 2
  | .slice => 2

def ArrayMethod.apply (m : ArrayMethod) (items : List Value) (args : List Value) :
    Except Fault Value :=
  if !arityFits (some m.arity) args then .error .arity
  else
    let first := args.getD 0 .undefined
    let second := args.getD 1 .undefined
    match m with
    | .join => Value.join items first
    | .indexOf => arrayIndexOf items first second
    | .slice => do return .array (← Value.slice items first second)

/-! ## Entry points -/

/-- The value of a method call. -/
def callMethod (receiver : Value) (name : String) (args : List Value) : Except Fault Value :=
  match receiver with
  | .text s =>
    match TextMethod.ofName? name with
    | some m => m.apply s.toList args
    | none => .error (.noMethod name)
  | .array items =>
    match ArrayMethod.ofName? name with
    | some m => m.apply items args
    | none => .error (.noMethod name)
  | _ => .error (.noMethod name)

/-- Does the value have methods at all? -/
def hasMethods (v : Value) : Bool := v.isText || v.isArray

/-- The value of a method call whose name is a value too.  Only texts name methods, and a receiver
with methods cannot look one up under an array. -/
def callNamed (receiver name : Value) (args : List Value) : Except Fault Value :=
  match name with
  | .text word => receiver.callMethod word args
  | .array items =>
    if receiver.hasMethods then .error .arrayName
    else .error (.noMethod (Value.array items).shown)
  | name => .error (.noMethod name.shown)

/-- The index that a key of digits spells: not empty, digits only, and no leading zero.  There is no
limit on how many digits are read, where a reader of integers may stop at 4300. -/
def indexOfKey? (key : List Char) : Except Fault (Option Nat) :=
  if key.isEmpty || !key.all Unicode.isDigit then .ok none
  else if key ≠ ['0'] ∧ key.head? = some '0' then .ok none
  else if key.all Unicode.isDecimal then .ok (some (DecimalText.value (DecimalText.digits key).1))
  else .error .placelessDigit

/-- The length, or the item at an index; other members are not known. -/
def memberOf (length : Nat) (item : Nat → Option Value) (key : String) : Except Fault Value :=
  if key = "length" then .ok (ofInt length)
  else do
    match ← indexOfKey? key.toList with
    | some i => return (item i).getD .undefined
    | none => .error (.noMember (Text.shown key))

/-- The value of a member access. -/
def member (receiver key : Value) : Except Fault Value :=
  match receiver with
  | .text s => do
    let cs := s.toList
    memberOf cs.length (fun i => cs[i]?.map fun c => .text (String.ofList [c])) (← key.toText)
  | .array items => do memberOf items.length (fun i => items[i]?) (← key.toText)
  | _ => .error (.noMember key.shown)

end Value

end Descramble

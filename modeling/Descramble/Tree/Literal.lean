import Descramble.Tree.Node
import Descramble.Text.Quoted
import Descramble.Value

/-!
# Literals in trees

* `Node.isTextLiteral`, `Node.isNumberLiteral`, `Node.isIntegerLiteral` — what a literal holds.
* `Node.isLiteralLike` — a literal or a negated number: a node that can be copied freely.
* `Node.ofConstant` — the node that spells a constant; a negative number is a negation.
* `Node.copyLiteral` — a fresh copy of a literal-like node.
-/

set_option autoImplicit false

namespace Descramble

namespace Node

/-- The constant of a literal, also of a regular expression. -/
def constant? : Node → Option Constant
  | .mk (.literal value _ _) _ => some value
  | _ => none

/-- Is the node an identifier, with the given name if there is one? -/
def isIdentifier (node : Node) (name : Option String) : Bool :=
  match node.kind, name with
  | .identifier _, none => true
  | .identifier n, some wanted => n == wanted
  | _, _ => false

def isTextLiteral (node : Node) : Bool :=
  match node.constant? with
  | some (.text _) => true
  | _ => false

def isNumberLiteral (node : Node) : Bool :=
  match node.constant? with
  | some (.number _) => true
  | _ => false

/-- The exact value of a literal that is an integral number.  An integer too large for a double is
a fault. -/
def integerLiteral? (node : Node) : Except Fault (Option Int) :=
  match node.constant? with
  | some (.number n) => do
    let d ← n.toDouble
    return if d.isInteger then n.truncate? else none
  | _ => .ok none

def isIntegerLiteral (node : Node) : Except Fault Bool := do return (← node.integerLiteral?).isSome

/-- A literal other than a regular expression, or the negation of a number. -/
def isLiteralLike : Node → Bool
  | .mk (.literal _ _ regex) _ => regex.isNone
  | .unary1 (.unary "-" _) argument => argument.isNumberLiteral
  | _ => false

end Node

/-- Why a constant has no literal. -/
inductive LiteralError where
  /-- NaN and the infinities cannot be spelled. -/
  | notFinite (d : Double)
  | fault (f : Fault)
  deriving DecidableEq, Repr

/-- The wording of an error. -/
def LiteralError.message? : LiteralError → Option String
  | .notFinite d => some ("no literal form for " ++ d.text)
  | .fault f => f.message?

namespace Node

/-- The spelling of a non-negative number: digits if it is integral. -/
def ofMagnitude (n : Number) (d : Double) : Node :=
  match d.isInteger, n.truncate? with
  | true, some i => .lit (.number (.int i)) (intText i)
  | _, _ => .lit (.number (.float d)) d.text

/-- The node that negates another. -/
def negated (node : Node) : Node := .unary1 (.unary "-" true) node

/-- The node that spells a number. -/
def ofNumber (n : Number) : Except LiteralError Node :=
  match n.toDouble with
  | .error f => .error (.fault f)
  | .ok d =>
    if !d.isFinite then .error (.notFinite d)
    else
      match n with
      | .int i => if i < 0 then .ok (negated (ofMagnitude (.int (-i)) d.neg))
        else .ok (ofMagnitude (.int i) d)
      | .float d => if d.isNegative then .ok (negated (ofMagnitude (.float d.neg) d.neg))
        else .ok (ofMagnitude (.float d) d)

/-- The node that spells a text. -/
def ofText (s : String) : Node := .lit (.text s) (Text.doubleQuoted s)

/-- The node that spells a constant. -/
def ofConstant : Constant → Except LiteralError Node
  | .null => .ok (.lit .null "null")
  | .bool b => .ok (.lit (.bool b) (if b then "true" else "false"))
  | .text s => .ok (ofText s)
  | .number n => ofNumber n

/-- A fresh copy of a literal-like node. -/
def copyLiteral : Node → Node
  | .unary1 (.unary op _) argument => .unary1 (.unary op true) (copyLiteral argument)
  | .mk (.literal value raw _) _ => .lit value raw
  | node => node

end Node

/-- The constant that a value can be written as. -/
def Value.constant? : Value → Option Constant
  | .null => some .null
  | .bool b => some (.bool b)
  | .number n => some (.number n)
  | .text s => some (.text s)
  | _ => none

end Descramble

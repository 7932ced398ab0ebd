import Descramble.Source.Printer.Spelling

/-!
# Pieces of text

A node is printed from its parts, each of which is a `Piece`: the node together with the function
that prints it at a place.

* `Tightness` — how tightly an expression binds.
* `Place` — where a node is printed: how tightly what surrounds it binds, how far it is indented,
  and what is allowed there.
* `joined` — two texts with a blank between them where one is due.
* `inBlock`, `afterBlock` — the body of a statement, and what stands behind it.
* `Node.leftSpine` — the expressions that the text of an expression starts with.
* `Node.endsInOpenIf` — does a statement end in a condition that would take an `else` behind it?
-/

set_option autoImplicit false

namespace Descramble.Source

/-! ## How tightly operators bind -/

namespace Tightness

def sequence : Nat := 0
def assignment : Nat := 1
def conditional : Nat := 2
def coalesce : Nat := 3
def disjunction : Nat := 4
def conjunction : Nat := 5
def bitOr : Nat := 6
def bitXor : Nat := 7
def bitAnd : Nat := 8
def equality : Nat := 9
def relation : Nat := 10
def shift : Nat := 11
def sum : Nat := 12
def product : Nat := 13
def power : Nat := 14
def unary : Nat := 15
def postfixed : Nat := 16
def call : Nat := 18
def construction : Nat := 19
def tagged : Nat := 20
def member : Nat := 21
def primary : Nat := 22

/-- The level of a binary operator. -/
def ofOperator (operator : String) : Nat :=
  match operator with
  | "??" => coalesce
  | "||" => disjunction
  | "&&" => conjunction
  | "|" => bitOr
  | "^" => bitXor
  | "&" => bitAnd
  | "==" | "!=" | "===" | "!==" => equality
  | "<" | ">" | "<=" | ">=" | "in" | "instanceof" => relation
  | "<<" | ">>" | ">>>" => shift
  | "+" | "-" => sum
  | "*" | "/" | "%" => product
  | "**" => power
  | _ => sequence

end Tightness

/-! ## Places -/

/-- Where a node is printed. -/
structure Place where
  /-- An expression that binds less tightly than this needs parentheses. -/
  level : Nat
  indent : Nat
  allowIn : Bool
  allowCall : Bool
  /-- Does the node stand below `??`? -/
  inCoalesce : Bool
  /-- Is the node the function of a method, of which only the parameters and the body are printed? -/
  asMethod : Bool
  /-- Is the node what a loop assigns to, so that a declaration ends behind its first declarator? -/
  asTarget : Bool
  deriving DecidableEq, Repr

namespace Place

/-- The outermost place. -/
def outermost : Place := ⟨Tightness.sequence, 0, true, true, false, false, false⟩

/-- A place of a level where everything is allowed. -/
def expression (p : Place) (level : Nat) : Place := ⟨level, p.indent, true, true, false, false, false⟩

/-- The same place at another level. -/
def atLevel (p : Place) (level : Nat) : Place := { p with level := level }

/-- The place of a statement. -/
def statement (p : Place) : Place := p.expression Tightness.sequence

/-- One step further in. -/
def deeper (p : Place) : Place := { p with indent := p.indent + 1 }

/-- The blanks at the start of a line. -/
def margin (p : Place) : String := String.ofList (List.replicate (4 * p.indent) ' ')

/-- The operator `in` is allowed inside parentheses. -/
def within (p : Place) (level : Nat) : Place :=
  if level < p.level then { p with allowIn := true } else p

end Place

/-! ## Pieces -/

/-- The outcome of printing. -/
abbrev Printing := Except PrintError String

/-- A node and how it is printed. -/
structure Piece where
  node : Node
  print : Place → Printing

/-- The pieces of a child slot. -/
inductive PieceSlot where
  | one (piece : Option Piece)
  | many (pieces : List (Option Piece))

/-- A piece that must be present. -/
def required : Option Piece → Except PrintError Piece
  | some piece => .ok piece
  | none => .error .incomplete

/-- The kind of the node of a piece. -/
def pieceKind? (piece : Option Piece) : Option Kind := piece.map fun piece => piece.node.kind

/-- Prints a piece that must be present. -/
def printed (piece : Option Piece) (p : Place) : Printing := do (← required piece).print p

/-! ## Texts -/

def inParentheses (text : String) : String := "(" ++ text ++ ")"

/-- The text, in parentheses if it binds less tightly than its place. -/
def parenthesized (text : String) (level : Nat) (p : Place) : String :=
  if level < p.level then inParentheses text else text

def firstChar? (text : String) : Option Char := text.toList.head?

def lastChar? (text : String) : Option Char := text.toList.getLast?

def isBreak (c : Char) : Bool := c == '\n' || c == '\r' || c == '\u2028' || c == '\u2029'

def hasBreak (text : String) : Bool := text.toList.any isBreak

def isSpacing (c : Char) : Bool := c == ' ' || c == '\t' || c == '\x0b' || c == '\x0c' || isBreak c

/-- Two texts with a blank between them, unless there is one. -/
def joined (left right : String) : String :=
  match lastChar? left, firstChar? right with
  | some a, some b => if isSpacing a || isSpacing b then left ++ right else left ++ " " ++ right
  | _, _ => left ++ right

/-- Texts with a separator between them. -/
def separated (separator : String) : List String → String
  | [] => ""
  | [text] => text
  | text :: rest => text ++ separator ++ separated separator rest

/-! ## Bodies -/

def isBlockNode (node : Node) : Bool :=
  match node.kind with
  | .block => true
  | _ => false

/-- A body that must be present, where its absence is noticed by its kind. -/
def present (body : Option Piece) : Except PrintError Piece :=
  match body with
  | some piece => .ok piece
  | none => .error .absentBody

/-- The body of a statement with what separates it from the head: a block stands behind it, an empty
statement right behind it, and any other statement in a line of its own. -/
def inBlock (body : Option Piece) (p : Place) : Printing := do
  let piece ← required body
  match piece.node.kind with
  | .block => return " " ++ (← piece.print p.statement)
  | .emptyStatement => return ";"
  | _ =>
    let p := p.deeper.statement
    return "\n" ++ p.margin ++ (← piece.print p)

/-- A statement put in braces, behind a blank. -/
def inBraces (body : Option Piece) (p : Place) : Printing := do
  let text ← printed body p.deeper.statement
  return " \x7b\n" ++ p.deeper.margin ++ text ++ "\n" ++ p.margin ++ "\x7d"

/-- A text with what separates its body from what stands behind it. -/
def afterBlock (body : Option Piece) (text : String) (p : Place) : String :=
  if (body.map (isBlockNode ·.node)).getD false then text ++ " " else text ++ "\n" ++ p.margin

/-! ## How a text starts and ends -/

/-- Does the text of such an expression start with the text of its first child? -/
def startsWithChild : Kind → Bool
  | .member _ => true
  | .call => true
  | .sequence => true
  | .binary _ => true
  | .logical _ => true
  | .assignment _ => true
  | .conditional => true
  | .taggedTemplate => true
  | .update _ leading => !leading
  | _ => false

mutual

/-- The kinds of an expression, of its first child, of the first child of that, and so on, as far as
the text of each starts with the next. -/
def leftSpine : Node → List Kind
  | .mk kind slots => if startsWithChild kind then kind :: leftSpineOfSlots slots else [kind]

def leftSpineOfSlots : List Slot → List Kind
  | .one (some child) :: _ => leftSpine child
  | .many children :: _ => leftSpineOfChildren children
  | _ => []

def leftSpineOfChildren : List (Option Node) → List Kind
  | some child :: _ => leftSpine child
  | _ => []

end

/-- Would a statement that starts with such an expression be read as a block, a function or a
class? -/
def isDeclarative : Kind → Bool
  | .objectExpression => true
  | .objectPattern => true
  | .functionExpression _ => true
  | .classExpression => true
  | _ => false

/-- Does the spine end in the name `let` with an index behind it? -/
def indexesLet : List Kind → Bool
  | [.member true, .identifier "let"] => true
  | _ :: rest => indexesLet rest
  | [] => false

/-- Does the expression start in a way that a statement must not start? -/
def startsDeclaration (e : Node) : Bool :=
  let spine := leftSpine e
  (spine.getLast?.map isDeclarative).getD false || indexesLet spine

mutual

/-- Does a statement end in a condition without alternative, so that an `else` behind it would
belong to that condition? -/
def endsInOpenIf : Node → Bool
  | .mk kind slots =>
    match kind with
    | .ifStatement => alternateIsOpen slots
    | .whileStatement => lastIsOpen slots
    | .forStatement => lastIsOpen slots
    | .forInStatement _ => lastIsOpen slots
    | .forOfStatement => lastIsOpen slots
    | .withStatement => lastIsOpen slots
    | .labeled => lastIsOpen slots
    | _ => false

/-- The same for the alternative of a condition; an absent one leaves it open. -/
def alternateIsOpen : List Slot → Bool
  | [.one none] => true
  | [.one (some alternate)] => endsInOpenIf alternate
  | _ :: rest => alternateIsOpen rest
  | [] => false

/-- The same for the last child. -/
def lastIsOpen : List Slot → Bool
  | [.one (some body)] => endsInOpenIf body
  | _ :: rest => lastIsOpen rest
  | [] => false

end

end Descramble.Source

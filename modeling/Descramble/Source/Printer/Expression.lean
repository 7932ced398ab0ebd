import Descramble.Source.Printer.Piece

/-!
# Printing expressions

One function for each form of expression, from its pieces.  Parentheses stand only where the levels
ask for them.
-/

set_option autoImplicit false

namespace Descramble.Source

/-! ## Numbers -/

/-- A number; one with a sign binds like the operator. -/
def printNumber (n : Number) (p : Place) : Printing := do
  let text ← spelledNumber n
  return if isSigned n then parenthesized text Tightness.unary p else text

/-! ## Operators -/

def printSequence (expressions : List (Option Piece)) (p : Place) : Printing := do
  let inner := (p.within Tightness.sequence).atLevel Tightness.assignment
  let texts ← expressions.mapM (printed · inner)
  return parenthesized (separated ", " texts) Tightness.sequence p

/-- An assignment, or a target with a default value. -/
def printAssignment (operator : String) (left right : Option Piece) (p : Place) : Printing := do
  let inner := p.within Tightness.assignment
  let target ← printed left (inner.atLevel Tightness.call)
  let value ← printed right (inner.atLevel Tightness.assignment)
  return parenthesized (target ++ " " ++ operator ++ " " ++ value) Tightness.assignment p

def printConditional (test consequent alternate : Option Piece) (p : Place) : Printing := do
  let inner := p.within Tightness.conditional
  let test ← printed test (inner.atLevel Tightness.coalesce)
  let consequent ← printed consequent (inner.atLevel Tightness.assignment)
  let alternate ← printed alternate (inner.atLevel Tightness.assignment)
  return parenthesized (test ++ " ? " ++ consequent ++ " : " ++ alternate) Tightness.conditional p

/-- Operators of one level group to the left, powers to the right. -/
def printBinary (operator : String) (left right : Option Piece) (p : Place) : Printing := do
  let level := Tightness.ofOperator operator
  let isPower := operator == "**"
  let inner := p.within level
  let left ← printed left (inner.atLevel (if isPower then Tightness.postfixed else level))
  let right ← printed right (inner.atLevel (if isPower then level else level + 1))
  let text := joined (joined left operator) right
  if operator == "in" && !inner.allowIn then return inParentheses text
  else if (operator == "||" || operator == "&&") && inner.inCoalesce then return inParentheses text
  else return parenthesized text level p

def printLogical (operator : String) (left right : Option Piece) (p : Place) : Printing :=
  printBinary operator left right
    (if operator == "??" then { p with inCoalesce := true } else p)

/-- A sign is kept apart from an equal sign behind it, and a word from its operand. -/
def printUnary (operator : String) (argument : Option Piece) (p : Place) : Printing := do
  let text ← printed argument (p.expression Tightness.unary)
  let text :=
    if 2 < operator.length then joined operator text
    else if (operator == "+" || operator == "-") && lastChar? operator == firstChar? text then
      operator ++ " " ++ text
    else operator ++ text
  return parenthesized text Tightness.unary p

/-- A text of several lines in parentheses, for places where a line break would end the statement. -/
def inOneLine (text : String) : String := if hasBreak text then inParentheses text else text

def printUpdate (operator : String) (leading : Bool) (argument : Option Piece) (p : Place) :
    Printing := do
  if leading then
    let text ← printed argument (p.expression Tightness.unary)
    return parenthesized (operator ++ text) Tightness.unary p
  else
    let text ← printed argument (p.expression Tightness.postfixed)
    return parenthesized (inOneLine text ++ operator) Tightness.postfixed p

def printAwait (argument : Option Piece) (p : Place) : Printing := do
  let text ← printed argument (p.expression Tightness.unary)
  return parenthesized (joined "await" text) Tightness.unary p

def printYield (delegate : Bool) (argument : Option Piece) (p : Place) : Printing := do
  let word := if delegate then "yield*" else "yield"
  let text ← match argument with
    | some piece => do
      pure (joined word (inOneLine (← piece.print (p.expression Tightness.assignment))))
    | none => pure word
  return parenthesized text Tightness.assignment p

/-! ## Members and calls -/

/-- Arguments in parentheses. -/
def printArguments (arguments : List (Option Piece)) (p : Place) : Printing := do
  let texts ← arguments.mapM (printed · (p.expression Tightness.assignment))
  return inParentheses (separated ", " texts)

def printCall (callee : Option Piece) (arguments : List (Option Piece)) (p : Place) : Printing := do
  let text := (← printed callee (p.expression Tightness.call)) ++ (← printArguments arguments p)
  if p.allowCall then return parenthesized text Tightness.call p else return inParentheses text

def printNew (callee : Option Piece) (arguments : List (Option Piece)) (p : Place) : Printing := do
  let callee ← printed callee { p.expression Tightness.construction with allowCall := false }
  let text := joined "new" callee ++ (← printArguments arguments p)
  return parenthesized text Tightness.construction p

/-- Does the spelling of a number end in a way that a point behind it would belong to the number? -/
def takesPoint (text : String) : Bool :=
  let cs := text.toList
  !cs.any (fun c => c == '.' || c == 'e' || c == 'E' || c == 'x' || c == 'X') &&
    (cs.getLast?.map Char.isDigit).getD false && !(2 ≤ cs.length && cs.head? == some '0')

/-- Is the node a number? -/
def isNumberNode (node : Node) : Bool :=
  match node.kind with
  | .literal (.number _) _ none => true
  | _ => false

def printMember (computed : Bool) (object property : Option Piece) (p : Place) : Printing := do
  let piece ← required object
  let text ← piece.print { p.expression Tightness.call with allowCall := p.allowCall }
  if computed then
    let key ← printed property { p.expression Tightness.sequence with allowCall := p.allowCall }
    return parenthesized (text ++ "[" ++ key ++ "]") Tightness.member p
  else
    let gap := if isNumberNode piece.node && takesPoint text then " " else ""
    let name ← printed property (p.expression Tightness.primary)
    return parenthesized (text ++ gap ++ "." ++ name) Tightness.member p

def printMeta (word property : Option Piece) (p : Place) : Printing := do
  let word ← printed word (p.expression Tightness.primary)
  let property ← printed property (p.expression Tightness.primary)
  return parenthesized (word ++ "." ++ property) Tightness.member p

/-! ## Templates -/

/-- The pieces of a template with its expressions between them. -/
def weave : List String → List String → List String
  | [], _ => []
  | [piece], _ => [piece]
  | piece :: pieces, [] => piece :: weave pieces []
  | piece :: pieces, e :: es => piece :: ("$\x7b " ++ e ++ " \x7d") :: weave pieces es

def printTemplate (quasis expressions : List (Option Piece)) (p : Place) : Printing := do
  let pieces ← quasis.mapM (printed · (p.expression Tightness.primary))
  let texts ← expressions.mapM (printed · (p.expression Tightness.sequence))
  return "\x60" ++ String.join (weave pieces texts) ++ "\x60"

def printTagged (tag quasi : Option Piece) (p : Place) : Printing := do
  let tag ← printed tag { p.expression Tightness.call with allowCall := p.allowCall }
  let quasi ← printed quasi (p.expression Tightness.primary)
  return parenthesized (tag ++ quasi) Tightness.tagged p

/-! ## Arrays and objects -/

/-- The elements of an array with their commas; an absent element prints as nothing, and a last one
that is absent needs a comma of its own. -/
def elementTexts (p : Place) : List (Option Piece) → Except PrintError (List String)
  | [] => .ok []
  | [none] => .ok [","]
  | none :: rest => do return "" :: (← elementTexts p rest)
  | some piece :: rest => do
    return (← piece.print (p.expression Tightness.assignment)) :: (← elementTexts p rest)

/-- Parts in brackets, each in a line of its own. -/
def inLines (opening closing : String) (texts : List String) (p : Place) : String :=
  opening ++ "\n" ++ separated ",\n" (texts.map (p.deeper.margin ++ ·)) ++ "\n" ++ p.margin ++ closing

def printArray (elements : List (Option Piece)) (p : Place) : Printing := do
  let texts ← elementTexts p.deeper elements
  match texts with
  | [] => return "[]"
  | [text] => return "[" ++ text ++ "]"
  | _ => return inLines "[" "]" texts p

def printArrayPattern (elements : List (Option Piece)) (p : Place) : Printing := do
  return "[" ++ separated ", " (← elementTexts p.deeper elements) ++ "]"

def printObject (properties : List (Option Piece)) (p : Place) : Printing := do
  let texts ← properties.mapM (printed · (p.deeper.expression Tightness.sequence))
  match texts with
  | [] => return "\x7b\x7d"
  | [text] =>
    if hasBreak text then return inLines "\x7b" "\x7d" [text] p
    else return "\x7b " ++ text ++ " \x7d"
  | _ => return inLines "\x7b" "\x7d" texts p

def isShorthand (node : Node) : Bool :=
  match node.kind with
  | .property _ _ _ shorthand => shorthand
  | _ => true

/-- Is the value of the property a name, or is there no property? -/
def bindsName (node : Node) : Bool :=
  match node with
  | .mk (.property _ _ _ _) [_, .one (some value)] =>
    match value.kind with
    | .identifier _ => true
    | _ => false
  | _ => true

/-- Does an object pattern fit in one line? -/
def fitsLine (properties : List (Option Piece)) : Bool :=
  match properties with
  | [some piece] => bindsName piece.node
  | _ => properties.all fun piece => (piece.map (isShorthand ·.node)).getD true

def printObjectPattern (properties : List (Option Piece)) (p : Place) : Printing := do
  let texts ← properties.mapM (printed · (p.deeper.expression Tightness.sequence))
  if texts.isEmpty || fitsLine properties then
    return "\x7b" ++ separated ", " texts ++ "\x7d"
  else return inLines "\x7b" "\x7d" texts p

/-! ## Functions -/

/-- The parameters of a function in parentheses. -/
def printParameters (params : List (Option Piece)) (p : Place) : Printing := do
  let texts ← params.mapM (printed · (p.expression Tightness.assignment))
  return inParentheses (separated ", " texts)

/-- The parameters and the body of a function. -/
def printFunctionRest (params : List (Option Piece)) (body : Option Piece) (p : Place) :
    Printing := do
  return (← printParameters params p) ++ (← inBlock body p)

def asyncWord (flags : FunctionFlags) : String := if flags.isAsync then "async " else ""

def printFunction (flags : FunctionFlags) (id : Option Piece) (params : List (Option Piece))
    (body : Option Piece) (p : Place) : Printing := do
  if p.asMethod then return (← printFunctionRest params body p)
  let name ← match id with
    | some piece => piece.print (p.expression Tightness.primary)
    | none => pure ""
  let star := if flags.generator then "* " else " "
  return asyncWord flags ++ "function" ++ star ++ name ++ (← printFunctionRest params body p)

/-- The parameters of an arrow function: a single name has no parentheses. -/
def printArrowParameters (params : List (Option Piece)) (p : Place) : Printing :=
  match params with
  | [some piece] =>
    match piece.node.kind with
    | .identifier _ => piece.print (p.expression Tightness.primary)
    | _ => printParameters params p
  | _ => printParameters params p

/-- The body of an arrow function; an expression that starts with a brace is put in parentheses. -/
def printArrowBody (body : Option Piece) (p : Place) : Printing := do
  let piece ← required body
  if isBlockNode piece.node then inBlock body p
  else
    let text ← piece.print (p.expression Tightness.assignment)
    if firstChar? text == some '{' then return " " ++ inParentheses text
    else return " " ++ text

/-- An arrow function.  Its flag must say whether its body is an expression. -/
def printArrow (flags : FunctionFlags) (params : List (Option Piece)) (body : Option Piece)
    (p : Place) : Printing := do
  if flags.expression == isBlockNode (← required body).node then .error .arrowBody
  let text := asyncWord flags ++ (← printArrowParameters params p) ++ " =>" ++
    (← printArrowBody body p)
  return parenthesized text Tightness.conditional p

/-! ## Properties and methods -/

def printKey (computed : Bool) (key : Option Piece) (p : Place) : Printing := do
  let text ← printed key (p.expression Tightness.assignment)
  return if computed then "[" ++ text ++ "]" else text

/-- The words in front of the key of a method. -/
def methodWords (flags : FunctionFlags) : String :=
  asyncWord flags ++ (if flags.generator then "* " else "")

/-- The words in front of the key of a method whose function this is. -/
def wordsOf (value : Option Piece) : String :=
  match pieceKind? value with
  | some (.functionExpression flags) => methodWords flags
  | _ => ""

/-- The parameters and the body of a method. -/
def printMethodRest (value : Option Piece) (p : Place) : Printing :=
  printed value { p.expression Tightness.sequence with asMethod := true }

/-- A getter or a setter. -/
def printAccessor (word : String) (computed : Bool) (key value : Option Piece) (p : Place) :
    Printing := do
  return word ++ " " ++ (← printKey computed key p) ++ (← printMethodRest value p)

def printMethod (computed : Bool) (key value : Option Piece) (p : Place) : Printing := do
  return wordsOf value ++ (← printKey computed key p) ++ (← printMethodRest value p)

/-- A property written by its name alone; a default value stands behind it. -/
def printShorthand (computed : Bool) (key value : Option Piece) (p : Place) : Printing :=
  match pieceKind? value with
  | some .assignmentPattern => printed value (p.expression Tightness.sequence)
  | _ => printKey computed key p

def printProperty (computed : Bool) (kind : PropertyKind) (method shorthand : Bool)
    (key value : Option Piece) (p : Place) : Printing :=
  match kind with
  | .get => printAccessor "get" computed key value p
  | .set => printAccessor "set" computed key value p
  | .init =>
    if shorthand then printShorthand computed key value p
    else if method then printMethod computed key value p
    else do
      let value ← printed value (p.expression Tightness.assignment)
      return (← printKey computed key p) ++ ": " ++ value

def printMethodDefinition (computed : Bool) (kind : MethodKind) (isStatic : Bool)
    (key value : Option Piece) (p : Place) : Printing := do
  let text ← match kind with
    | .get => printAccessor "get" computed key value p
    | .set => printAccessor "set" computed key value p
    | _ => printMethod computed key value p
  return if isStatic then "static " ++ text else text

/-! ## Classes -/

def printClassBody (members : List (Option Piece)) (p : Place) : Printing := do
  let texts ← members.mapM (printed · (p.deeper.expression Tightness.sequence))
  let lines := texts.map fun text => p.deeper.margin ++ text ++ "\n"
  return "\x7b\n" ++ String.join lines ++ p.margin ++ "\x7d"

def printClass (id superClass body : Option Piece) (p : Place) : Printing := do
  let name ← match id with
    | some piece => do pure (" " ++ (← piece.print (p.expression Tightness.sequence)))
    | none => pure ""
  let base ← match superClass with
    | some piece => do pure (" extends " ++ (← piece.print (p.expression Tightness.unary)))
    | none => pure ""
  return "class" ++ name ++ base ++ " " ++ (← printed body p.statement)

end Descramble.Source

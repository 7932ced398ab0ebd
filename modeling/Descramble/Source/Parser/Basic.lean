import Descramble.Source.Token
import Descramble.Tree.Node

/-!
# The state of the parser

* `Parser` — a computation that reads tokens and may fail.
* `advance`, `expect`, `accept` — reading tokens; one token is always looked ahead.
* `isolated`, `inherited` — the two ways in which an expression may later turn out to be a pattern:
  kept apart from, or handed on to, the expression around it.
* `Goal`, `Operand` — the parts of the grammar that refer to each other, and what they yield.
* `pattern` forms — `asPattern` reads an expression again as a pattern.
-/

set_option autoImplicit false

namespace Descramble.Source

/-- A place in the source, with the column counted from zero. -/
structure Marker where
  index : Nat
  line : Nat
  column : Nat
  deriving DecidableEq, Repr

/-- What is allowed where the parser stands. -/
structure Mode where
  isAwait : Bool := false
  allowIn : Bool := true
  allowStrictDirective : Bool := true
  allowYield : Bool := true
  /-- The equals sign of a shorthand property with an initial value, which only a pattern may have. -/
  pendingInitializer : Option Token := none
  isAssignmentTarget : Bool := false
  isBindingElement : Bool := false
  inFunctionBody : Bool := false
  inIteration : Bool := false
  inSwitch : Bool := false
  labels : List String := []
  strict : Bool := false
  deriving Repr

/-- The state of the parser. -/
structure State where
  source : List Char
  scan : Scan
  lookahead : Token
  /-- Does a line end stand before the lookahead? -/
  newline : Bool
  startMarker : Marker
  lastMarker : Marker
  mode : Mode
  /-- The tokens of the names that the current pattern binds, the latest first. -/
  bound : List Token
  deriving Repr

/-- A computation of the parser. -/
abbrev Parser := StateT State (Except ParseError)

/-- What the scan cannot read, the parser cannot read. -/
instance : MonadLift (Except ParseFailure) (Except ParseError) := ⟨fun r => r.mapError .failure⟩

/-! ## Failures -/

def failWith {α : Type} (f : ParseFailure) : Parser α := fun _ => .error (.failure f)

/-- Fails at a piece of a template that continues none. -/
def failHeadless {α : Type} : Parser α := fun _ => .error .headlessTemplate

/-- Fails at the end of the last token that was read. -/
def failAtLast {α : Type} (problem : String) : Parser α := do
  let s ← get
  failWith ⟨problem, s.lastMarker.line, s.lastMarker.column + 1⟩

/-- Fails in the column of the last token that was read and in the line that the scan has
reached. -/
def failInLine {α : Type} (problem : String) : Parser α := do
  let s ← get
  failWith ⟨problem, s.scan.line, s.lastMarker.column + 1⟩

/-- The words that are reserved for later versions of the language. -/
def isFutureWord (word : String) : Bool := ["enum", "export", "import", "super"].contains word

/-- The words that are reserved in strict code. -/
def isStrictWord (word : String) : Bool :=
  ["implements", "interface", "package", "private", "protected", "public", "static", "yield",
    "let"].contains word

/-- The names that strict code may not bind. -/
def isRestrictedName (word : String) : Bool := word = "eval" || word = "arguments"

/-- What is wrong with a token that was not expected. -/
def unexpectedProblem (strict : Bool) (t : Token) : String :=
  match t.kind with
  | .eof => "Unexpected end of input"
  | .identifier => "Unexpected identifier"
  | .number _ _ => "Unexpected number"
  | .string _ => "Unexpected string"
  | .template _ _ _ => "Unexpected quasi " ++ t.text
  | .keyword =>
    if isFutureWord t.text then "Unexpected reserved word"
    else if strict && isStrictWord t.text then "Use of future reserved word in strict mode"
    else "Unexpected token " ++ t.text
  | _ => "Unexpected token " ++ t.text

/-- Fails at a token, with a problem of its own or because it was not expected.  The column is counted
from the start of the line in which the last token ended. -/
def failAt {α : Type} (t : Token) (problem : Option String) : Parser α := do
  let s ← get
  let lineStart : Int := (s.lastMarker.index : Int) - s.lastMarker.column
  failWith ⟨problem.getD (unexpectedProblem s.mode.strict t), t.line, t.start - lineStart + 1⟩

def unexpected {α : Type} (t : Token) : Parser α := failAt t none

/-! ## Reading tokens -/

/-- The place that a scan has reached. -/
def markerOf (s : Scan) : Marker := ⟨s.index, s.line, s.index - s.lineStart⟩

/-- Reads the token that was looked ahead, and looks ahead for the next one. -/
def advance : Parser Token := do
  let s ← get
  let token := s.lookahead
  let scan ← s.scan.skipBlanks
  let start := if scan.index = s.startMarker.index then s.startMarker else markerOf scan
  let (next, scan) ← scan.next
  let next :=
    if s.mode.strict && next.kind == .identifier && isStrictWord next.text then
      { next with kind := .keyword }
    else next
  set { s with
    lastMarker := markerOf s.scan
    startMarker := start
    scan := scan
    lookahead := next
    newline := token.line != next.line }
  return token

/-- The state before the first token. -/
def State.ofSource (source : List Char) : State :=
  let scan := Scan.ofSource source
  { source := source
    scan := scan
    lookahead := ⟨.eof, "", 0, 0, scan.line⟩
    newline := false
    startMarker := ⟨0, scan.line, 0⟩
    lastMarker := ⟨0, scan.line, 0⟩
    mode := {}
    bound := [] }

/-- Looks ahead for the first token. -/
def start : Parser Unit := do
  let _ ← advance
  modify fun s => { s with lastMarker := markerOf s.scan }

def peek : Parser Token := do return (← get).lookahead

def getMode : Parser Mode := do return (← get).mode

def modifyMode (f : Mode → Mode) : Parser Unit := modify fun s => { s with mode := f s.mode }

/-- The spelling of a token in the source. -/
def rawOf (t : Token) : Parser String := do
  return String.ofList (((← get).source.drop t.start).take (t.stop - t.start))

/-- Is the lookahead this punctuator? -/
def sees (p : String) : Parser Bool := do
  let t ← peek
  return t.kind == .punctuator && t.text == p

/-- Is the lookahead this keyword? -/
def seesKeyword (word : String) : Parser Bool := do
  let t ← peek
  return t.kind == .keyword && t.text == word

/-- Is the lookahead this word, which is a keyword only in some places? -/
def seesWord (word : String) : Parser Bool := do
  let t ← peek
  return t.kind == .identifier && t.text == word

def seesEnd : Parser Bool := do return (← peek).kind == .eof

/-- Reads this punctuator. -/
def expect (p : String) : Parser Unit := do
  let t ← advance
  if t.kind == .punctuator && t.text == p then return else unexpected t

/-- Reads this keyword. -/
def expectKeyword (word : String) : Parser Unit := do
  let t ← advance
  if t.kind == .keyword && t.text == word then return else unexpected t

/-- Reads this punctuator if it is the lookahead. -/
def accept (p : String) : Parser Bool := do
  if ← sees p then
    let _ ← advance
    return true
  else return false

/-- The end of a statement: a semicolon, or a place where one is understood. -/
def endStatement : Parser Unit := do
  let closed ← accept ";"
  let s ← get
  if !closed && !s.newline then
    if s.lookahead.kind != .eof && !(← sees "\x7d") then unexpected s.lookahead
    set { s with lastMarker := s.startMarker }

/-- What follows the lookahead, without reading it.  A brace that is seen so counts among the open
braces, and counts again when it is read. -/
def peekSecond : Parser Token := do
  let s ← get
  let scan ← s.scan.skipBlanks
  let (t, after) ← scan.next
  set { s with scan := { s.scan with braces := after.braces } }
  return t

/-! ## Loops -/

/-- Repeats a step until it yields nothing more; `fuel` bounds the number of repetitions. -/
def repeatSteps {α : Type} (step : Parser (Option α)) : (fuel : Nat) → Parser (List α)
  | 0 => return []
  | fuel + 1 => do
    match ← step with
    | some a => return a :: (← repeatSteps step fuel)
    | none => return []

/-- Repeats a step until it yields nothing more.  Each step reads a token, so that the length of the
source bounds their number. -/
def repeated {α : Type} (step : Parser (Option α)) : Parser (List α) := do
  repeatSteps step ((← get).source.length + 2)

/-- Carries a value through steps until one ends the loop. -/
def loopSteps {α : Type} (step : α → Parser (α × Bool)) : (fuel : Nat) → α → Parser α
  | 0, a => return a
  | fuel + 1, a => do
    let (b, more) ← step a
    if more then loopSteps step fuel b else return b

/-- Carries a value through steps until one ends the loop. -/
def looped {α : Type} (start : α) (step : α → Parser (α × Bool)) : Parser α := do
  loopSteps step ((← get).source.length + 2) start

/-! ## Expressions that may become patterns -/

/-- The expression is no target and no element of a binding. -/
def notPattern : Parser Unit :=
  modifyMode fun m => { m with isAssignmentTarget := false, isBindingElement := false }

/-- The expression may be assigned to, but not bound. -/
def assignableOnly : Parser Unit :=
  modifyMode fun m => { m with isAssignmentTarget := true, isBindingElement := false }

/-- Reads an expression that cannot become a part of a pattern around it. -/
def isolated {α : Type} (p : Parser α) : Parser α := do
  let outer ← getMode
  modifyMode fun m => { m with
    isBindingElement := true, isAssignmentTarget := true, pendingInitializer := none }
  let a ← p
  match (← getMode).pendingInitializer with
  | some t => unexpected t
  | none =>
    modifyMode fun m => { m with
      isBindingElement := outer.isBindingElement
      isAssignmentTarget := outer.isAssignmentTarget
      pendingInitializer := outer.pendingInitializer }
    return a

/-- Reads an expression that can become a part of a pattern around it. -/
def inherited {α : Type} (p : Parser α) : Parser α := do
  let outer ← getMode
  modifyMode fun m => { m with
    isBindingElement := true, isAssignmentTarget := true, pendingInitializer := none }
  let a ← p
  modifyMode fun m => { m with
    isBindingElement := m.isBindingElement && outer.isBindingElement
    isAssignmentTarget := m.isAssignmentTarget && outer.isAssignmentTarget
    pendingInitializer := outer.pendingInitializer <|> m.pendingInitializer }
  return a

/-- Runs a computation with a changed mode of which `restore` takes back a part. -/
def withMode {α : Type} (change : Mode → Mode) (restore : Mode → Mode → Mode) (p : Parser α) :
    Parser α := do
  let outer ← getMode
  modifyMode change
  let a ← p
  modifyMode (restore outer)
  return a

mutual

/-- An expression read again as a pattern. -/
def asPattern : Node → Node
  | .mk .spread [.one (some argument)] => .mk .restElement [.one (some (asPattern argument))]
  | .mk .arrayExpression [.many elements] => .mk .arrayPattern [.many (asPatterns elements)]
  | .mk .objectExpression [.many properties] =>
    .mk .objectPattern [.many (asPropertyPatterns properties)]
  | .mk (.assignment _) [.one (some target), value] =>
    .mk .assignmentPattern [.one (some (asPattern target)), value]
  | node => node

def asPatterns : List (Option Node) → List (Option Node)
  | [] => []
  | none :: rest => none :: asPatterns rest
  | some node :: rest => some (asPattern node) :: asPatterns rest

def asPropertyPatterns : List (Option Node) → List (Option Node)
  | [] => []
  | some (.mk (.property computed kind method shorthand) [key, .one (some value)]) :: rest =>
    some (.mk (.property computed kind method shorthand) [key, .one (some (asPattern value))]) ::
      asPropertyPatterns rest
  | some node :: rest => some (asPattern node) :: asPropertyPatterns rest
  | none :: rest => none :: asPropertyPatterns rest

end

/-! ## The parts of the grammar -/

/-- The parts of the grammar that refer to each other. -/
inductive Goal where
  | item
  | statement
  | assignment
  | unary
  | exponentiation
  /-- The start of a unary expression; with `calls` it may contain calls. -/
  | leftHand (calls : Bool)
  | pattern (kind : Option VariableKind)
  deriving DecidableEq, Repr

/-- What a part of the grammar yields: a node, or the parameters of an arrow function whose arrow is
the lookahead. -/
inductive Operand where
  | node (n : Node)
  | arrowHead (params : List Node) (isAsync : Bool)

namespace Operand

/-- The node of an operand.  The parameters of an arrow function become a node where no arrow
follows. -/
def toNode : Operand → Node
  | .node n => n
  | .arrowHead params _ => .mk .arrowParameters [.many (params.map some)]

end Operand

/-- How the parts of the grammar are read. -/
abbrev Reader := Goal → Parser Operand

/-- Reads a part of the grammar as a node. -/
def Reader.node (read : Reader) (goal : Goal) : Parser Node := do return (← read goal).toNode

/-- A node with one child slot. -/
def node1 (kind : Kind) (child : Option Node) : Node := .mk kind [.one child]

/-- An expression: assignments separated by commas. -/
def expression (read : Reader) : Parser Node := do
  let first ← isolated (read.node .assignment)
  if ← sees "," then
    let rest ← repeated do
      if (← seesEnd) then return none
      if ← accept "," then return some (← isolated (read.node .assignment))
      return none
    return .mk .sequence [.many ((first :: rest).map some)]
  else return first

end Descramble.Source

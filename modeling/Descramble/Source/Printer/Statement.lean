import Descramble.Source.Printer.Expression

/-!
# Printing statements

One function for each form of statement, from its pieces.  A statement ends without a line break;
the margin of its first line has been printed.
-/

set_option autoImplicit false

namespace Descramble.Source

/-! ## Lists of statements -/

def printProgram (body : List (Option Piece)) (p : Place) : Printing := do
  return separated ("\n" ++ p.margin) (← body.mapM (printed · p.statement))

/-- Statements in braces, each in a line of its own. -/
def printBlock (body : List (Option Piece)) (p : Place) : Printing := do
  let texts ← body.mapM (printed · p.deeper.statement)
  let lines := texts.map fun text => p.deeper.margin ++ text ++ "\n"
  return "\x7b\n" ++ String.join lines ++ p.margin ++ "\x7d"

/-! ## Expressions and declarations -/

/-- The text that switches strict rules on where it is a directive. -/
def strictDirective : String := "use strict"

/-- Is the node the text of the strict directive? -/
def isStrictText (node : Node) : Bool :=
  match node.kind with
  | .literal (.text s) _ none => s == strictDirective
  | _ => false

/-- An expression as a statement.  One that starts like a declaration is put in parentheses, and the
text of the strict directive is spelled so that it is no directive, unless it is meant as one. -/
def printExpressionStatement (directive : Option String) (e : Option Piece) (p : Place) :
    Printing := do
  let piece ← required e
  if isStrictText piece.node && directive != some strictDirective then
    return "'use\\x20strict';"
  let text ← piece.print (p.expression Tightness.sequence)
  if startsDeclaration piece.node then return inParentheses text ++ ";" else return text ++ ";"

def printDeclarator (target init : Option Piece) (p : Place) : Printing := do
  let inner := { p.expression Tightness.assignment with allowIn := p.allowIn }
  let target ← printed target inner
  match init with
  | some piece => return target ++ " = " ++ (← piece.print inner)
  | none => return target

def variableWord : VariableKind → String
  | .var => "var"
  | .let => "let"
  | .const => "const"

/-- A declaration; the parts of several declarators are indented one step further.  As the target of
a loop it has its first declarator only and no semicolon. -/
def printDeclaration (kind : VariableKind) (declarators : List (Option Piece)) (p : Place) :
    Printing := do
  match declarators with
  | [] => .error .noDeclarator
  | first :: rest =>
    let start := variableWord kind ++ " "
    if p.asTarget then return start ++ (← printed first p)
    let inner := if rest.isEmpty then p else p.deeper
    let texts ← declarators.mapM (printed · inner)
    return start ++ separated ", " texts ++ ";"

/-! ## Conditions and loops -/

/-- A word and an expression in parentheses. -/
def printHead (word : String) (e : Option Piece) (p : Place) : Printing := do
  return word ++ " (" ++ (← printed e (p.deeper.expression Tightness.sequence)) ++ ")"

def isIfNode (node : Node) : Bool :=
  match node.kind with
  | .ifStatement => true
  | _ => false

/-- A condition.  If its consequent would take the `else` for itself, the consequent is put in
braces. -/
def printIf (test consequent alternate : Option Piece) (p : Place) : Printing := do
  let head ← printHead "if" test p
  match alternate with
  | none => return head ++ (← inBlock consequent p)
  | some piece =>
    let start ←
      if endsInOpenIf (← required consequent).node then
        pure (head ++ (← inBraces consequent p) ++ " else")
      else pure (afterBlock consequent (head ++ (← inBlock consequent p)) p ++ "else")
    if isIfNode piece.node then return start ++ " " ++ (← piece.print p.statement)
    else return joined start (← inBlock alternate p)

def printDoWhile (body test : Option Piece) (p : Place) : Printing := do
  let start := afterBlock body (joined "do" (← inBlock body p)) p
  let test ← printed test (p.expression Tightness.sequence)
  return start ++ "while (" ++ test ++ ");"

def printWhile (test body : Option Piece) (p : Place) : Printing := do
  return (← printHead "while" test p) ++ (← inBlock body p)

def printWith (object body : Option Piece) (p : Place) : Printing := do
  return (← printHead "with" object p) ++ (← inBlock body p)

/-- The start of a loop with its semicolon. -/
def printInit (init : Option Piece) (p : Place) : Printing :=
  match init with
  | none => .ok ";"
  | some piece =>
    let inner := { p.expression Tightness.sequence with allowIn := false }
    match piece.node.kind with
    | .variableDeclaration _ => piece.print inner
    | _ => do
      let text ← piece.print inner
      return (if indexesLet (leftSpine piece.node) then inParentheses text else text) ++ ";"

/-- An expression behind a blank, if there is one. -/
def printOptional (e : Option Piece) (p : Place) : Printing :=
  match e with
  | none => .ok ""
  | some piece => do return " " ++ (← piece.print (p.expression Tightness.sequence))

def printFor (init test update body : Option Piece) (p : Place) : Printing := do
  let init ← printInit init p.deeper
  let test ← printOptional test p.deeper
  let update ← printOptional update p.deeper
  let head := "for (" ++ init ++ test ++ ";" ++ update ++ ")"
  return head ++ (← inBlock (some (← present body)) p)

/-- The words that a loop runs over its targets with. -/
inductive LoopWord where
  | inWord
  | ofWord
  deriving DecidableEq, Repr

def LoopWord.text : LoopWord → String
  | .inWord => "in"
  | .ofWord => "of"

/-- Would the start of a target be read as the start of a declaration, or as an asynchronous
function? -/
def misleads (word : LoopWord) (target : Node) : Bool :=
  let spine := leftSpine target
  match word with
  | .inWord => indexesLet spine
  | .ofWord => spine.getLast? == some (.identifier "let") || spine == [.identifier "async"]

/-- What a loop assigns to. -/
def printLoopTarget (word : LoopWord) (left : Option Piece) (p : Place) : Printing := do
  let piece ← required left
  match piece.node.kind with
  | .variableDeclaration _ =>
    piece.print
      { p.deeper.expression Tightness.sequence with allowIn := false, asTarget := true }
  | _ =>
    let text ← piece.print (p.expression Tightness.call)
    return if misleads word piece.node then inParentheses text else text

def printForEach (word : LoopWord) (left right body : Option Piece) (p : Place) : Printing := do
  let left ← printLoopTarget word left p.deeper
  let right ← printed right (p.deeper.expression Tightness.assignment)
  let head := joined (joined ("for (" ++ left) word.text) right ++ ")"
  return head ++ (← inBlock (some (← present body)) p)

/-! ## Jumps -/

/-- A label, which need not be a name. -/
def printLabel (piece : Piece) (p : Place) : Printing :=
  match piece.node.kind with
  | .identifier name => .ok name
  | _ => piece.print (p.expression Tightness.primary)

/-- A word, perhaps with a label. -/
def printJump (word : String) (label : Option Piece) (p : Place) : Printing := do
  match label with
  | some piece => return word ++ " " ++ (← printLabel piece p) ++ ";"
  | none => return word ++ ";"

/-- A word and its argument.  An argument of several lines stands in parentheses, since the statement
would end at a line break behind the word. -/
def printResult (word : String) (argument : Option Piece) (p : Place) : Printing := do
  match argument with
  | none => return word ++ ";"
  | some piece =>
    let text ← piece.print (p.expression Tightness.sequence)
    return joined word (inOneLine text) ++ ";"

/-! ## Other statements -/

def printLabeled (label body : Option Piece) (p : Place) : Printing := do
  return (← printLabel (← required label) p) ++ ":" ++ (← inBlock (some (← present body)) p)

/-- A case of a switch; a block at the start of its body stands behind the colon. -/
def printCase (test : Option Piece) (body : List (Option Piece)) (p : Place) : Printing := do
  let inner := p.deeper
  let head ← match test with
    | some piece => do
      pure (joined "case" (← piece.print (inner.expression Tightness.sequence)) ++ ":")
    | none => pure "default:"
  let lines (body : List (Option Piece)) : Printing := do
    let texts ← body.mapM (printed · inner.statement)
    return String.join (texts.map fun text => "\n" ++ inner.margin ++ text)
  match body with
  | some first :: rest =>
    if isBlockNode first.node then
      return head ++ (← inBlock (some first) inner) ++ (← lines rest)
    else return head ++ (← lines body)
  | _ => return head ++ (← lines body)

def printSwitch (discriminant : Option Piece) (cases : List (Option Piece)) (p : Place) :
    Printing := do
  let texts ← cases.mapM (printed · p.statement)
  let lines := texts.map fun text => p.margin ++ text ++ "\n"
  return (← printHead "switch" discriminant p) ++ " \x7b\n" ++ String.join lines ++ p.margin ++ "\x7d"

def printCatch (param body : Option Piece) (p : Place) : Printing := do
  let head ← match param with
    | some _ => printHead "catch" param p
    | none => pure "catch"
  return head ++ (← inBlock body p)

/-- The body of a handler. -/
def printTry (block handler finalizer : Option Piece) (p : Place) : Printing := do
  let start := afterBlock block ("try" ++ (← inBlock block p)) p
  let start ← match handler with
    | some piece => do
      let text := joined start (← piece.print p.statement)
      pure (if finalizer.isSome then text ++ " " else text)
    | none => pure start
  match finalizer with
  | some _ => return joined start ("finally" ++ (← inBlock finalizer p))
  | none => return start

end Descramble.Source

import Descramble.Source.Printer.Statement

/-!
# Printing scripts

* `layout` — the text of a node from its pieces.
* `pieceOf` — a node as a piece, by recursion on the tree.
* `print` — the text of a tree, or why it has none.
-/

set_option autoImplicit false

namespace Descramble

namespace Source

/-- The text of a statement from its pieces; `none` for other nodes. -/
def layoutStatement? : Kind → List PieceSlot → Option (Place → Printing)
  | .program _, [.many body] => some (printProgram body)
  | .block, [.many body] => some (printBlock body)
  | .expressionStatement directive, [.one e] => some (printExpressionStatement directive e)
  | .variableDeclaration kind, [.many declarators] => some (printDeclaration kind declarators)
  | .variableDeclarator, [.one target, .one init] => some (printDeclarator target init)
  | .ifStatement, [.one test, .one consequent, .one alternate] =>
    some (printIf test consequent alternate)
  | .doWhileStatement, [.one body, .one test] => some (printDoWhile body test)
  | .whileStatement, [.one test, .one body] => some (printWhile test body)
  | .withStatement, [.one object, .one body] => some (printWith object body)
  | .forStatement, [.one init, .one test, .one update, .one body] =>
    some (printFor init test update body)
  | .forInStatement _, [.one left, .one right, .one body] =>
    some (printForEach .inWord left right body)
  | .forOfStatement, [.one left, .one right, .one body] =>
    some (printForEach .ofWord left right body)
  | .breakStatement, [.one label] => some (printJump "break" label)
  | .continueStatement, [.one label] => some (printJump "continue" label)
  | .returnStatement, [.one argument] => some (printResult "return" argument)
  | .throwStatement, [.one argument] => some (printResult "throw" argument)
  | .labeled, [.one label, .one body] => some (printLabeled label body)
  | .switchStatement, [.one discriminant, .many cases] => some (printSwitch discriminant cases)
  | .switchCase, [.one test, .many body] => some (printCase test body)
  | .tryStatement, [.one block, .one handler, .one finalizer] =>
    some (printTry block handler finalizer)
  | .catchClause, [.one param, .one body] => some (printCatch param body)
  | .debuggerStatement, _ => some fun _ => .ok "debugger;"
  | .emptyStatement, _ => some fun _ => .ok ";"
  | _, _ => none

/-- The text of an operator, a member or a call from its pieces; `none` for other nodes. -/
def layoutOperator? : Kind → List PieceSlot → Option (Place → Printing)
  | .sequence, [.many expressions] => some (printSequence expressions)
  | .assignment operator, [.one left, .one right] => some (printAssignment operator left right)
  | .assignmentPattern, [.one left, .one right] => some (printAssignment "=" left right)
  | .conditional, [.one test, .one consequent, .one alternate] =>
    some (printConditional test consequent alternate)
  | .binary operator, [.one left, .one right] => some (printBinary operator left right)
  | .logical operator, [.one left, .one right] => some (printLogical operator left right)
  | .unary operator _, [.one argument] => some (printUnary operator argument)
  | .update operator leading, [.one argument] => some (printUpdate operator leading argument)
  | .await, [.one argument] => some (printAwait argument)
  | .yield delegate, [.one argument] => some (printYield delegate argument)
  | .call, [.one callee, .many arguments] => some (printCall callee arguments)
  | .newExpression, [.one callee, .many arguments] => some (printNew callee arguments)
  | .member computed, [.one object, .one property] => some (printMember computed object property)
  | .metaProperty, [.one word, .one property] => some (printMeta word property)
  | .taggedTemplate, [.one tag, .one quasi] => some (printTagged tag quasi)
  | _, _ => none

/-- The text of any other expression or pattern from its pieces; `none` for other nodes. -/
def layoutPrimary? : Kind → List PieceSlot → Option (Place → Printing)
  | .identifier name, _ => some fun _ => spelledName name
  | .literal _ _ (some pattern), _ => some fun _ => spelledPattern pattern
  | .literal (.number n) _ none, _ => some (printNumber n)
  | .literal value _ none, _ => some fun _ => spelledConstant value
  | .importWord, _ => some fun _ => .error (.unsupported (Kind.typeName .importWord))
  | .arrowParameters, _ => some fun _ => .error (.unsupported (Kind.typeName .arrowParameters))
  | .thisExpression, _ => some fun _ => .ok "this"
  | .superExpression, _ => some fun _ => .ok "super"
  | .templateElement raw _ _, _ => some fun _ => .ok raw
  | .templateLiteral, [.many quasis, .many expressions] =>
    some (printTemplate quasis expressions)
  | .arrayExpression, [.many elements] => some (printArray elements)
  | .arrayPattern, [.many elements] => some (printArrayPattern elements)
  | .objectExpression, [.many properties] => some (printObject properties)
  | .objectPattern, [.many properties] => some (printObjectPattern properties)
  | .spread, [.one argument] =>
    some fun p => do return "..." ++ (← printed argument (p.expression Tightness.assignment))
  | .restElement, [.one argument] =>
    some fun p => do return "..." ++ (← printed argument (p.expression Tightness.sequence))
  | .property computed kind method shorthand, [.one key, .one value] =>
    some (printProperty computed kind method shorthand key value)
  | _, _ => none

/-- The text of a function or a class from its pieces; `none` for other nodes. -/
def layoutFunction? : Kind → List PieceSlot → Option (Place → Printing)
  | .functionDeclaration flags, [.one id, .many params, .one body] =>
    some (printFunction flags id params body)
  | .functionExpression flags, [.one id, .many params, .one body] =>
    some (printFunction flags id params body)
  | .arrowFunction flags, [.many params, .one body] => some (printArrow flags params body)
  | .classDeclaration, [.one id, .one superClass, .one body] => some (printClass id superClass body)
  | .classExpression, [.one id, .one superClass, .one body] => some (printClass id superClass body)
  | .classBody, [.many members] => some (printClassBody members)
  | .methodDefinition computed kind isStatic, [.one key, .one value] =>
    some (printMethodDefinition computed kind isStatic key value)
  | _, _ => none

/-- The text of a node from its pieces. -/
def layout (kind : Kind) (slots : List PieceSlot) : Place → Printing :=
  (layoutStatement? kind slots <|> layoutOperator? kind slots <|> layoutPrimary? kind slots <|>
    layoutFunction? kind slots).getD fun _ => .error .incomplete

mutual

/-- A node as a piece. -/
def pieceOf : Node → Piece
  | .mk kind slots => ⟨.mk kind slots, layout kind (pieceSlots slots)⟩

def pieceSlots : List Slot → List PieceSlot
  | [] => []
  | .one none :: rest => .one none :: pieceSlots rest
  | .one (some child) :: rest => .one (some (pieceOf child)) :: pieceSlots rest
  | .many children :: rest => .many (pieces children) :: pieceSlots rest

def pieces : List (Option Node) → List (Option Piece)
  | [] => []
  | none :: rest => none :: pieces rest
  | some child :: rest => some (pieceOf child) :: pieces rest

end

end Source

/-- The text of a tree. -/
def print (node : Node) : Except PrintError String :=
  (Source.pieceOf node).print Source.Place.outermost

end Descramble

import Descramble.Source.Parser.Class

/-!
# Expressions

* `primary` — names, constants, templates, groups, arrays, objects, functions and classes.
* `leftHandSide` — members, calls and `new`.
* `unary`, `exponentiation`, `binary`, `conditional`, `assignment` — operators, the tightest first.
* `assemble` — operands and operators grouped by precedence.
* `arrowFunction` — an arrow function whose parameters have been read.
-/

set_option autoImplicit false

namespace Descramble.Source

/-! ## Arrays, objects and templates -/

def spreadElement (read : Reader) : Parser Node := do
  expect "..."
  return node1 .spread (some (← inherited (read.node .assignment)))

def arrayInitializer (read : Reader) : Parser Node := do
  expect "["
  let elements ← looped ([] : List (Option Node)) fun elements => do
    if ← sees "]" then return (elements, false)
    if ← accept "," then return (none :: elements, true)
    if ← sees "..." then
      let element ← spreadElement read
      if !(← sees "]") then
        notPattern
        expect ","
      return (some element :: elements, true)
    let element ← inherited (read.node .assignment)
    if !(← sees "]") then expect ","
    return (some element :: elements, true)
  expect "]"
  return .mk .arrayExpression [.many elements.reverse]

/-- The start of a property: its first token, and its key if it has been read. -/
structure PropertyStart where
  token : Token
  computed : Bool := false
  isAsync : Bool := false
  key : Option Node := none

def propertyStart (read : Reader) : Parser PropertyStart := do
  let t ← peek
  if t.kind == .identifier then
    let _ ← advance
    let computed ← sees "["
    let next ← peek
    let isAsync := !(← get).newline && t.text == "async" &&
      !(next.kind == .punctuator && [":", "(", "*", ","].contains next.text)
    let key ← if isAsync then propertyKey read else pure (.ident t.text)
    return { token := t, computed := computed, isAsync := isAsync, key := some key }
  else if ← accept "*" then return { token := t }
  else
    let computed ← sees "["
    return { token := t, computed := computed, key := some (← propertyKey read) }

/-- A getter, a setter or a generator, if the start of the property says so. -/
def markedProperty (read : Reader) (start : PropertyStart) : Parser (Option Node) := do
  if startsKey (← peek) && !start.isAsync then
    let form := (start.token.kind, start.token.text)
    if form == (.identifier, "get") then
      let computed ← sees "["
      let key ← propertyKey read
      modifyMode fun m => { m with allowYield := false }
      return some (propertyNode computed .get false false key (← getterFunction read))
    else if form == (.identifier, "set") then
      let computed ← sees "["
      let key ← propertyKey read
      return some (propertyNode computed .set false false key (← setterFunction read))
    else if form == (.punctuator, "*") then
      let computed ← sees "["
      let key ← propertyKey read
      return some (propertyNode computed .init true false key (← generatorMethod read))
    else return none
  else return none

/-- A property without a value of its own, perhaps with an initial value that only a pattern may
have. -/
def shorthandProperty (read : Reader) (start : PropertyStart) (key : Node) : Parser Node := do
  let target : Node := .ident start.token.text
  if ← sees "=" then
    let t ← peek
    modifyMode fun m => { m with pendingInitializer := some t }
    let _ ← advance
    let value ← isolated (read.node .assignment)
    return propertyNode start.computed .init false true key
      (.binary2 .assignmentPattern target value)
  else return propertyNode start.computed .init false true key target

/-- A property of an object; `hasProto` says that the prototype has been given, and so does the
result. -/
def objectProperty (read : Reader) (hasProto : Bool) : Parser (Node × Bool) := do
  let start ← propertyStart read
  if let some property ← markedProperty read start then return (property, hasProto)
  let some key := start.key | unexpected (← peek)
  if !start.isAsync && (← sees ":") then
    let isProto := !start.computed && keyIs key "__proto__"
    if isProto && hasProto then
      failInLine "Duplicate __proto__ fields are not allowed in object literals"
    let _ ← advance
    let value ← inherited (read.node .assignment)
    return (propertyNode start.computed .init false false key value, hasProto || isProto)
  else if ← sees "(" then
    let value ← if start.isAsync then asyncMethodFunction read else methodFunction read
    return (propertyNode start.computed .init true false key value, hasProto)
  else if start.token.kind == .identifier then
    return (← shorthandProperty read start key, hasProto)
  else unexpected (← advance)

def objectInitializer (read : Reader) : Parser Node := do
  expect "\x7b"
  let (properties, _) ← looped (([], false) : List Node × Bool) fun (properties, hasProto) => do
    if ← sees "\x7d" then return ((properties, hasProto), false)
    let (property, hasProto) ←
      if ← sees "..." then pure (← spreadElement read, hasProto) else objectProperty read hasProto
    if !(← sees "\x7d") then expect ","
    return ((property :: properties, hasProto), true)
  expect "\x7d"
  return .mk .objectExpression [.many (properties.reverse.map some)]

/-- A piece of a template, and whether it is the last one. -/
def templatePiece : Parser (Node × Bool) := do
  let t ← peek
  match t.kind with
  | .template cooked _ tail =>
    let _ ← advance
    return (.leaf (.templateElement t.text (some cooked) tail), tail)
  | _ => failAtLast "Unexpected token ILLEGAL"

/-- A template whose first piece is the lookahead. -/
def templateLiteral (read : Reader) : Parser Node := do
  if !(← peek).isTemplateHead then failHeadless
  let (head, tail) ← templatePiece
  let (quasis, expressions, _) ← looped (([head], [], tail) : List Node × List Node × Bool)
    fun (quasis, expressions, tail) => do
      if tail then return ((quasis, expressions, tail), false)
      let e ← expression read
      let (piece, tail) ← templatePiece
      return ((piece :: quasis, e :: expressions, tail), true)
  return .mk .templateLiteral
    [.many (quasis.reverse.map some), .many (expressions.reverse.map some)]

/-! ## Groups -/

/-- Reads an arrow without consuming it. -/
def expectArrow : Parser Unit := do
  if !(← sees "=>") then expect "=>"

/-- What follows the first expression of a group: more expressions, or the end of the parameters of an
arrow function. -/
def groupRest (read : Reader) (first : Node) : Parser Operand := do
  modifyMode fun m => { m with isAssignmentTarget := false }
  let (expressions, arrow) ← looped (([first], false) : List Node × Bool) fun (expressions, _) => do
    if ← seesEnd then return ((expressions, false), false)
    if !(← accept ",") then return ((expressions, false), false)
    if ← accept ")" then return ((expressions, true), false)
    if ← sees "..." then
      if !(← getMode).isBindingElement then unexpected (← peek)
      let rest ← restParameter read
      expect ")"
      expectArrow
      modifyMode fun m => { m with isBindingElement := false }
      return ((rest :: expressions, true), false)
    let e ← inherited (read.node .assignment)
    return ((e :: expressions, false), true)
  let expressions := expressions.reverse
  if arrow then return .arrowHead (expressions.map asPattern) false
  else return .node (.mk .sequence [.many (expressions.map some)])

/-- The parameters that the expression of a group stands for. -/
def groupParameters (e : Node) : List Node :=
  match e with
  | .mk .sequence [.many expressions] => expressions.filterMap id |>.map asPattern
  | _ => [asPattern e]

/-- The end of a group: its expression, or the parameters of an arrow function. -/
def groupEnd (e : Node) : Parser Operand := do
  expect ")"
  let operand ←
    if ← sees "=>" then
      match e.kind with
      | .identifier "yield" => pure (.arrowHead [e] false)
      | _ =>
        if !(← getMode).isBindingElement then unexpected (← peek)
        pure (.arrowHead (groupParameters e) false)
    else pure (.node e)
  modifyMode fun m => { m with isBindingElement := false }
  return operand

/-- An expression in parentheses, or the parameters of an arrow function. -/
def group (read : Reader) : Parser Operand := do
  expect "("
  if ← accept ")" then
    expectArrow
    return .arrowHead [] false
  else if ← sees "..." then
    let rest ← restParameter read
    expect ")"
    expectArrow
    return .arrowHead [rest] false
  else
    modifyMode fun m => { m with isBindingElement := true }
    let first ← inherited (read.node .assignment)
    let operand ← if ← sees "," then groupRest read first else pure (.node first)
    match operand with
    | .arrowHead params isAsync => return .arrowHead params isAsync
    | .node e => groupEnd e

/-! ## Primary expressions -/

/-- A regular expression; the lookahead is its opening slash, which is read again. -/
def patternLiteral : Parser Node := do
  notPattern
  let s ← get
  let scan : Scan := { s.scan with
    rest := s.source.drop s.startMarker.index
    index := s.startMarker.index }
  let (token, scan) ← scan.nextPattern
  set { s with scan := scan, lookahead := token }
  let t ← advance
  let raw ← rawOf t
  match t.kind with
  | .regex pattern => return .leaf (.literal .null raw (some pattern))
  | _ => unexpected t

/-- A constant. -/
def constant (value : Token → Constant) : Parser Node := do
  notPattern
  let t ← advance
  return .lit (value t) (← rawOf t)

/-- Is the lookahead the word `import`, and is it called? -/
def seesImportCall : Parser Bool := do
  if ← seesKeyword "import" then
    let next ← peekSecond
    return next.kind == .punctuator && next.text == "("
  else return false

/-- An expression that a keyword starts. -/
def keywordExpression (read : Reader) : Parser Node := do
  let mode ← getMode
  if !mode.strict && mode.allowYield && (← seesKeyword "yield") then identifierName
  else if !mode.strict && (← seesKeyword "let") then return .ident (← advance).text
  else
    notPattern
    if ← seesKeyword "function" then functionExpression read
    else if ← seesKeyword "this" then
      let _ ← advance
      return .leaf .thisExpression
    else if ← seesKeyword "class" then classExpression read
    else if ← seesImportCall then
      let _ ← advance
      return .leaf .importWord
    else unexpected (← advance)

/-- An expression that stands for itself. -/
def primary (read : Reader) : Parser Operand := do
  let t ← peek
  match t.kind with
  | .identifier =>
    if (← getMode).isAwait && t.text == "await" then unexpected t
    if ← seesAsyncFunction then return .node (← functionExpression read)
    else return .node (.ident (← advance).text)
  | .number _ _ | .string _ =>
    if (← getMode).strict && t.isOctal then
      failAt t (some "Octal literals are not allowed in strict mode.")
    notPattern
    return .node (← literalOf (← advance))
  | .boolean => return .node (← constant fun t => .bool (t.text == "true"))
  | .null => return .node (← constant fun _ => .null)
  | .template _ _ _ => return .node (← templateLiteral read)
  | .punctuator =>
    if t.text == "(" then
      modifyMode fun m => { m with isBindingElement := false }
      inherited (group read)
    else if t.text == "[" then return .node (← inherited (arrayInitializer read))
    else if t.text == "\x7b" then return .node (← inherited (objectInitializer read))
    else if t.text == "/" || t.text == "/=" then return .node (← patternLiteral)
    else unexpected (← advance)
  | .keyword => return .node (← keywordExpression read)
  | _ => unexpected (← advance)

/-! ## Members and calls -/

/-- Arguments in parentheses, each read by `argument`. -/
def argumentsOf (read : Reader) (argument : Parser Node) : Parser (List Node) := do
  expect "("
  let args ← looped ([] : List Node) fun args => do
    if ← sees ")" then return (args, false)
    let arg ← if ← sees "..." then spreadElement read else isolated argument
    if !(← sees ")") then expect ","
    return (arg :: args, true)
  expect ")"
  return args.reverse

def arguments (read : Reader) : Parser (List Node) :=
  argumentsOf read (read.node .assignment)

/-- Arguments that may turn out to be the parameters of an asynchronous arrow function. -/
def asyncArguments (read : Reader) : Parser (List Node) :=
  argumentsOf read do
    let arg ← read.node .assignment
    modifyMode fun m => { m with pendingInitializer := none }
    return arg

def newExpression (read : Reader) : Parser Node := do
  let word ← identifierName
  if ← accept "." then
    let t ← peek
    if t.kind == .identifier && (← getMode).inFunctionBody && t.text == "target" then
      return .binary2 .metaProperty word (← identifierName)
    else unexpected t
  else if ← seesKeyword "import" then unexpected (← peek)
  else
    let callee ← isolated (read.node (.leftHand false))
    let args ← if ← sees "(" then arguments read else pure []
    notPattern
    return .mk .newExpression [.one (some callee), .many (args.map some)]

/-- The members of the base class; `next` are the punctuators that may follow. -/
def superExpression (next : List String) : Parser Node := do
  expectKeyword "super"
  let t ← peek
  if t.kind == .punctuator && next.contains t.text then return .leaf .superExpression
  else unexpected t

/-- A member or a tag behind an expression, if there is one. -/
def memberStep (read : Reader) (object : Node) : Parser (Option Node) := do
  if ← sees "." then
    assignableOnly
    let _ ← advance
    return some (.memberOf false object (← identifierName))
  else if ← sees "[" then
    assignableOnly
    let _ ← advance
    let property ← isolated (expression read)
    expect "]"
    return some (.memberOf true object property)
  else if (← peek).isTemplateHead then
    return some (.binary2 .taggedTemplate object (← templateLiteral read))
  else return none

/-- The expression in front of the members and calls. -/
def leftHandStart (read : Reader) (calls : Bool) : Parser Operand := do
  if (← seesKeyword "super") && (← getMode).inFunctionBody then
    return .node (← superExpression (if calls then ["(", ".", "["] else [".", "["]))
  else
    inherited do
      if ← seesKeyword "new" then return .node (← newExpression read) else primary read

/-- A member, a tag or a call behind an operand, if there is one; `async` is the line of the word
`async` at the start of the expression. -/
def leftHandStep (read : Reader) (calls : Bool) (async : Option Nat) (operand : Operand) :
    Parser (Operand × Bool) := do
  if calls && (← sees "(") then
    let mayBeArrow := async == some (← peek).line
    notPattern
    let args ← if mayBeArrow then asyncArguments read else arguments read
    if operand.toNode.kind == .importWord && args.length ≠ 1 then failInLine "Unexpected token"
    if mayBeArrow && (← sees "=>") then return (.arrowHead (args.map asPattern) true, true)
    else return (.node (.callOf operand.toNode (args.map some)), true)
  else
    match ← memberStep read operand.toNode with
    | some node => return (.node node, true)
    | none => return (operand, false)

/-- A chain of members, and of calls if they are allowed. -/
def leftHandSide (read : Reader) (calls : Bool) : Parser Operand := do
  let t ← peek
  let async := if ← seesWord "async" then some t.line else none
  let outer ← getMode
  modifyMode fun m => { m with allowIn := true }
  let start ← leftHandStart read calls
  let operand ← looped start (leftHandStep read calls async)
  modifyMode fun m => { m with allowIn := outer.allowIn }
  return operand

/-! ## Operators -/

/-- Refuses to change what is no target, or a restricted name in strict code. -/
def checkUpdate (e : Node) (problem : String) : Parser Unit := do
  let mode ← getMode
  match e.kind with
  | .identifier name => if mode.strict && isRestrictedName name then failInLine problem
  | _ => pure ()
  if !mode.isAssignmentTarget then failInLine "Invalid left-hand side in assignment"

def seesUpdate : Parser Bool := do return (← sees "++") || (← sees "--")

def update (read : Reader) : Parser Operand := do
  if ← seesUpdate then
    let t ← advance
    let e ← inherited (read.node .unary)
    checkUpdate e "Prefix increment/decrement may not have eval or arguments operand in strict mode"
    notPattern
    return .node (node1 (.update t.text true) (some e))
  else
    let operand ← inherited (leftHandSide read true)
    if !(← get).newline && (← seesUpdate) then
      checkUpdate operand.toNode
        "Postfix increment/decrement may not have eval or arguments operand in strict mode"
      notPattern
      let t ← advance
      return .node (node1 (.update t.text false) (some operand.toNode))
    else return operand

/-- Is the token an operator in front of its operand? -/
def isUnaryOperator (t : Token) : Bool :=
  match t.kind with
  | .punctuator => ["+", "-", "~", "!"].contains t.text
  | .keyword => ["delete", "void", "typeof"].contains t.text
  | _ => false

def unary (read : Reader) : Parser Operand := do
  let t ← peek
  if isUnaryOperator t then
    let _ ← advance
    let e ← inherited (read.node .unary)
    if (← getMode).strict && t.text == "delete" && isIdentifierNode e then
      failInLine "Delete of an unqualified identifier in strict mode."
    notPattern
    return .node (node1 (.unary t.text true) (some e))
  else if (← getMode).isAwait && (← seesWord "await") then
    let _ ← advance
    return .node (node1 .await (some (← read.node .unary)))
  else update read

def isUnaryNode (node : Node) : Bool :=
  match node.kind with
  | .unary _ _ => true
  | _ => false

def exponentiation (read : Reader) : Parser Operand := do
  let operand ← inherited (read .unary)
  if !isUnaryNode operand.toNode && (← sees "**") then
    let _ ← advance
    notPattern
    let right ← isolated (read.node .exponentiation)
    return .node (.binary2 (.binary "**") operand.toNode right)
  else return operand

/-- The precedence of a binary operator; zero for what is none. -/
def precedence (allowIn : Bool) (t : Token) : Nat :=
  match t.kind with
  | .punctuator =>
    match t.text with
    | "||" => 1
    | "&&" => 2
    | "|" => 3
    | "^" => 4
    | "&" => 5
    | "==" | "!=" | "===" | "!==" => 6
    | "<" | ">" | "<=" | ">=" => 7
    | "<<" | ">>" | ">>>" => 8
    | "+" | "-" => 9
    | "*" | "/" | "%" => 11
    | _ => 0
  | .keyword => if t.text == "instanceof" || (allowIn && t.text == "in") then 7 else 0
  | _ => 0

/-- An operator with its precedence and the operand behind it. -/
structure OperatorPart where
  operator : String
  precedence : Nat
  operand : Node

/-- The node of an operator. -/
def operatorNode (operator : String) (left right : Node) : Node :=
  if operator == "||" || operator == "&&" then .binary2 (.logical operator) left right
  else .binary2 (.binary operator) left right

/-- Joins the topmost operands while their operator binds as tightly as `level`.  The stack holds
operands that wait for their right side, the topmost first. -/
def reduce (level : Nat) : (stack : List (Node × String × Nat)) → Node →
    Node × List (Node × String × Nat)
  | [], right => (right, [])
  | (left, operator, tightness) :: stack, right =>
    if level ≤ tightness then reduce level stack (operatorNode operator left right)
    else (right, (left, operator, tightness) :: stack)

/-- Operands and operators grouped by precedence; operators of one precedence group to the left. -/
def assemble : (stack : List (Node × String × Nat)) → Node → List OperatorPart → Node
  | stack, last, [] => (reduce 0 stack last).1
  | stack, last, part :: parts =>
    let (left, stack) := reduce part.precedence stack last
    assemble ((left, part.operator, part.precedence) :: stack) part.operand parts

/-- Operands joined by binary operators. -/
def binary (read : Reader) : Parser Operand := do
  let first ← inherited (read .exponentiation)
  let parts ← repeated do
    let t ← peek
    let level := precedence (← getMode).allowIn t
    if level = 0 then return none
    let _ ← advance
    notPattern
    let operand ← isolated (read.node .exponentiation)
    return some (⟨t.text, level, operand⟩ : OperatorPart)
  if parts.isEmpty then return first else return .node (assemble [] first.toNode parts)

def conditional (read : Reader) : Parser Operand := do
  let test ← inherited (binary read)
  if ← accept "?" then
    let consequent ← withMode (fun m => { m with allowIn := true })
      (fun outer m => { m with allowIn := outer.allowIn }) (isolated (read.node .assignment))
    expect ":"
    let alternate ← isolated (read.node .assignment)
    notPattern
    return .node (.mk .conditional
      [.one (some test.toNode), .one (some consequent), .one (some alternate)])
  else return test

/-! ## Arrow functions -/

mutual

/-- The names that a pattern binds, in order. -/
def patternNames : Node → List String
  | .mk (.identifier name) _ => [name]
  | .mk .restElement [.one (some target)] => patternNames target
  | .mk .assignmentPattern [.one (some target), _] => patternNames target
  | .mk .arrayPattern [.many elements] => patternsNames elements
  | .mk .objectPattern [.many properties] => patternsNames properties
  | .mk (.property _ _ _ _) [_, .one (some value)] => patternNames value
  | _ => []

def patternsNames : List (Option Node) → List String
  | [] => []
  | none :: rest => patternsNames rest
  | some node :: rest => patternNames node ++ patternsNames rest

end

/-- A default value that is the bare word `yield` is a name there. -/
def yieldAsName (param : Node) : Parser Node := do
  match param with
  | .mk .assignmentPattern [target, .one (some (.mk (.yield _) [.one argument]))] =>
    if argument.isSome then unexpected (← peek)
    return .mk .assignmentPattern [target, .one (some (.ident "yield"))]
  | _ => return param

/-- The parameters of an arrow function, checked. -/
def arrowParameters (params : List Node) (isAsync : Bool) : Parser Parameters := do
  let mode ← getMode
  let ps ← params.foldlM (fun (ps : Parameters) param => do
    let param ← yieldAsName param
    match param.kind with
    | .identifier "await" => if isAsync then unexpected (← peek)
    | _ => pure ()
    let checked := (patternNames param).foldl (fun ps name => ps.check mode.strict none name) ps
    return { checked with
      simple := checked.simple && isIdentifierNode param
      params := checked.params ++ [param] }) {}
  if mode.strict || !mode.allowYield then
    for param in params do
      match param.kind with
      | .yield _ => unexpected (← peek)
      | _ => pure ()
  if ps.problem == some duplicateParameter then failAtLast duplicateParameter
  return ps

/-- The arrow and the body of an arrow function. -/
def arrowFunction (read : Reader) (params : List Node) (isAsync : Bool) : Parser Node := do
  let ps ← arrowParameters params isAsync
  if (← get).newline then unexpected (← peek)
  let outer ← getMode
  modifyMode fun m => { m with
    pendingInitializer := none
    allowStrictDirective := ps.simple
    allowYield := true
    isAwait := isAsync }
  expect "=>"
  let (body, isExpression) ←
    if ← sees "\x7b" then do
      let body ← withMode (fun m => { m with allowIn := true })
        (fun outer m => { m with allowIn := outer.allowIn }) (functionBody read)
      pure (body, false)
    else do
      let body ← isolated (read.node .assignment)
      pure (body, true)
  refuse ps.firstRestricted ps.problem
  refuse ps.stricted ps.problem
  modifyMode fun m => { m with
    strict := outer.strict
    allowStrictDirective := outer.allowStrictDirective
    allowYield := outer.allowYield
    isAwait := outer.isAwait }
  return .mk (.arrowFunction ⟨false, isAsync, isExpression⟩)
    [.many (ps.params.map some), .one (some body)]

/-! ## Assignments -/

/-- Can the token start an expression? -/
def startsExpression (t : Token) : Bool :=
  match t.kind with
  | .punctuator =>
    ["[", "(", "\x7b", "+", "-", "!", "~", "++", "--", "/", "/="].contains t.text
  | .keyword =>
    ["class", "delete", "function", "let", "new", "super", "this", "typeof", "void",
      "yield"].contains t.text
  | _ => true

def yieldExpression (read : Reader) : Parser Node := do
  expectKeyword "yield"
  if (← get).newline then return node1 (.yield false) none
  withMode (fun m => { m with allowYield := false }) restoreYield do
    if ← accept "*" then return node1 (.yield true) (some (← read.node .assignment))
    else if startsExpression (← peek) then
      return node1 (.yield false) (some (← read.node .assignment))
    else return node1 (.yield false) none

def isAssignmentOperator (t : Token) : Bool :=
  t.kind == .punctuator &&
    ["=", "*=", "**=", "/=", "%=", "+=", "-=", "<<=", ">>=", ">>>=", "&=", "^=", "|="].contains t.text

/-- Refuses to assign to what is no target, or to a restricted name in strict code. -/
def checkAssignment (t : Token) (target : Node) : Parser Unit := do
  let mode ← getMode
  if !mode.isAssignmentTarget then failInLine "Invalid left-hand side in assignment"
  match target.kind with
  | .identifier name =>
    if mode.strict then
      if isRestrictedName name then
        failAt t (some "Assignment to eval or arguments is not allowed in strict mode")
      if isStrictWord name then
        failAt t (some "Use of future reserved word in strict mode")
  | _ => pure ()

/-- The operator and the value of an assignment, if they follow. -/
def assignmentRest (read : Reader) (t : Token) (target : Node) : Parser Node := do
  let operator ← peek
  if isAssignmentOperator operator then
    checkAssignment t target
    let target ←
      if operator.text == "=" then pure (asPattern target)
      else do
        notPattern
        pure target
    let _ ← advance
    let value ← isolated (read.node .assignment)
    modifyMode fun m => { m with pendingInitializer := none }
    return .binary2 (.assignment operator.text) target value
  else return target

/-- The parameter of an asynchronous arrow function without parentheses, if it follows the word
`async`. -/
def asyncParameter (read : Reader) (t : Token) (operand : Operand) : Parser Operand := do
  let next ← peek
  if t.kind == .identifier && t.text == "async" && t.line == next.line &&
      (next.kind == .identifier || (← seesKeyword "yield")) then
    return .arrowHead [asPattern (← primary read).toNode] true
  else return operand

/-- An assignment, an arrow function, or what is neither. -/
def assignment (read : Reader) : Parser Node := do
  if !(← getMode).allowYield && (← seesKeyword "yield") then yieldExpression read
  else
    let t ← peek
    let operand ← asyncParameter read t (← conditional read)
    match operand with
    | .arrowHead params isAsync =>
      notPattern
      arrowFunction read params isAsync
    | .node e =>
      if ← sees "=>" then
        notPattern
        if isIdentifierNode e then arrowFunction read [e] false else return e
      else assignmentRest read t e

end Descramble.Source

import Descramble.Source.Parser.Expression

/-!
# Statements

* `variableDeclarator`, `binding` — what `var`, and what `let` and `const` declare.
* `forStatement`, `switchStatement`, `tryStatement`, … — one function for each kind of statement.
* `statement` — any statement.
* `item` — a statement or a declaration.
-/

set_option autoImplicit false

namespace Descramble.Source

def seesIn : Parser Bool := seesKeyword "in"

def seesOf : Parser Bool := seesWord "of"

/-! ## Declarations -/

/-- Something separated by commas. -/
def commaSeparated {α : Type} (p : Parser α) : Parser (List α) := do
  let first ← p
  let rest ← repeated do
    if ← accept "," then return some (← p) else return none
  return first :: rest

/-- Refuses to declare a restricted name in strict code. -/
def checkDeclared (target : Node) (problem : String) : Parser Unit := do
  match target.kind with
  | .identifier name => if (← getMode).strict && isRestrictedName name then failInLine problem
  | _ => pure ()

def restrictedVariable : String := "Variable name may not be eval or arguments in strict mode"

/-- A name or a pattern that `var` declares, with its initial value.  A pattern needs one outside the
head of a loop. -/
def variableDeclarator (read : Reader) (inFor : Bool) : Parser Node := do
  let (target, _) ← collectingBound (pattern read (some .var))
  checkDeclared target restrictedVariable
  if ← accept "=" then
    return .declarator target (some (← isolated (read.node .assignment)))
  if !isIdentifierNode target && !inFor then expect "="
  return .declarator target none

/-- A name or a pattern that `let` or `const` declares, with its initial value. -/
def binding (read : Reader) (kind : VariableKind) (inFor : Bool) : Parser Node := do
  let (target, _) ← collectingBound (pattern read (some kind))
  checkDeclared target restrictedVariable
  if kind = .const then
    if (← seesIn) || (← seesOf) then return .declarator target none
    if ← accept "=" then
      return .declarator target (some (← isolated (read.node .assignment)))
    failAtLast "Missing initializer in const declaration"
  else if (!inFor && !isIdentifierNode target) || (← sees "=") then
    expect "="
    return .declarator target (some (← isolated (read.node .assignment)))
  else return .declarator target none

/-- The node of a declaration. -/
def declarationNode (kind : VariableKind) (declarators : List Node) : Node :=
  .mk (.variableDeclaration kind) [.many (declarators.map some)]

def variableStatement (read : Reader) : Parser Node := do
  expectKeyword "var"
  let declarators ← commaSeparated (variableDeclarator read false)
  endStatement
  return declarationNode .var declarators

/-- Does the word `let` start a declaration? -/
def startsLexical : Parser Bool := do
  let t ← peekSecond
  match t.kind with
  | .identifier => return true
  | .punctuator => return t.text == "[" || t.text == "\x7b"
  | .keyword => return t.text == "let" || t.text == "yield"
  | _ => return false

def lexicalDeclaration (read : Reader) (kind : VariableKind) : Parser Node := do
  let _ ← advance
  let declarators ← commaSeparated (binding read kind false)
  endStatement
  return declarationNode kind declarators

/-! ## Simple statements -/

def block (read : Reader) : Parser Node := do
  expect "\x7b"
  let body ← repeated do
    if ← sees "\x7d" then return none
    return some (← read.node .item)
  expect "\x7d"
  return .mk .block [.many (body.map some)]

def expressionStatement (read : Reader) : Parser Node := do
  let e ← expression read
  endStatement
  return node1 (.expressionStatement none) (some e)

/-- A branch of a condition. -/
def branch (read : Reader) : Parser Node := do
  if (← getMode).strict && (← seesKeyword "function") then
    failInLine "In strict mode code, functions can only be declared at top level or inside a block"
  read.node .statement

/-- An expression in parentheses. -/
def condition (read : Reader) : Parser Node := do
  expect "("
  let e ← expression read
  expect ")"
  return e

def ifStatement (read : Reader) : Parser Node := do
  expectKeyword "if"
  let test ← condition read
  let consequent ← branch read
  let alternate ←
    if ← seesKeyword "else" then
      let _ ← advance
      pure (some (← branch read))
    else pure none
  return .mk .ifStatement [.one (some test), .one (some consequent), .one alternate]

/-! ## Loops -/

/-- Reads the body of a loop. -/
def inLoop {α : Type} (p : Parser α) : Parser α :=
  withMode (fun m => { m with inIteration := true })
    (fun outer m => { m with inIteration := outer.inIteration }) p

def doWhileStatement (read : Reader) : Parser Node := do
  expectKeyword "do"
  let body ← inLoop (read.node .statement)
  expectKeyword "while"
  let test ← condition read
  let _ ← accept ";"
  return .binary2 .doWhileStatement body test

def whileStatement (read : Reader) : Parser Node := do
  expectKeyword "while"
  let test ← condition read
  return .binary2 .whileStatement test (← inLoop (read.node .statement))

/-- The head of a loop: what it starts with, or what it goes through. -/
inductive LoopHead where
  | steps (init : Option Node)
  | keys (left right : Node)
  | elements (left right : Node)

/-- What follows `in`. -/
def keysOf (read : Reader) (left : Node) : Parser LoopHead := do
  let _ ← advance
  return .keys left (← expression read)

/-- What follows `of`. -/
def elementsOf (read : Reader) (left : Node) : Parser LoopHead := do
  let _ ← advance
  return .elements left (← read.node .assignment)

/-- Reads with the operator `in` left for the head of the loop. -/
def withoutIn {α : Type} (p : Parser α) : Parser α :=
  withMode (fun m => { m with allowIn := false })
    (fun outer m => { m with allowIn := outer.allowIn }) p

/-- The target and the initial value of the only declarator. -/
def onlyDeclarator : List Node → Option (Node × Option Node)
  | [.declarator target init] => some (target, init)
  | _ => none

def isPatternNode (node : Node) : Bool :=
  match node.kind with
  | .arrayPattern => true
  | .objectPattern => true
  | _ => false

/-- A head that starts with `var`. -/
def variableHead (read : Reader) : Parser LoopHead := do
  let _ ← advance
  let declarators ← withoutIn (commaSeparated (variableDeclarator read true))
  let declaration := declarationNode .var declarators
  match onlyDeclarator declarators with
  | some (target, init) =>
    if ← seesIn then
      if init.isSome && (isPatternNode target || (← getMode).strict) then
        failInLine "for-in loop variable declaration may not have an initializer"
      keysOf read declaration
    else if init.isNone && (← seesOf) then elementsOf read declaration
    else
      expect ";"
      return .steps (some declaration)
  | none =>
    expect ";"
    return .steps (some declaration)

/-- A head that starts with `let` or `const`. -/
def lexicalHead (read : Reader) (kind : VariableKind) : Parser LoopHead := do
  let word ← advance
  if !(← getMode).strict && (← peek).text == "in" then keysOf read (.ident word.text)
  else
    let declarators ← withoutIn (commaSeparated (binding read kind true))
    let declaration := declarationNode kind declarators
    match onlyDeclarator declarators with
    | some (_, none) =>
      if ← seesIn then keysOf read declaration
      else if ← seesOf then elementsOf read declaration
      else
        endStatement
        return .steps (some declaration)
    | _ =>
      endStatement
      return .steps (some declaration)

/-- Refuses what a loop cannot assign to. -/
def checkLoopTarget (target : Node) (problem : String) : Parser Unit := do
  let isAssignment := match target.kind with
    | .assignment _ => true
    | _ => false
  if !(← getMode).isAssignmentTarget || isAssignment then failInLine problem

/-- A head that starts with an expression. -/
def expressionHead (read : Reader) : Parser LoopHead := do
  let init ← withoutIn (inherited (read.node .assignment))
  if ← seesIn then
    checkLoopTarget init "Invalid left-hand side in for-in"
    keysOf read (asPattern init)
  else if ← seesOf then
    checkLoopTarget init "Invalid left-hand side in for-loop"
    elementsOf read (asPattern init)
  else
    let rest ← repeated do
      if ← accept "," then return some (← isolated (read.node .assignment)) else return none
    expect ";"
    if rest.isEmpty then return .steps (some init)
    else return .steps (some (.mk .sequence [.many ((init :: rest).map some)]))

def loopHead (read : Reader) : Parser LoopHead := do
  if ← accept ";" then return .steps none
  else if ← seesKeyword "var" then variableHead read
  else if ← seesKeyword "const" then lexicalHead read .const
  else if ← seesKeyword "let" then lexicalHead read .let
  else expressionHead read

/-- An expression, unless the punctuator follows at once. -/
def expressionUnless (read : Reader) (p : String) : Parser (Option Node) := do
  if ← sees p then return none else return some (← expression read)

def forStatement (read : Reader) : Parser Node := do
  expectKeyword "for"
  expect "("
  let head ← loopHead read
  let finish : Parser Node := do
    expect ")"
    inLoop (isolated (read.node .statement))
  match head with
  | .steps init =>
    let test ← expressionUnless read ";"
    expect ";"
    let update ← expressionUnless read ")"
    return .mk .forStatement [.one init, .one test, .one update, .one (some (← finish))]
  | .keys left right =>
    return .mk (.forInStatement false)
      [.one (some left), .one (some right), .one (some (← finish))]
  | .elements left right =>
    return .mk .forOfStatement [.one (some left), .one (some right), .one (some (← finish))]

/-! ## Jumps -/

/-- The label of a jump, which must be one of a statement around it. -/
def jumpLabel : Parser (Option Node) := do
  let t ← peek
  if t.kind == .identifier && !(← get).newline then
    let label ← variableName none
    if !(← getMode).labels.contains t.text then
      failAtLast ("Undefined label '" ++ t.text ++ "'")
    return some label
  else return none

def continueStatement : Parser Node := do
  expectKeyword "continue"
  let label ← jumpLabel
  endStatement
  if label.isNone && !(← getMode).inIteration then failAtLast "Illegal continue statement"
  return node1 .continueStatement label

def breakStatement : Parser Node := do
  expectKeyword "break"
  let label ← jumpLabel
  endStatement
  let mode ← getMode
  if label.isNone && !mode.inIteration && !mode.inSwitch then failAtLast "Illegal break statement"
  return node1 .breakStatement label

def isTextToken (t : Token) : Bool :=
  match t.kind with
  | .string _ => true
  | .template _ _ _ => true
  | _ => false

def returnStatement (read : Reader) : Parser Node := do
  if !(← getMode).inFunctionBody then failInLine "Illegal return statement"
  expectKeyword "return"
  let s ← get
  let ends := (← sees ";") || (← sees "\x7d") || s.newline || s.lookahead.kind == .eof
  let argument ←
    if !ends || isTextToken s.lookahead then pure (some (← expression read)) else pure none
  endStatement
  return node1 .returnStatement argument

def throwStatement (read : Reader) : Parser Node := do
  expectKeyword "throw"
  if (← get).newline then failAtLast "Illegal newline after throw"
  let argument ← expression read
  endStatement
  return node1 .throwStatement (some argument)

/-! ## Other statements -/

def withStatement (read : Reader) : Parser Node := do
  if (← getMode).strict then failInLine "Strict mode code may not include a with statement"
  expectKeyword "with"
  let object ← condition read
  return .binary2 .withStatement object (← read.node .statement)

/-- A case of a switch; the default has no test. -/
def switchCase (read : Reader) : Parser (Option Node × List Node) := do
  let test ←
    if ← seesKeyword "default" then
      let _ ← advance
      pure none
    else
      expectKeyword "case"
      pure (some (← expression read))
  expect ":"
  let body ← repeated do
    if (← sees "\x7d") || (← seesKeyword "default") || (← seesKeyword "case") then return none
    return some (← read.node .item)
  return (test, body)

def switchStatement (read : Reader) : Parser Node := do
  expectKeyword "switch"
  let discriminant ← condition read
  withMode (fun m => { m with inSwitch := true })
    (fun outer m => { m with inSwitch := outer.inSwitch }) do
      expect "\x7b"
      let (cases, _) ← looped (([], false) : List Node × Bool) fun (cases, hasDefault) => do
        if ← sees "\x7d" then return ((cases, hasDefault), false)
        let (test, body) ← switchCase read
        if test.isNone && hasDefault then
          failAtLast "More than one default clause in switch statement"
        let node : Node := .mk .switchCase [.one test, .many (body.map some)]
        return ((node :: cases, hasDefault || test.isNone), true)
      expect "\x7d"
      return .mk .switchStatement [.one (some discriminant), .many (cases.reverse.map some)]

/-- The statement behind a label. -/
def labeledBody (read : Reader) : Parser Node := do
  if ← seesKeyword "class" then unexpected (← peek)
  else if ← seesKeyword "function" then
    let t ← peek
    let declaration ← functionDeclaration read
    if (← getMode).strict then
      failAt t (some
        "In strict mode code, functions can only be declared at top level or inside a block")
    match declaration.kind with
    | .functionDeclaration flags =>
      if flags.generator then
        failAt t (some "Generator declarations are not allowed in legacy contexts")
      return declaration
    | _ => return declaration
  else read.node .statement

/-- A statement with a label, or a statement that is an expression. -/
def labeledStatement (read : Reader) : Parser Node := do
  let e ← expression read
  match e with
  | .ident name =>
    if ← accept ":" then
      if (← getMode).labels.contains name then
        failAtLast ("Label '" ++ name ++ "' has already been declared")
      modifyMode fun m => { m with labels := name :: m.labels }
      let body ← labeledBody read
      modifyMode fun m => { m with labels := m.labels.erase name }
      return .binary2 .labeled e body
    else
      endStatement
      return node1 (.expressionStatement none) (some e)
  | _ =>
    endStatement
    return node1 (.expressionStatement none) (some e)

/-- The first name that occurs a second time. -/
def firstRepeated : (seen : List String) → List String → Option String
  | _, [] => none
  | seen, name :: names => if seen.contains name then some name
      else firstRepeated (name :: seen) names

def catchClause (read : Reader) : Parser Node := do
  expectKeyword "catch"
  expect "("
  if ← sees ")" then unexpected (← peek)
  let (param, bound) ← collectingBound (pattern read none)
  if let some name := firstRepeated [] (bound.map (·.text)) then
    failInLine ("Duplicate binding " ++ name)
  checkDeclared param "Catch variable may not be eval or arguments in strict mode"
  expect ")"
  return .binary2 .catchClause param (← block read)

def tryStatement (read : Reader) : Parser Node := do
  expectKeyword "try"
  let body ← block read
  let handler ← if ← seesKeyword "catch" then pure (some (← catchClause read)) else pure none
  let finalizer ←
    if ← seesKeyword "finally" then
      let _ ← advance
      pure (some (← block read))
    else pure none
  if handler.isNone && finalizer.isNone then failAtLast "Missing catch or finally after try"
  return .mk .tryStatement [.one (some body), .one handler, .one finalizer]

def debuggerStatement : Parser Node := do
  expectKeyword "debugger"
  endStatement
  return .leaf .debuggerStatement

/-- A statement that a keyword starts. -/
def keywordStatement (read : Reader) (word : String) : Parser Node :=
  match word with
  | "break" => breakStatement
  | "continue" => continueStatement
  | "debugger" => debuggerStatement
  | "do" => doWhileStatement read
  | "for" => forStatement read
  | "function" => functionDeclaration read
  | "if" => ifStatement read
  | "return" => returnStatement read
  | "switch" => switchStatement read
  | "throw" => throwStatement read
  | "try" => tryStatement read
  | "var" => variableStatement read
  | "while" => whileStatement read
  | "with" => withStatement read
  | _ => expressionStatement read

/-- Any statement. -/
def statement (read : Reader) : Parser Node := do
  let t ← peek
  match t.kind with
  | .punctuator =>
    if t.text == "\x7b" then block read
    else if t.text == ";" then
      let _ ← advance
      return .leaf .emptyStatement
    else expressionStatement read
  | .identifier =>
    if ← seesAsyncFunction then functionDeclaration read else labeledStatement read
  | .keyword => keywordStatement read t.text
  | .eof => unexpected t
  | _ => expressionStatement read

/-- A statement or a declaration. -/
def item (read : Reader) : Parser Node := do
  modifyMode fun m => { m with isAssignmentTarget := true, isBindingElement := true }
  let t ← peek
  if t.kind == .keyword then
    match t.text with
    | "export" => failAt t (some "Unexpected token")
    | "import" =>
      if ← seesImportCall then expressionStatement read else failAt t (some "Unexpected token")
    | "const" => lexicalDeclaration read .const
    | "let" => if ← startsLexical then lexicalDeclaration read .let else statement read
    | "class" => classDeclaration read
    | _ => statement read
  else statement read

end Descramble.Source

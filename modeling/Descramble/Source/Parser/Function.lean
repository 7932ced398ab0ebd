import Descramble.Source.Parser.Basic

/-!
# Names, patterns and functions

* `identifierName`, `variableName` — names of members and names that are bound.
* `propertyKey` — the key of a property.
* `pattern`, `patternWithDefault` — patterns.
* `formalParameters`, `functionBody`, `parametersAndBody` — functions.
* `methodFunction`, `getterFunction`, `setterFunction`, `generatorMethod` — the functions of
  properties.
-/

set_option autoImplicit false

namespace Descramble.Source

/-! ## Names -/

/-- A name after a dot: keywords are allowed. -/
def identifierName : Parser Node := do
  let t ← advance
  match t.kind with
  | .identifier => return .ident t.text
  | .keyword => return .ident t.text
  | .boolean => return .ident t.text
  | .null => return .ident t.text
  | _ => unexpected t

/-- A name that is bound. -/
def variableName (kind : Option VariableKind) : Parser Node := do
  let t ← advance
  let mode ← getMode
  if t.kind == .keyword && t.text == "yield" then
    if mode.strict then failAt t (some "Use of future reserved word in strict mode")
    if !mode.allowYield then unexpected t
  else if t.kind != .identifier then
    if mode.strict && t.kind == .keyword && isStrictWord t.text then
      failAt t (some "Use of future reserved word in strict mode")
    if mode.strict || t.text != "let" || kind != some .var then unexpected t
  else if mode.isAwait && t.text == "await" then unexpected t
  return .ident t.text

/-- The constant of a number or string token. -/
def literalOf (t : Token) : Parser Node := do
  let raw ← rawOf t
  match t.kind with
  | .number value _ => return .lit (.number value) raw
  | _ => return .lit (.text t.text) raw

/-- The key of a property.  The brackets of a computed key are read here. -/
def propertyKey (read : Reader) : Parser Node := do
  let t ← advance
  match t.kind with
  | .string _ | .number _ _ =>
    if (← getMode).strict && t.isOctal then
      failAt t (some "Octal literals are not allowed in strict mode.")
    literalOf t
  | .identifier | .boolean | .null | .keyword => return .ident t.text
  | .punctuator =>
    if t.text == "[" then
      let key ← isolated (read.node .assignment)
      expect "]"
      return key
    else unexpected t
  | _ => unexpected t

/-- Can the token start the key of a property? -/
def startsKey (t : Token) : Bool :=
  match t.kind with
  | .identifier => true
  | .string _ => true
  | .boolean => true
  | .null => true
  | .number _ _ => true
  | .keyword => true
  | .punctuator => t.text == "["
  | _ => false

/-- Is the key written as this name? -/
def keyIs (key : Node) (name : String) : Bool :=
  match key.kind with
  | .identifier n => n == name
  | .literal (.text s) _ _ => s == name
  | _ => false

/-! ## Patterns -/

/-- Notes that the current pattern binds the name of a token. -/
def noteBound (t : Token) : Parser Unit := modify fun s => { s with bound := t :: s.bound }

/-- Reads with a fresh list of bound names, which is returned in order. -/
def collectingBound {α : Type} (p : Parser α) : Parser (α × List Token) := do
  let outer := (← get).bound
  modify fun s => { s with bound := [] }
  let a ← p
  let inner := (← get).bound
  modify fun s => { s with bound := outer }
  return (a, inner.reverse)

/-- A pattern, perhaps with a default value. -/
def patternWithDefault (read : Reader) (kind : Option VariableKind) : Parser Node := do
  let target ← read.node (.pattern kind)
  if ← accept "=" then
    let value ← withMode (fun m => { m with allowYield := true })
      (fun outer m => { m with allowYield := outer.allowYield })
      (isolated (read.node .assignment))
    return .binary2 .assignmentPattern target value
  else return target

/-- The rest of an array pattern. -/
def bindingRest (read : Reader) (kind : Option VariableKind) : Parser Node := do
  expect "..."
  return node1 .restElement (some (← read.node (.pattern kind)))

def arrayPattern (read : Reader) (kind : Option VariableKind) : Parser Node := do
  expect "["
  let elements ← looped ([] : List (Option Node)) fun elements => do
    if ← sees "]" then return (elements, false)
    if ← accept "," then return (none :: elements, true)
    if ← sees "..." then return (some (← bindingRest read kind) :: elements, false)
    let element ← patternWithDefault read kind
    if !(← sees "]") then expect ","
    return (some element :: elements, true)
  expect "]"
  return .mk .arrayPattern [.many elements.reverse]

/-- A property of a pattern. -/
def propertyNode (computed : Bool) (kind : PropertyKind) (method shorthand : Bool)
    (key value : Node) : Node :=
  .binary2 (.property computed kind method shorthand) key value

def propertyPattern (read : Reader) (kind : Option VariableKind) : Parser Node := do
  let t ← peek
  if t.kind == .identifier then
    let key ← variableName none
    let target : Node := .ident t.text
    if ← sees "=" then
      noteBound t
      let _ ← advance
      let value ← read.node .assignment
      return propertyNode false .init false true key (.binary2 .assignmentPattern target value)
    if !(← sees ":") then
      noteBound t
      return propertyNode false .init false true key target
    expect ":"
    return propertyNode false .init false false key (← patternWithDefault read kind)
  else
    let computed ← sees "["
    let key ← propertyKey read
    expect ":"
    return propertyNode computed .init false false key (← patternWithDefault read kind)

/-- The rest of an object pattern. -/
def restProperty (read : Reader) : Parser Node := do
  expect "..."
  let target ← read.node (.pattern none)
  if ← sees "=" then failAtLast "Unexpected token ="
  if !(← sees "\x7d") then failAtLast "Unexpected token"
  return node1 .restElement (some target)

def objectPattern (read : Reader) (kind : Option VariableKind) : Parser Node := do
  expect "\x7b"
  let properties ← repeated do
    if ← sees "\x7d" then return none
    let property ← if ← sees "..." then restProperty read else propertyPattern read kind
    if !(← sees "\x7d") then expect ","
    return some property
  expect "\x7d"
  return .mk .objectPattern [.many (properties.map some)]

/-- A pattern: an array, an object or a name. -/
def pattern (read : Reader) (kind : Option VariableKind) : Parser Node := do
  if ← sees "[" then arrayPattern read kind
  else if ← sees "\x7b" then objectPattern read kind
  else
    let t ← peek
    if (← seesKeyword "let") && (kind == some .const || kind == some .let) then
      failAt t (some "let is disallowed as a lexically bound name")
    noteBound t
    variableName kind

/-! ## Parameters -/

/-- What is refused in strict code, where it stands if it is known. -/
structure Restriction where
  token : Option Token
  problem : String
  deriving Repr

/-- What was seen of the parameters of a function. -/
structure Parameters where
  simple : Bool := true
  params : List Node := []
  names : List String := []
  /-- Refused if the code around the function is strict. -/
  stricted : Option (Option Token) := none
  /-- Refused if the body of the function is strict. -/
  firstRestricted : Option (Option Token) := none
  problem : Option String := none
  deriving Inhabited

def duplicateParameter : String := "Strict mode function may not have duplicate parameter names"

/-- Checks the name of a parameter. -/
def Parameters.check (ps : Parameters) (strict : Bool) (token : Option Token) (name : String) :
    Parameters :=
  let restricted := "Parameter name eval or arguments is not allowed in strict mode"
  let seen := ps.names.contains name
  let checked :=
    if strict then
      let ps := if isRestrictedName name then
        { ps with stricted := some token, problem := some restricted } else ps
      if seen then { ps with stricted := some token, problem := some duplicateParameter } else ps
    else if ps.firstRestricted.isNone then
      if isRestrictedName name then
        { ps with firstRestricted := some token, problem := some restricted }
      else if isStrictWord name then
        { ps with
          firstRestricted := some token
          problem := some "Use of future reserved word in strict mode" }
      else if seen then { ps with stricted := some token, problem := some duplicateParameter }
      else ps
    else ps
  { checked with names := name :: ps.names }

def isIdentifierNode (node : Node) : Bool :=
  match node.kind with
  | .identifier _ => true
  | _ => false

/-- The rest of the parameters. -/
def restParameter (read : Reader) : Parser Node := do
  expect "..."
  let target ← read.node (.pattern none)
  if ← sees "=" then failAtLast "Unexpected token ="
  if !(← sees ")") then failAtLast "Rest parameter must be last formal parameter"
  return node1 .restElement (some target)

/-- One more parameter. -/
def formalParameter (read : Reader) (ps : Parameters) : Parser Parameters := do
  let (param, tokens) ← collectingBound do
    if ← sees "..." then restParameter read else patternWithDefault read none
  let strict := (← getMode).strict
  let checked := tokens.foldl (fun ps t => ps.check strict (some t) t.text) ps
  return { checked with
    simple := checked.simple && isIdentifierNode param
    params := checked.params ++ [param] }

/-- The parameters of a function in parentheses. -/
def formalParameters (read : Reader) (firstRestricted : Option (Option Token)) :
    Parser Parameters := do
  expect "("
  let start : Parameters := { firstRestricted := firstRestricted }
  let ps ←
    if ← sees ")" then pure start
    else looped start fun ps => do
      if ← seesEnd then return (ps, false)
      let ps ← formalParameter read ps
      if ← sees ")" then return (ps, false)
      expect ","
      return (ps, !(← sees ")"))
  expect ")"
  return ps

/-- Refuses what the body of a function does not allow once it is known to be strict. -/
def refuse (what : Option (Option Token)) (problem : Option String) : Parser Unit := do
  match what with
  | none => return
  | some token =>
    if (← getMode).strict then
      match token with
      | some t => failAt t problem
      | none => failAtLast (problem.getD "Unexpected token ILLEGAL")

/-! ## Bodies -/

/-- A statement that is a string, and the string if it is a directive. -/
def directive (read : Reader) : Parser (Node × Option String) := do
  let t ← peek
  let e ← expression read
  let raw := (← rawOf t).toList
  let text := String.ofList ((raw.drop 1).take (raw.length - 2))
  endStatement
  let isLiteral := match e.kind with
    | .literal _ _ _ => true
    | _ => false
  let word := if isLiteral && text ≠ "" then some text else none
  return (node1 (.expressionStatement word) (some e), word)

/-- The directives at the start of a body. -/
def directives (read : Reader) : Parser (List Node) := do
  let (statements, _) ← looped (([], none) : List Node × Option Token) fun (statements, octal) => do
    let t ← peek
    match t.kind with
    | .string _ =>
      let (statement, word) ← directive read
      let statements := statement :: statements
      match word with
      | none => return ((statements, octal), false)
      | some word =>
        if word = "use strict" then
          modifyMode fun m => { m with strict := true }
          if let some t := octal then
            failAt t (some "Octal literals are not allowed in strict mode.")
          if !(← getMode).allowStrictDirective then
            failAt t (some
              "Illegal 'use strict' directive in function with non-simple parameter list")
          return ((statements, octal), true)
        else
          let octal := if octal.isNone && t.isOctal then some t else octal
          return ((statements, octal), true)
    | _ => return ((statements, octal), false)
  return statements.reverse

/-- The body of a function. -/
def functionBody (read : Reader) : Parser Node := do
  expect "\x7b"
  let start ← directives read
  let rest ← withMode
    (fun m => { m with
      labels := [], inIteration := false, inSwitch := false, inFunctionBody := true })
    (fun outer m => { m with
      labels := outer.labels
      inIteration := outer.inIteration
      inSwitch := outer.inSwitch
      inFunctionBody := outer.inFunctionBody })
    (do
      let items ← repeated do
        if (← seesEnd) || (← sees "\x7d") then return none
        return some (← read.node .item)
      expect "\x7d"
      return items)
  return .mk .block [.many ((start ++ rest).map some)]

/-! ## Functions -/

/-- Is the lookahead the start of an asynchronous function? -/
def seesAsyncFunction : Parser Bool := do
  if ← seesWord "async" then
    let line := (← get).scan.line
    let next ← peekSecond
    return next.line == line && next.kind == .keyword && next.text == "function"
  else return false

/-- The name of a function, checked for strict code. -/
def functionName (name : Parser Node) : Parser (Node × Option Token × Option String) := do
  let t ← peek
  let id ← name
  let restricted := "Function name may not be eval or arguments in strict mode"
  if (← getMode).strict then
    if isRestrictedName t.text then failAt t (some restricted)
    return (id, none, none)
  else if isRestrictedName t.text then return (id, some t, some restricted)
  else if isStrictWord t.text then
    return (id, some t, some "Use of future reserved word in strict mode")
  else return (id, none, none)

/-- The parameters and the body of a function. -/
def parametersAndBody (read : Reader) (restricted : Option Token) (problem : Option String) :
    Parser (List Node × Node) := do
  let ps ← formalParameters read (restricted.map some)
  let problem := ps.problem <|> problem
  let outer ← getMode
  modifyMode fun m => { m with allowStrictDirective := ps.simple }
  let body ← functionBody read
  refuse ps.firstRestricted problem
  refuse ps.stricted problem
  modifyMode fun m => { m with
    strict := outer.strict, allowStrictDirective := outer.allowStrictDirective }
  return (ps.params, body)

/-- The node of a function. -/
def functionNode (kind : FunctionFlags → Kind) (generator isAsync : Bool) (id : Option Node)
    (params : List Node) (body : Node) : Node :=
  .mk (kind ⟨generator, isAsync, false⟩) [.one id, .many (params.map some), .one (some body)]

/-- The words in front of a function: whether it is asynchronous and whether it is a generator. -/
def functionStart : Parser (Bool × Bool) := do
  let isAsync ← seesWord "async"
  if isAsync then
    let _ ← advance
  expectKeyword "function"
  let generator ← if isAsync then pure false else accept "*"
  return (isAsync, generator)

def functionDeclaration (read : Reader) : Parser Node := do
  let (isAsync, generator) ← functionStart
  let (id, restricted, problem) ← functionName (variableName none)
  withMode (fun m => { m with isAwait := isAsync, allowYield := !generator })
    (fun outer m => { m with isAwait := outer.isAwait, allowYield := outer.allowYield }) do
      let (params, body) ← parametersAndBody read restricted problem
      return functionNode .functionDeclaration generator isAsync (some id) params body

def functionExpression (read : Reader) : Parser Node := do
  let (isAsync, generator) ← functionStart
  withMode (fun m => { m with isAwait := isAsync, allowYield := !generator })
    (fun outer m => { m with isAwait := outer.isAwait, allowYield := outer.allowYield }) do
      let (id, restricted, problem) ←
        if ← sees "(" then pure (none, none, none)
        else do
          let anyName := !(← getMode).strict && !generator && (← seesKeyword "yield")
          let (id, restricted, problem) ←
            functionName (if anyName then identifierName else variableName none)
          pure (some id, restricted, problem)
      let (params, body) ← parametersAndBody read restricted problem
      return functionNode .functionExpression generator isAsync id params body

/-! ## Methods -/

/-- The body of a method. -/
def methodBody (read : Reader) (ps : Parameters) : Parser Node := do
  notPattern
  let outer ← getMode
  modifyMode fun m => { m with allowStrictDirective := ps.simple }
  let body ← isolated (functionBody read)
  refuse ps.firstRestricted ps.problem
  refuse ps.stricted ps.problem
  modifyMode fun m => { m with
    strict := outer.strict, allowStrictDirective := outer.allowStrictDirective }
  return body

def restoreYield (outer m : Mode) : Mode := { m with allowYield := outer.allowYield }

def methodNode (generator isAsync : Bool) (ps : Parameters) (body : Node) : Node :=
  functionNode .functionExpression generator isAsync none ps.params body

def methodFunction (read : Reader) : Parser Node :=
  withMode (fun m => { m with allowYield := true }) restoreYield do
    let ps ← formalParameters read none
    return methodNode false false ps (← methodBody read ps)

def asyncMethodFunction (read : Reader) : Parser Node :=
  withMode (fun m => { m with allowYield := false, isAwait := true })
    (fun outer m => { m with allowYield := outer.allowYield, isAwait := outer.isAwait }) do
      let ps ← formalParameters read none
      return methodNode false true ps (← methodBody read ps)

def getterFunction (read : Reader) : Parser Node :=
  withMode (fun m => { m with allowYield := true }) restoreYield do
    let ps ← formalParameters read none
    if !ps.params.isEmpty then failInLine "Getter must not have any formal parameters"
    return methodNode false false ps (← methodBody read ps)

def setterFunction (read : Reader) : Parser Node :=
  withMode (fun m => { m with allowYield := true }) restoreYield do
    let ps ← formalParameters read none
    match ps.params with
    | [.mk .restElement _] =>
      failInLine "Setter function argument must not be a rest parameter"
    | [_] => return methodNode false false ps (← methodBody read ps)
    | _ => failInLine "Setter must have exactly one formal parameter"

def generatorMethod (read : Reader) : Parser Node :=
  withMode (fun m => { m with allowYield := true }) restoreYield do
    let ps ← formalParameters read none
    modifyMode fun m => { m with allowYield := false }
    return methodNode true false ps (← methodBody read ps)

end Descramble.Source

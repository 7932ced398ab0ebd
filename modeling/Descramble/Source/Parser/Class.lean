import Descramble.Source.Parser.Function

/-!
# Classes

* `classMember` — a method, a getter, a setter or the constructor of a class.
* `classDeclaration`, `classExpression` — classes.  All code of a class is strict.
-/

set_option autoImplicit false

namespace Descramble.Source

/-- The start of a member of a class: the token that decides on its form, whether it is static,
asynchronous and computed, and the key if it has been read. -/
structure MemberStart where
  token : Token
  isStatic : Bool := false
  isAsync : Bool := false
  computed : Bool := false
  key : Option Node := none

/-- Is the key the word `static` written as a name? -/
def isStaticWord (key : Node) : Bool :=
  match key.kind with
  | .identifier name => name == "static"
  | _ => false

/-- Reads on to the key of a member behind the word `static`. -/
def staticStart (read : Reader) (start : MemberStart) (key : Node) : Parser MemberStart := do
  let t ← peek
  if isStaticWord key && (startsKey t || (← sees "*")) then
    let computed ← sees "["
    if ← accept "*" then
      return { start with token := t, isStatic := true, computed := computed, key := some key }
    else
      let key ← propertyKey read
      return { start with token := t, isStatic := true, computed := computed, key := some key }
  else return { start with key := some key }

/-- Reads on to the key of a member behind the word `async`. -/
def asyncStart (read : Reader) (start : MemberStart) : Parser MemberStart := do
  let t ← peek
  if start.token.kind == .identifier && start.token.text == "async" && !(← get).newline &&
      !([":", "(", "*"].contains t.text) then
    let key ← propertyKey read
    if t.kind == .identifier && t.text == "constructor" then
      failAt t (some "Class constructor may not be an async method")
    return { start with token := t, isAsync := true, key := some key }
  else return start

/-- The start of a member. -/
def memberStart (read : Reader) : Parser MemberStart := do
  let t ← peek
  if ← accept "*" then return { token := t }
  else
    let computed ← sees "["
    let key ← propertyKey read
    asyncStart read (← staticStart read { token := t, computed := computed } key)

/-- A member that has been read: its kind, whether it is a method, and its function. -/
structure MemberBody where
  kind : MethodKind
  isMethod : Bool
  computed : Bool
  key : Node
  value : Node

/-- Is the function a generator? -/
def isGenerator (node : Node) : Bool :=
  match node.kind with
  | .functionExpression flags => flags.generator
  | _ => false

/-- The form of a member that its start decides on, if it is a getter, a setter or a generator. -/
def markedMember (read : Reader) (start : MemberStart) : Parser (Option MemberBody) := do
  if startsKey (← peek) then
    let form := (start.token.kind, start.token.text)
    if form == (.identifier, "get") then
      let computed ← sees "["
      let key ← propertyKey read
      modifyMode fun m => { m with allowYield := false }
      return some ⟨.get, false, computed, key, ← getterFunction read⟩
    else if form == (.identifier, "set") then
      let computed ← sees "["
      let key ← propertyKey read
      return some ⟨.set, false, computed, key, ← setterFunction read⟩
    else if form == (.punctuator, "*") then
      let computed ← sees "["
      let key ← propertyKey read
      return some ⟨.method, true, computed, key, ← generatorMethod read⟩
    else return none
  else return none

/-- The form of a member. -/
def memberBody (read : Reader) (start : MemberStart) : Parser MemberBody := do
  if let some body ← markedMember read start then return body
  match start.key with
  | some key =>
    if ← sees "(" then
      let value ← if start.isAsync then asyncMethodFunction read else methodFunction read
      return ⟨.method, true, start.computed, key, value⟩
    else unexpected (← peek)
  | none => unexpected (← peek)

/-- A member of a class; `hasConstructor` says that the constructor has been read, and so does the
result. -/
def classMember (read : Reader) (hasConstructor : Bool) : Parser (Node × Bool) := do
  let start ← memberStart read
  let body ← memberBody read start
  let finish (kind : MethodKind) : Node :=
    .binary2 (.methodDefinition body.computed kind start.isStatic) body.key body.value
  if body.computed then return (finish body.kind, hasConstructor)
  if start.isStatic && keyIs body.key "prototype" then
    failAt start.token (some "Classes may not have static property named prototype")
  if !start.isStatic && keyIs body.key "constructor" then
    if !body.isMethod || isGenerator body.value then
      failAt start.token (some "Class constructor may not be an accessor")
    if hasConstructor then failAt start.token (some "A class may only have one constructor")
    return (finish .constructor, true)
  return (finish body.kind, hasConstructor)

/-- The members of a class in braces. -/
def classBody (read : Reader) : Parser Node := do
  expect "\x7b"
  let (members, _) ← looped (([], false) : List Node × Bool) fun (members, hasConstructor) => do
    if ← sees "\x7d" then return ((members, hasConstructor), false)
    if ← accept ";" then return ((members, hasConstructor), true)
    let (member, hasConstructor) ← classMember read hasConstructor
    return ((member :: members, hasConstructor), true)
  expect "\x7d"
  return .mk .classBody [.many (members.reverse.map some)]

/-- A class; `named` says that it must have a name. -/
def classParts (read : Reader) (kind : Kind) (named : Bool) : Parser Node :=
  withMode (fun m => { m with strict := true }) (fun outer m => { m with strict := outer.strict }) do
    expectKeyword "class"
    let id ←
      if named || (← peek).kind == .identifier then pure (some (← variableName none)) else pure none
    let superClass ←
      if ← seesKeyword "extends" then
        let _ ← advance
        pure (some (← isolated (read.node (.leftHand true))))
      else pure none
    return .mk kind [.one id, .one superClass, .one (some (← classBody read))]

def classDeclaration (read : Reader) : Parser Node := classParts read .classDeclaration true

def classExpression (read : Reader) : Parser Node := classParts read .classExpression false

end Descramble.Source

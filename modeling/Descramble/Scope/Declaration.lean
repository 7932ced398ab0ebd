import Descramble.Tree.Position

/-!
# Scopes and declarations

* `opensScope?` — which nodes open a scope, and whether it is the scope of a function.
* `scopesAround` — the scopes that enclose a place, the innermost first.
* `patternNames` — the identifiers that a pattern binds, with their places.
* `ownName` — the identifier that names a function or a class.
* `declarationsAt`, `declarations` — what a tree declares, in the order of the walk.

A `var` belongs to the scope of the nearest function, other declarations to the nearest scope.  The
root is the scope of a function whatever its kind, and it declares nothing itself.
-/

set_option autoImplicit false

namespace Descramble

/-- How a name came to be bound. -/
inductive BindingKind where
  /-- A function declaration. -/
  | hoisted
  /-- The own name of a function expression. -/
  | local
  /-- A parameter. -/
  | param
  | var
  | let
  | const
  deriving DecidableEq, Repr

namespace BindingKind

def ofVariable : VariableKind → BindingKind
  | .var => .var
  | .let => .let
  | .const => .const

/-- Was the name declared with a variable keyword? -/
def isVariable : BindingKind → Bool
  | .var => true
  | .let => true
  | .const => true
  | _ => false

def word : BindingKind → String
  | .hoisted => "hoisted"
  | .local => "local"
  | .param => "param"
  | .var => "var"
  | .let => "let"
  | .const => "const"

end BindingKind

/-! ## Scopes -/

/-- The kind of the scope that a node opens: `some true` for a function, `some false` for a block.
The body of a function shares the function's scope. -/
def opensScope? (parent : Option Node) (node : Node) : Option Bool :=
  match parent with
  | none => some true
  | some parent =>
    match node.kind with
    | .functionDeclaration _ => some true
    | .functionExpression _ => some true
    | .arrowFunction _ => some true
    | .block => if parent.kind.isFunction then none else some false
    | .forStatement => some false
    | .forInStatement _ => some false
    | .forOfStatement => some false
    | .switchStatement => some false
    | .catchClause => some false
    | _ => none

/-- A scope: the place of the node that opens it, and whether it is the scope of a function. -/
structure Scope where
  place : Position
  isFunction : Bool
  deriving DecidableEq, Repr

/-- The scopes opened on the way from a place down a path, the innermost first, in front of
`outer`. -/
def scopesAlong (parent : Option Node) (place : Position) (outer : List Scope) (node : Node) :
    Position → List Scope
  | [] =>
    match opensScope? parent node with
    | some isFunction => ⟨place, isFunction⟩ :: outer
    | none => outer
  | step :: rest =>
    let inner := match opensScope? parent node with
      | some isFunction => ⟨place, isFunction⟩ :: outer
      | none => outer
    match node.child? step with
    | some child => scopesAlong (some node) (place ++ [step]) inner child rest
    | none => inner

/-- The scopes that enclose the inside of the node at a place, the innermost first.  The last one is
the root. -/
def scopesAround (root : Node) (place : Position) : List Scope := scopesAlong none [] [] root place

/-- The nearest scope of a function. -/
def functionScope? (scopes : List Scope) : Option Scope := scopes.find? Scope.isFunction

/-! ## Patterns -/

/-- An identifier with its place. -/
structure Name where
  place : Position
  name : String
  deriving DecidableEq, Repr

mutual

/-- The identifiers that a pattern binds. -/
def patternNames (place : Position) : Node → List Name
  | .mk (.identifier name) _ => [⟨place, name⟩]
  | .mk .arrayPattern [.many elements] => elementNames place 0 elements
  | .mk .objectPattern [.many properties] => propertyNames place 0 properties
  | .mk .assignmentPattern [.one (some target), _] => patternNames (place ++ [⟨0, none⟩]) target
  | .mk .restElement [.one (some target)] => patternNames (place ++ [⟨0, none⟩]) target
  | _ => []

/-- The identifiers bound by the elements of an array pattern, or by parameters. -/
def elementNames (place : Position) (index : Nat) : List (Option Node) → List Name
  | [] => []
  | none :: rest => elementNames place (index + 1) rest
  | some element :: rest =>
    patternNames (place ++ [⟨0, some index⟩]) element ++ elementNames place (index + 1) rest

/-- The identifiers bound by the properties of an object pattern. -/
def propertyNames (place : Position) (index : Nat) : List (Option Node) → List Name
  | [] => []
  | some (.mk .restElement [.one (some target)]) :: rest =>
    patternNames (place ++ [⟨0, some index⟩, ⟨0, none⟩]) target ++
      propertyNames place (index + 1) rest
  | some (.mk (.property _ _ _ _) [_, .one (some value)]) :: rest =>
    patternNames (place ++ [⟨0, some index⟩, ⟨1, none⟩]) value ++
      propertyNames place (index + 1) rest
  | _ :: rest => propertyNames place (index + 1) rest

end

/-- The identifiers bound by the parameters in slot `slot`. -/
def parameterNames (place : Position) (slot : Nat) (params : List (Option Node)) : List Name :=
  params.zipIdx.flatMap fun (param, i) =>
    match param with
    | some pattern => patternNames (place ++ [⟨slot, some i⟩]) pattern
    | none => []

/-- The own name of a function or a class. -/
def ownName (place : Position) : Option Node → List Name
  | some (.mk (.identifier name) _) => [⟨place, name⟩]
  | _ => []

/-! ## Declarations -/

/-- A declared name: the scope that holds it, the place of the declaring node, and the place of the
identifier. -/
structure Declaration where
  scope : Scope
  name : Name
  kind : BindingKind
  place : Position
  deriving DecidableEq, Repr

/-- The declarations of names in a scope, by the node at a place. -/
def declareIn (place : Position) (scope : Option Scope) (kind : BindingKind) (names : List Name) :
    List Declaration :=
  match scope with
  | some scope => names.map fun name => ⟨scope, name, kind, place⟩
  | none => []

/-- What the node at a place declares.  `inner` and `outer` are the scopes around the inside of the
node and around the inside of its parent. -/
def declarationsAt (inner outer : List Scope) (parent : Option Node) (site : Site) :
    List Declaration :=
  let declare := declareIn site.place
  match parent, site.node with
  | none, _ => []
  | some _, .mk (.functionDeclaration _) [.one id, .many params, _] =>
    declare outer.head? .hoisted (ownName (site.place ++ [⟨0, none⟩]) id) ++
      declare inner.head? .param (parameterNames site.place 1 params)
  | some _, .mk (.functionExpression _) [.one id, .many params, _] =>
    declare inner.head? .local (ownName (site.place ++ [⟨0, none⟩]) id) ++
      declare inner.head? .param (parameterNames site.place 1 params)
  | some _, .mk (.arrowFunction _) [.many params, _] =>
    declare inner.head? .param (parameterNames site.place 0 params)
  | some _, .mk .catchClause [.one (some param), _] =>
    declare inner.head? .let (patternNames (site.place ++ [⟨0, none⟩]) param)
  | some _, .mk .classDeclaration (.one id :: _) =>
    declare outer.head? .let (ownName (site.place ++ [⟨0, none⟩]) id)
  | some (.mk (.variableDeclaration kind) _), .mk .variableDeclarator [.one (some target), _] =>
    let scope := match kind with
      | .var => functionScope? outer
      | _ => outer.head?
    declare scope (.ofVariable kind) (patternNames (site.place ++ [⟨0, none⟩]) target)
  | some _, _ => []

/-- The declarations of a tree, in the order of the walk. -/
def declarations (root : Node) : List Declaration :=
  root.sites.flatMap fun site =>
    match site.place.parent? with
    | none => []
    | some above =>
      declarationsAt (scopesAround root site.place) (scopesAround root above) (root.get? above) site

/-- The places of identifiers that a class expression names itself by. -/
def selfNamePlaces (root : Node) : List Position :=
  root.sites.filterMap fun site =>
    match site.place, site.node with
    | _ :: _, .mk .classExpression (.one (some _) :: _) => some (site.place ++ [⟨0, none⟩])
    | _, _ => none

end Descramble

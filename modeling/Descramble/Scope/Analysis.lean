import Descramble.Scope.Declaration

/-!
# Bindings and their uses

* `Binding` — a declared name with the places that read it and the places that change it.
* `Occurrence` — an identifier that refers to a binding or to a global name.
* `analyze` — the bindings and the occurrences of a tree.

A binding belongs to the first declaration of a name in a scope; a further declaration of the name in
the same scope changes the binding.  An occurrence refers to the binding of its name in the nearest
enclosing scope that has one.
-/

set_option autoImplicit false

namespace Descramble

/-- What an occurrence does with the value that a name stands for. -/
inductive Use where
  | read
  | write
  /-- Increment and decrement. -/
  | both
  deriving DecidableEq, Repr

namespace Use

def reads : Use → Bool
  | .read => true
  | .write => false
  | .both => true

def writes : Use → Bool
  | .read => false
  | .write => true
  | .both => true

end Use

/-- A declared name with its uses.  `references` and `violations` are places in the order of the
walk; further declarations come first among the violations. -/
structure Binding where
  name : String
  kind : BindingKind
  scope : Scope
  place : Position
  references : List Position
  violations : List Position
  deriving DecidableEq, Repr

namespace Binding

/-- A binding is constant if nothing changes it after its declaration. -/
def constant (b : Binding) : Bool := b.violations.isEmpty

def referenced (b : Binding) : Bool := !b.references.isEmpty

end Binding

/-- An identifier that stands for a value, and the number of its binding; a global name has none. -/
structure Occurrence where
  place : Position
  name : String
  use : Use
  binding : Option Nat
  deriving DecidableEq, Repr

/-- What is known about the names of a tree. -/
structure Analysis where
  /-- The tree that was analysed. -/
  root : Node
  bindings : List Binding
  occurrences : List Occurrence

/-! ## Occurrences -/

/-- Does an identifier in a slot of its parent stand for a value?  Names of properties, keys and
labels do not. -/
def standsForValue (parent : Option Node) (step : Option Step) : Bool :=
  match parent, step with
  | some (.mk (.member computed) _), some ⟨1, _⟩ => computed
  | some (.mk (.property computed _ _ _) _), some ⟨0, _⟩ => computed
  | some (.mk (.methodDefinition computed _ _) _), some ⟨0, _⟩ => computed
  | some (.mk .labeled _), some ⟨0, _⟩ => false
  | some (.mk .breakStatement _), some ⟨0, _⟩ => false
  | some (.mk .continueStatement _), some ⟨0, _⟩ => false
  | some (.mk .metaProperty _), _ => false
  | _, _ => true

/-- The identifiers that an assignment to a pattern changes. -/
def assignedByPattern (root : Node) : List Position :=
  root.sites.flatMap fun site =>
    match site.place, site.node with
    | _ :: _, .mk (.assignment _) (.one (some target) :: _) =>
      match target.kind with
      | .identifier _ => []
      | _ => (patternNames (site.place ++ [⟨0, none⟩]) target).map Name.place
    | _, _ => []

/-- How an identifier in a slot of its parent is used. -/
def useOf (parent : Option Node) (step : Option Step) (assigned : Bool) : Use :=
  match parent, step with
  | some (.mk (.assignment _) _), some ⟨0, _⟩ => .write
  | some (.mk (.forInStatement _) _), some ⟨0, _⟩ => .write
  | some (.mk .forOfStatement _), some ⟨0, _⟩ => .write
  | some (.mk (.update _ _) _), _ => if assigned then .write else .both
  | _, _ => if assigned then .write else .read

/-- The first declaration of each name in each scope, in order. -/
def firstDeclarations : (seen : List (Position × String)) → List Declaration → List Declaration
  | _, [] => []
  | seen, d :: rest =>
    let key := (d.scope.place, d.name.name)
    if seen.contains key then firstDeclarations seen rest
    else d :: firstDeclarations (key :: seen) rest

/-- The number of the declaration that a name refers to, looked up from the innermost scope on. -/
def resolve? (firsts : List Declaration) (scopes : List Scope) (name : String) : Option Nat :=
  scopes.findSome? fun scope =>
    firsts.findIdx? fun d => d.scope.place == scope.place && d.name.name == name

/-- The occurrences of a tree: identifiers that stand for values and do not declare. -/
def occurrences (root : Node) (declared : List Declaration) : List Occurrence :=
  let firsts := firstDeclarations [] declared
  let declaring := declared.map (·.name.place) ++ selfNamePlaces root
  let assigned := assignedByPattern root
  root.sites.filterMap fun site =>
    match site.node.kind with
    | .identifier name =>
      let parent := site.place.parent?.bind root.get?
      let step := site.place.getLast?
      if declaring.contains site.place || !standsForValue parent step then none
      else some {
        place := site.place
        name := name
        use := useOf parent step (assigned.contains site.place)
        binding := resolve? firsts (scopesAround root site.place) name }
    | _ => none

/-! ## The analysis -/

/-- The binding of a first declaration. -/
def bindingOf (declared : List Declaration) (uses : List Occurrence) (first : Declaration)
    (number : Nat) : Binding :=
  let again := declared.filter fun d =>
    d.scope.place == first.scope.place && d.name.name == first.name.name
  let own := uses.filter fun o => o.binding == some number
  { name := first.name.name
    kind := first.kind
    scope := first.scope
    place := first.place
    references := (own.filter fun o => o.use.reads).map (·.place)
    violations := (again.drop 1).map (·.place) ++
      (own.filter fun o => o.use.writes).map (·.place) }

/-- The bindings and the occurrences of a tree. -/
def analyze (root : Node) : Analysis :=
  let declared := declarations root
  let uses := occurrences root declared
  { root := root
    bindings := (firstDeclarations [] declared).zipIdx.map fun (d, i) => bindingOf declared uses d i
    occurrences := uses }

namespace Analysis

/-- The occurrence at a place. -/
def occurrence? (a : Analysis) (place : Position) : Option Occurrence :=
  a.occurrences.find? fun o => o.place == place

/-- The number of the binding that the identifier at a place refers to. -/
def bindingNumber? (a : Analysis) (place : Position) : Option Nat :=
  (a.occurrence? place).bind Occurrence.binding

/-- The binding that the identifier at a place refers to. -/
def bindingFor? (a : Analysis) (place : Position) : Option (Nat × Binding) := do
  let number ← a.bindingNumber? place
  return (number, ← a.bindings[number]?)

/-- Does the identifier at a place stand for a value that no declaration binds? -/
def isGlobal (a : Analysis) (place : Position) : Bool :=
  match a.occurrence? place with
  | some o => o.binding.isNone
  | none => false

end Analysis

namespace Binding

/-- The place of the initial value of a declarator. -/
def initPlace (b : Binding) : Position := b.place ++ [⟨1, none⟩]

/-- The initial value of a binding in a tree, for a declarator of a plain identifier. -/
def init? (b : Binding) (tree : Node) : Option Node :=
  match tree.get? b.place with
  | some (.declarator (.mk (.identifier _) _) init) => init
  | _ => none

end Binding

/-! ## Revised trees -/

namespace Analysis

/-- The node at a place of a tree that has been revised since the analysis.  What a replacement has
taken out of the tree is still as it was analysed. -/
def nodeAt? (a : Analysis) (tree : Node) (place : Position) : Option Node :=
  (tree.get? place).or (a.root.get? place)

/-- The initial value of a binding in a tree that has been revised since the analysis. -/
def init? (a : Analysis) (tree : Node) (b : Binding) : Option Node :=
  (b.init? tree).or (b.init? a.root)

end Analysis

end Descramble

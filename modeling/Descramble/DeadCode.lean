import Descramble.Report
import Descramble.Scope.Analysis

/-!
# Removing dead code

* `isPure` — no calls and no writes outside nested functions.
* `isGuardStub` — a function that is called where it stands and whose body opens with a loop.
* `isRemovable` — declarations that can go if nothing uses them.
* `deadBindings` — the removable bindings without uses, uses from what is removed not counting.
* `sweep` — the tree without the dead declarations and the guard stubs.
-/

set_option autoImplicit false

namespace Descramble

/-! ## Purity and stubs -/

/-- A function expression or an arrow function. -/
def isFunctionValue (node : Node) : Bool :=
  match node.kind with
  | .functionExpression _ => true
  | .arrowFunction _ => true
  | _ => false

/-- Does evaluating a node of this kind call or write something? -/
def isImpure (node : Node) : Bool :=
  match node.kind with
  | .call => true
  | .newExpression => true
  | .assignment _ => true
  | .update _ _ => true
  | .await => true
  | .yield _ => true
  | .taggedTemplate => true
  | .classExpression => true
  | .unary operator _ => operator == "delete"
  | _ => false

/-- No calls and no writes outside nested functions. -/
def isPure (node : Node) : Bool := !node.mentions isFunctionValue isImpure

/-- The statements of the block that is the body of a function value. -/
def functionStatements? : Node → Option (List (Option Node))
  | .mk (.functionExpression _) [_, _, .one (some (.mk .block [.many statements]))] =>
    some statements
  | .mk (.arrowFunction _) [_, .one (some (.mk .block [.many statements]))] => some statements
  | _ => none

/-- Is the expression a call of a function value that opens with a loop? -/
def isLoopCall : Node → Bool
  | .mk .call (.one (some callee) :: _) =>
    match functionStatements? callee with
    | some (some (.mk .whileStatement _) :: _) => true
    | _ => false
  | _ => false

/-- A statement that calls a function value opening with a loop, perhaps under a unary operator. -/
def isGuardStub : Node → Bool
  | .mk (.expressionStatement _) [.one (some (.mk (.unary _ _) [.one (some argument)]))] =>
    isLoopCall argument
  | .mk (.expressionStatement _) [.one (some expression)] => isLoopCall expression
  | _ => false

/-- Does the last step lead into a list? -/
def inList (place : Position) : Bool :=
  match place.getLast? with
  | some step => step.index.isSome
  | none => false

/-- The places of the guard stubs that stand in lists of statements. -/
def stubPlaces (tree : Node) : List Position :=
  (tree.sites.filter fun site => inList site.place && isGuardStub site.node).map Site.place

/-! ## Removable declarations -/

/-- The number of declarators of a declaration. -/
def declaratorCount : Node → Nat
  | .mk (.variableDeclaration _) [.many declarators] => declarators.length
  | _ => 0

/-- Is the declaration at a place the head of a loop with three parts? -/
def isLoopHead (tree : Node) (place : Position) : Bool :=
  match place.parent?.bind tree.get?, place.getLast? with
  | some (.mk .forStatement _), some step => step.slot == 0
  | _, _ => false

/-- Can one declarator of the declaration at a place be taken out? -/
def canLoseDeclarator (tree : Node) (place : Position) : Bool :=
  match tree.get? place with
  | some declaration =>
    decide (1 < declaratorCount declaration) || inList place || isLoopHead tree place
  | none => false

/-- Can the declaration of a binding be removed if nothing uses it? -/
def isRemovable (tree : Node) (b : Binding) : Bool :=
  match b.kind, tree.get? b.place with
  | .hoisted, some (.mk (.functionDeclaration _) _) => inList b.place
  | kind, some (.declarator (.mk (.identifier _) _) init) =>
    kind.isVariable && (init.map isPure).getD true &&
      canLoseDeclarator tree (b.place.dropLast)
  | _, _ => false

/-! ## Dead bindings -/

/-- Does something outside the declaration and outside the discarded places use the binding? -/
def isLive (discarded : List Position) (b : Binding) : Bool :=
  (b.references ++ b.violations).any fun use =>
    !use.isInside b.place && !discarded.any fun place => use.isInside place

/-- One round over the candidates: each that is not live is added to the dead ones at once. -/
def deadRound (stubs : List Position) (candidates : List Binding) (dead : List Binding) :
    List Binding :=
  candidates.foldl (fun dead b =>
    if dead.contains b || isLive (stubs ++ dead.map Binding.place) b then dead else dead ++ [b]) dead

/-- Rounds until one adds nothing; `fuel` bounds their number. -/
def deadRounds (stubs : List Position) (candidates : List Binding) :
    (fuel : Nat) → (dead : List Binding) → List Binding
  | 0, dead => dead
  | fuel + 1, dead =>
    let next := deadRound stubs candidates dead
    if next.length = dead.length then dead else deadRounds stubs candidates fuel next

/-- The bindings whose declarations are removed, in the order in which they are found. -/
def deadBindings (tree : Node) : List Binding :=
  let stubs := stubPlaces tree
  let candidates := (analyze tree).bindings.filter fun b =>
    isRemovable tree b && !stubs.any fun place => b.place.isInside place
  deadRounds stubs candidates candidates.length []

/-! ## The sweep -/

/-- Are all declarators of the declaration at a place among the dead ones? -/
def losesAll (dead : List Position) (site : Site) : Bool :=
  match site.node with
  | .mk (.variableDeclaration _) [.many (declarator :: rest)] =>
    (List.range (declarator :: rest).length).all fun i =>
      dead.contains (site.place ++ [⟨0, some i⟩])
  | _ => false

/-- The places that a sweep removes: dead declarations, declarations that lose all declarators, and
stubs. -/
def doomedPlaces (tree : Node) (dead : List Binding) : List Position :=
  let places := dead.map Binding.place
  places ++ (tree.sites.filter (losesAll places)).map Site.place ++ stubPlaces tree

/-- The tree without its dead declarations and guard stubs, and whether anything was removed. -/
def sweep {ε : Type} (tree : Node) : Logged ε (Node × Bool) := do
  let dead := deadBindings tree
  let stubs := stubPlaces tree
  Logged.reportAll (dead.map fun b => .declarationRemoved b.name)
  Logged.reportAll (stubs.map fun _ => .stubRemoved)
  let doomed := doomedPlaces tree dead
  return (tree.prune fun place => doomed.contains place, !(dead.isEmpty && stubs.isEmpty))

end Descramble

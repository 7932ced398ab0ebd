import Descramble.Tree.Literal
import Descramble.Tree.Position

/-!
# The shapes of a string table

A script with a string table holds two functions.  The *loader* holds the table and replaces itself
by a function that returns it.  The *decoder* fetches the table from the loader and looks up its
argument less an offset.

* `loader?` — the name and the table of a function that has the shape of a loader.
* `offset?` — the first offset that is subtracted below a node.
* `decoder?` — the name and the offset of a function that has the shape of a decoder.
* `findLoader?`, `findDecoder?` — the first function of a tree with that shape.
-/

set_option autoImplicit false

namespace Descramble

/-- A recognized loader. -/
structure Loader where
  name : String
  table : List String
  deriving DecidableEq, Repr

/-- A recognized decoder. -/
structure Decoder where
  name : String
  offset : Int
  deriving DecidableEq, Repr

/-! ## Parts of functions -/

/-- The name, the parameters and the body of a named function declaration. -/
def functionParts? : Node → Option (String × List (Option Node) × Node)
  | .mk (.functionDeclaration _) [.one (some (.mk (.identifier name) _)), .many params,
      .one (some body)] => some (name, params, body)
  | _ => none

/-- The statements of a block. -/
def blockStatements? : Node → Option (List (Option Node))
  | .mk .block [.many statements] => some statements
  | _ => none

/-- The first declarator of a variable declaration: its target and its initial value. -/
def firstDeclarator? : Option Node → Option (Node × Option Node)
  | some (.mk (.variableDeclaration _) [.many (some (.declarator target init) :: _)]) =>
    some (target, init)
  | _ => none

/-- The function expression that a name is set to: `name = function () {...}`. -/
def selfRedefinition? (name : String) : Option Node → Option Node
  | some (.binary2 (.assignment "=") target (.mk (.functionExpression flags) slots)) =>
    if target.isIdentifier (some name) then some (.mk (.functionExpression flags) slots) else none
  | _ => none

/-- The texts of an array of text literals. -/
def literalTexts? : List (Option Node) → Option (List String)
  | [] => some []
  | some (.mk (.literal (.text s) _ _) _) :: rest => (literalTexts? rest).map (s :: ·)
  | _ => none

def isReturn : Option Node → Bool
  | some (.mk .returnStatement _) => true
  | _ => false

/-! ## The loader -/

/-- The expression of an expression statement. -/
def statementExpression? : Option Node → Option Node
  | some (.mk (.expressionStatement _) [.one expression]) => expression
  | _ => none

/-- `function NAME() { var t = ["..", ..]; NAME = function () {...}; return ...; }` -/
def loader? (function : Node) : Option Loader := do
  let (name, _, body) ← functionParts? function
  match ← blockStatements? body with
  | [declaration, redefinition, result] =>
    let (_, init) ← firstDeclarator? declaration
    let .mk .arrayExpression [.many elements] ← init | none
    let table ← literalTexts? elements
    let _ ← selfRedefinition? name (statementExpression? redefinition)
    if isReturn result then some ⟨name, table⟩ else none
  | _ => none

/-! ## The offset -/

/-- The integer that is subtracted: `x - N` gives `N` if `accepts x`. -/
def subtracted? (accepts : Node → Bool) : Node → Except Fault (Option Int)
  | .binary2 (.binary "-") left right =>
    if accepts left then right.integerLiteral? else .ok none
  | _ => .ok none

/-- A table and the parameters that may index it directly. -/
structure Lookup where
  table : String
  params : List String
  deriving DecidableEq, Repr

/-- Is the node one of the named identifiers? -/
def isOneOf (names : List String) (node : Node) : Bool :=
  match node.kind with
  | .identifier name => names.contains name
  | _ => false

/-- The offset that one node shows: `x = x - N`, or `table[param - N]`. -/
def offsetAt? (lookup : Option Lookup) : Node → Except Fault (Option Int)
  | .binary2 (.assignment "=") (.mk (.identifier name) _) value =>
    subtracted? (·.isIdentifier (some name)) value
  | .memberOf true object index =>
    match lookup with
    | some l =>
      if object.isIdentifier (some l.table) then subtracted? (isOneOf l.params) index
      else .ok none
    | none => .ok none
  | _ => .ok none

/-- The first result of a search that may fail. -/
def firstResult? {α β : Type} (f : α → Except Fault (Option β)) : List α → Except Fault (Option β)
  | [] => .ok none
  | a :: rest => do
    match ← f a with
    | some b => return some b
    | none => firstResult? f rest

/-- The first offset below a node, in the order of the walk. -/
def offset? (lookup : Option Lookup) (node : Node) : Except Fault (Option Int) :=
  firstResult? (fun site => offsetAt? lookup site.node) node.sites

/-! ## The decoder -/

/-- The names of the parameters that are plain identifiers. -/
def plainParameters (params : List (Option Node)) : List String :=
  params.filterMap fun param =>
    match param with
    | some (.mk (.identifier name) _) => some name
    | _ => none

/-- The first expression of a sequence that is returned. -/
def returnedFirst? : Option Node → Option Node
  | some (.mk .returnStatement [.one (some (.mk .sequence [.many (first :: _)]))]) => first
  | _ => none

/-- The function expression by which a decoder of two statements replaces itself. -/
def redefinedDecoder? (name : String) (statements : List (Option Node)) : Option Node :=
  match statements with
  | [_, result] => selfRedefinition? name (returnedFirst? result)
  | _ => none

/-- Does the first declarator call the loader?  Any called identifier will do if the loader is not
known. -/
def callsLoader (loader : Option String) : Option Node → Bool
  | some (.mk .call (.one (some callee) :: _)) => callee.isIdentifier loader
  | _ => false

/-- A decoder replaces itself,
`function NAME(a, b) { var t = LOADER(); return NAME = function (x, y) { x = x - N; ... }, ...; }`,
or indexes the table directly,
`function NAME(a) { var t = LOADER(); ... t[a - N] ...; return ...; }`. -/
def decoder? (loader : Option String) (function : Node) : Except Fault (Option Decoder) :=
  match functionParts? function with
  | none => .ok none
  | some (name, params, body) =>
    match blockStatements? body with
    | none => .ok none
    | some statements =>
      match firstDeclarator? statements.head?.join with
      | none => .ok none
      | some (target, init) =>
        if loader = some name || !callsLoader loader init || !isReturn statements.getLast?.join then
          .ok none
        else
          let named (offset : Option Int) : Option Decoder := offset.map (⟨name, ·⟩)
          match redefinedDecoder? name statements, target.kind with
          | some inner, _ => do return named (← offset? none inner)
          | none, .identifier table => do
            return named (← offset? (some ⟨table, plainParameters params⟩) body)
          | none, _ => .ok none

/-! ## Searching -/

/-- The function declarations of a tree, in the order of the walk. -/
def functionDeclarations (tree : Node) : List Node :=
  (tree.sites.map Site.node).filter fun node =>
    match node.kind with
    | .functionDeclaration _ => true
    | _ => false

def findLoader? (tree : Node) : Option Loader := (functionDeclarations tree).findSome? loader?

def findDecoder? (loader : Option String) (tree : Node) : Except Fault (Option Decoder) :=
  firstResult? (decoder? loader) (functionDeclarations tree)

end Descramble

import Descramble.Scope.Analysis
import Descramble.Value.Builtin
import Descramble.Value.Method

/-!
# Static evaluation

The value of an expression is computed where it depends only on literals, on constant bindings and on
pure global functions.  Nothing with a visible effect is evaluated.

* `Outcome` — a known literal value, nothing known, or an effect that must be kept.
* `Surroundings` — what an identifier means, which names are global, and which calls are left alone.
* `valueOf` — the value of an expression in given surroundings, by recursion on the expression.
* `valueOfBinding` — the value of a name, through the initial value of its constant binding; `fuel`
  bounds the number of bindings passed, and a binding is never passed twice.
* `Context.evaluate` — the outcome for the expression at a place.
-/

set_option autoImplicit false

namespace Descramble

/-- Why an expression has no static value. -/
inductive Stop where
  | unknown
  | sideEffect
  deriving DecidableEq, Repr

/-- What static evaluation finds out about an expression. -/
inductive Outcome where
  | known (value : Value)
  | unknown
  | sideEffecting
  deriving Repr

/-- A computation that fails has no known value. -/
def unlessFault {α : Type} (result : Except Fault α) : Except Stop α :=
  match result with
  | .ok a => .ok a
  | .error _ => .error .unknown

/-- What an expression needs to know about the place it stands in. -/
structure Surroundings where
  /-- The value of the identifier at a place. -/
  nameValue : Position → String → Except Stop Value
  /-- Does the identifier at a place stand for a global name? -/
  isGlobal : Position → Bool
  /-- Is the call at a place to be left alone? -/
  isDecoderCall : Position → Bool

/-! ## Small parts -/

/-- Texts with characters beyond the basic plane have no static value: script code counts such a
character twice. -/
def basicPlaneOnly (s : String) : Except Stop Value :=
  if s.toList.any (fun c => 0xFFFF < c.toNat) then .error .unknown else .ok (.text s)

/-- The value of a literal; a regular expression has none. -/
def valueOfLiteral (value : Constant) (regex : Option Pattern) : Except Stop Value :=
  if regex.isSome then .error .unknown
  else
    match value with
    | .null => .ok .null
    | .bool b => .ok (.bool b)
    | .number n => .ok (.number n)
    | .text s => basicPlaneOnly s

/-- The processed text of a piece of a template. -/
def cookedText (piece : Option Node) : Except Stop String :=
  match piece with
  | some (.mk (.templateElement _ (some cooked) _) _) => .ok cooked
  | _ => .error .unknown

/-- The values of the global names that stand for constants. -/
def globalValue? (name : String) : Option Value :=
  match name with
  | "undefined" => some .undefined
  | "NaN" => some .nan
  | "Infinity" => some (.number .infinity)
  | _ => none

/-- The name of the member that an access uses, if it is written in the code. -/
def accessedName? (computed : Bool) (property : Node) : Option String :=
  match computed, property.kind with
  | false, .identifier name => some name
  | true, .literal (.text s) _ _ => some s
  | _, _ => none

/-- Do expressions of this kind have an effect when they are evaluated? -/
def hasEffect : Kind → Bool
  | .assignment _ => true
  | .update _ _ => true
  | .newExpression => true
  | .await => true
  | .yield _ => true
  | .taggedTemplate => true
  | _ => false

/-- The builtin that the member of a global object is. -/
def globalMember? (env : Surroundings) (ownerPlace : Position) (owner : Node)
    (name : Option String) : Option Builtin :=
  match owner.kind, name with
  | .identifier object, some name =>
    if env.isGlobal ownerPlace then Builtin.ofMember? object name else none
  | _, _ => none

/-- The step to the only child, or to the first of two. -/
def first : Step := ⟨0, none⟩

/-- The step to the second child. -/
def second : Step := ⟨1, none⟩

/-! ## Expressions -/

mutual

/-- The value of the expression at a place. -/
def valueOf (env : Surroundings) (place : Position) : Node → Except Stop Value
  | .mk (.literal value _ regex) _ => valueOfLiteral value regex
  | .mk (.identifier name) _ => env.nameValue place name
  | .mk .templateLiteral [.many quasis, .many expressions] => do
    let start ← cookedText (quasis.head?.join)
    let text ← templateText env place 0 start.toList quasis.tail expressions
    basicPlaneOnly (String.ofList text)
  | .mk (.unary symbol _) [.one (some argument)] =>
    if symbol = "delete" then .error .sideEffect
    else
      match UnaryOp.ofSymbol? symbol with
      | none => .error .unknown
      | some op => do unlessFault (op.apply (← valueOf env (place ++ [first]) argument))
  | .mk (.binary symbol) [.one (some left), .one (some right)] =>
    match BinaryOp.ofSymbol? symbol with
    | none => .error .unknown
    | some op => do
      let l ← valueOf env (place ++ [first]) left
      let r ← valueOf env (place ++ [second]) right
      unlessFault (op.apply l r)
  | .mk (.logical symbol) [.one (some left), .one (some right)] => do
    let l ← valueOf env (place ++ [first]) left
    match symbol with
    | "&&" =>
      if ← unlessFault l.truthy then valueOf env (place ++ [second]) right else .ok l
    | "||" =>
      if ← unlessFault l.truthy then .ok l else valueOf env (place ++ [second]) right
    | "??" => if l.isNullish then valueOf env (place ++ [second]) right else .ok l
    | _ => .error .unknown
  | .mk .conditional [.one (some test), .one (some yes), .one (some no)] => do
    let t ← valueOf env (place ++ [first]) test
    if ← unlessFault t.truthy then valueOf env (place ++ [second]) yes
    else valueOf env (place ++ [⟨2, none⟩]) no
  | .mk .sequence [.many expressions] => do
    match (← itemValues env place 0 0 expressions).getLast? with
    | some v => .ok v
    | none => .error .unknown
  | .mk .arrayExpression [.many elements] => do
    return .array (← itemValues env place 0 0 elements)
  | .mk (.member computed) [.one (some object), .one (some property)] => do
    let receiver ← valueOf env (place ++ [first]) object
    let key ←
      if computed then valueOf env (place ++ [second]) property
      else
        match property.kind with
        | .identifier name => .ok (.text name)
        | _ => .error .unknown
    unlessFault (receiver.member key)
  | .mk .call [.one (some (.mk (.identifier name) _)), .many arguments] =>
    if env.isDecoderCall place then .error .unknown
    else
      match Builtin.ofName? name with
      | some f =>
        if env.isGlobal (place ++ [first]) then do
          unlessFault (f.apply (← itemValues env place 1 0 arguments))
        else .error .sideEffect
      | none => .error .sideEffect
  | .mk .call [.one (some (.mk (.member computed) [.one (some owner), .one (some property)])),
      .many arguments] =>
    if env.isDecoderCall place then .error .unknown
    else
      let name := accessedName? computed property
      match globalMember? env (place ++ [first, first]) owner name, name with
      | some f, _ => do unlessFault (f.apply (← itemValues env place 1 0 arguments))
      | none, none => .error .sideEffect
      | none, some name => do
        let receiver ← valueOf env (place ++ [first, first]) owner
        if receiver.isText || receiver.isArray then
          unlessFault (receiver.callMethod name (← itemValues env place 1 0 arguments))
        else .error .unknown
  | .mk .call _ => if env.isDecoderCall place then .error .unknown else .error .sideEffect
  | .mk kind _ => if hasEffect kind then .error .sideEffect else .error .unknown

/-- The values of the expressions in a list slot from an index on; a gap is undefined, and a spread
has no static value. -/
def itemValues (env : Surroundings) (place : Position) (slot index : Nat) :
    List (Option Node) → Except Stop (List Value)
  | [] => .ok []
  | none :: rest => do return .undefined :: (← itemValues env place slot (index + 1) rest)
  | some item :: rest => do
    let v ← valueOf env (place ++ [⟨slot, some index⟩]) item
    return v :: (← itemValues env place slot (index + 1) rest)

/-- The text of a template from an expression on, after the text `start`; `quasis` are the pieces
that follow the expressions. -/
def templateText (env : Surroundings) (place : Position) (index : Nat) (start : List Char)
    (quasis : List (Option Node)) : List (Option Node) → Except Stop (List Char)
  | [] => .ok start
  | none :: _ => if quasis.isEmpty then .ok start else .error .unknown
  | some expression :: rest =>
    match quasis with
    | [] => .ok start
    | quasi :: quasis => do
      let v ← valueOf env (place ++ [⟨1, some index⟩]) expression
      let text ← unlessFault v.toText
      let piece ← cookedText quasi
      templateText env place (index + 1) (start ++ text.toList ++ piece.toList) quasis rest

end

/-! ## Names -/

/-- A tree, what is known about its names, and the calls that are left alone. -/
structure Context where
  tree : Node
  analysis : Analysis
  isDecoderCall : Position → Bool

/-- The number and the initial value of the binding that gives the identifier at a place its value:
a constant variable, declared before the place and not around it. -/
def Context.constantInit? (ctx : Context) (place : Position) : Option (Nat × Position × Node) := do
  let (number, b) ← ctx.analysis.bindingFor? place
  let init ← b.init? ctx.tree
  if b.constant && b.kind.isVariable && !place.before b.place && !place.isInside b.place then
    return (number, b.initPlace, init)
  else none

/-- The value of the identifier at a place.  `passed` holds the numbers of the bindings whose
initial values are being evaluated. -/
def valueOfBinding (ctx : Context) : (fuel : Nat) → (passed : List Nat) → Position → String →
    Except Stop Value
  | 0, _, _, _ => .error .unknown
  | fuel + 1, passed, place, name =>
    match ctx.analysis.bindingNumber? place with
    | none =>
      match globalValue? name with
      | some v => .ok v
      | none => .error .unknown
    | some _ =>
      match ctx.constantInit? place with
      | none => .error .unknown
      | some (number, initPlace, init) =>
        if passed.contains number then .error .unknown
        else
          let env : Surroundings := {
            nameValue := valueOfBinding ctx fuel (number :: passed)
            isGlobal := ctx.analysis.isGlobal
            isDecoderCall := ctx.isDecoderCall }
          match valueOf env initPlace init with
          | .ok (.array _) => .error .unknown
          | .ok v => .ok v
          | .error _ => .error .unknown

/-- The surroundings of the expressions of a tree. -/
def Context.surroundings (ctx : Context) : Surroundings where
  nameValue := valueOfBinding ctx (ctx.analysis.bindings.length + 1) []
  isGlobal := ctx.analysis.isGlobal
  isDecoderCall := ctx.isDecoderCall

/-- The outcome for the expression at a place.  A known exact integer that is too large for a double
is a fault. -/
def Context.evaluate (ctx : Context) (place : Position) : Except Fault Outcome :=
  match ctx.tree.get? place with
  | none => .ok .unknown
  | some node =>
    match valueOf ctx.surroundings place node with
    | .error .sideEffect => .ok .sideEffecting
    | .error .unknown => .ok .unknown
    | .ok v => do return if ← v.isLiteral then .known v else .unknown

end Descramble

import Descramble.Pass.Revision

/-!
# Folding constants

* `foldConstants` — replaces calls, binary expressions, member accesses and initial values that have
  a known value by literals.  Calls of the decoder and members that are written to are left alone.
-/

set_option autoImplicit false

namespace Descramble

/-- Is the member at a place written to or deleted? -/
def isWriteTarget (tree : Node) (place : Position) : Bool :=
  match place.parent?.bind tree.get?, place.getLast? with
  | some (.mk (.assignment _) _), some step => step.slot == 0
  | some (.mk (.forInStatement _) _), some step => step.slot == 0
  | some (.mk .forOfStatement _), some step => step.slot == 0
  | some (.mk (.update _ _) _), _ => true
  | some (.mk (.unary operator _) _), _ => operator == "delete"
  | _, _ => false

/-- The place of the expression that a visit of a place folds: the initial value of a declarator, or
the node itself. -/
def foldTarget? (decoder : Option String) (analysis : Analysis) (tree : Node) (place : Position) :
    Option Position :=
  match tree.get? place with
  | some (.mk .variableDeclarator [_, .one (some init)]) =>
    if init.isLiteralLike then none else some (place ++ [second])
  | some (.mk .call _) => if callsDecoder tree analysis decoder place then none else some place
  | some (.mk (.binary _) _) => some place
  | some (.mk (.member _) _) => if isWriteTarget tree place then none else some place
  | _ => none

/-- Folds the expression at a place, if its value is known. -/
def foldAt (decoder : Option String) (analysis : Analysis) (r : Revision) (place : Position) :
    Except Fault Revision :=
  match foldTarget? decoder analysis r.tree place with
  | none => .ok r
  | some target => do
    match ← (Context.ofTree r.tree analysis decoder).evaluate target with
    | .known v =>
      match v.literal? with
      | some node => return r.replace target node
      | none => return r
    | _ => return r

/-- Folds the constant expressions of a tree. -/
def foldConstants (state : RunState) (tree : Node) : Logged Fault (Node × Bool) := do
  let r ← Logged.ofExcept
    (visitEach (foldAt state.decoderName (analyze tree)) tree.places ⟨tree, 0⟩)
  Logged.report (.expressionsFolded r.count)
  return (r.tree, decide (0 < r.count))

end Descramble

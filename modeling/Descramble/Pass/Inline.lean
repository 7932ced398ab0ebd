import Descramble.Pass.Revision

/-!
# Inlining constants

* `inlineConstants` — replaces the references of constant variables whose initial value is a literal
  by copies of the literal.  References before the declaration are left alone, because they read an
  undefined value.
-/

set_option autoImplicit false

namespace Descramble

/-- A property that is written out in full. -/
def withoutShorthand : Node → Node
  | .mk (.property computed kind method _) slots => .mk (.property computed kind method false) slots
  | node => node

/-- Replaces the reference at a place by a copy of a literal. -/
def inlineAt (literal : Node) (r : Revision) (place : Position) : Revision :=
  let opened := match place.parent? with
    | some above => r.tree.modifyAt withoutShorthand above
    | none => r.tree
  Revision.replace ⟨opened, r.count⟩ place literal.copyLiteral

/-- The literal that a binding stands for in a tree. -/
def inlinedLiteral? (tree : Node) (b : Binding) : Option Node :=
  if b.kind.isVariable && b.constant then (b.init? tree).filter Node.isLiteralLike else none

/-- Inlines the references of one binding. -/
def inlineBinding (r : Revision) (b : Binding) : Revision :=
  match inlinedLiteral? r.tree b with
  | some literal =>
    (b.references.filter fun place => !place.before b.place).foldl (inlineAt literal) r
  | none => r

/-- Inlines the constant bindings of a tree, in the order of their declarations. -/
def inlineConstants (tree : Node) : Logged Fault (Node × Bool) := do
  let r := (analyze tree).bindings.foldl inlineBinding ⟨tree, 0⟩
  Logged.report (.referencesInlined r.count)
  return (r.tree, decide (0 < r.count))

end Descramble

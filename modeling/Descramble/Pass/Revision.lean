import Descramble.Alias
import Descramble.Table.State
import Descramble.Tree.Literal

/-!
# Revising a tree in the order of the walk

A pass visits the places of a tree in the order of the walk and replaces some of them by literals.
What was learned about names before the pass stays valid by place.

* `Revision` — the tree during a pass and the number of replacements.
* `visitEach` — visits the places one after the other.
* `Value.literal?` — the node that spells a value.
-/

set_option autoImplicit false

namespace Descramble

/-- The tree during a pass and the number of replacements so far. -/
structure Revision where
  tree : Node
  count : Nat

namespace Revision

/-- Replaces the node at a place. -/
def replace (r : Revision) (place : Position) (node : Node) : Revision :=
  ⟨r.tree.replaceAt place node, r.count + 1⟩

end Revision

/-- Visits places one after the other; the first fault ends the pass. -/
def visitEach (visit : Revision → Position → Except Fault Revision) :
    List Position → Revision → Except Fault Revision
  | [], r => .ok r
  | place :: rest, r => do visitEach visit rest (← visit r place)

/-- The places of a tree in the order of the walk. -/
def Node.places (tree : Node) : List Position := tree.sites.map Site.place

/-- The node that spells a value. -/
def Value.literal? (v : Value) : Option Node :=
  match v.constant? with
  | some c =>
    match Node.ofConstant c with
    | .ok node => some node
    | .error _ => none
  | none => none

end Descramble

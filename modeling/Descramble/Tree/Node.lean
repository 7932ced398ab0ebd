import Descramble.Tree.Kind

/-!
# Syntax trees

* `Node` — a kind and the child slots that the kind's layout lists.
* `Slot` — room for one child, which may be absent, or for a list of children with gaps.
* `Node.size` — the number of nodes.
* `Node.same` — equality up to the spelling of literals.
* `Node.mentions` — does some node of the tree satisfy a test?
-/

set_option autoImplicit false

namespace Descramble

mutual

/-- A syntax node: its kind and its child slots. -/
inductive Node where
  | mk (kind : Kind) (slots : List Slot)

/-- One optional child, or a list of optional children. -/
inductive Slot where
  | one (child : Option Node)
  | many (children : List (Option Node))

end

namespace Node

def kind : Node → Kind
  | .mk kind _ => kind

def slots : Node → List Slot
  | .mk _ slots => slots

instance : Inhabited Node := ⟨.mk .emptyStatement []⟩

/-! ## Shapes that code looks for by name -/

/-- A node without children. -/
@[match_pattern] abbrev leaf (kind : Kind) : Node := .mk kind []

@[match_pattern] abbrev ident (name : String) : Node := .mk (.identifier name) []

@[match_pattern] abbrev lit (value : Constant) (raw : String) : Node :=
  .mk (.literal value raw none) []

/-- A node with one child. -/
@[match_pattern] abbrev unary1 (kind : Kind) (child : Node) : Node := .mk kind [.one (some child)]

/-- A node with two children. -/
@[match_pattern] abbrev binary2 (kind : Kind) (left right : Node) : Node :=
  .mk kind [.one (some left), .one (some right)]

/-- A call with its arguments. -/
@[match_pattern] abbrev callOf (callee : Node) (arguments : List (Option Node)) : Node :=
  .mk .call [.one (some callee), .many arguments]

/-- The access to a member. -/
@[match_pattern] abbrev memberOf (computed : Bool) (object property : Node) : Node :=
  .mk (.member computed) [.one (some object), .one (some property)]

/-- A declarator: what is declared and its initial value. -/
@[match_pattern] abbrev declarator (target : Node) (init : Option Node) : Node :=
  .mk .variableDeclarator [.one (some target), .one init]

/-! ## Size -/

mutual

/-- The number of nodes of a tree. -/
def size : Node → Nat
  | .mk _ slots => slotsSize slots + 1

def slotsSize : List Slot → Nat
  | [] => 0
  | .one none :: rest => slotsSize rest
  | .one (some child) :: rest => size child + slotsSize rest
  | .many children :: rest => childrenSize children + slotsSize rest

def childrenSize : List (Option Node) → Nat
  | [] => 0
  | none :: rest => childrenSize rest
  | some child :: rest => size child + childrenSize rest

end

/-! ## Equality up to spelling -/

mutual

/-- Are two trees equal when the spelling of literals is ignored? -/
def same : Node → Node → Bool
  | .mk k ss, .mk l ts => decide (k.withoutSpelling = l.withoutSpelling) && sameSlots ss ts

def sameSlots : List Slot → List Slot → Bool
  | [], [] => true
  | .one none :: ss, .one none :: ts => sameSlots ss ts
  | .one (some a) :: ss, .one (some b) :: ts => same a b && sameSlots ss ts
  | .many xs :: ss, .many ys :: ts => sameChildren xs ys && sameSlots ss ts
  | _, _ => false

def sameChildren : List (Option Node) → List (Option Node) → Bool
  | [], [] => true
  | none :: xs, none :: ys => sameChildren xs ys
  | some a :: xs, some b :: ys => same a b && sameChildren xs ys
  | _, _ => false

end

/-! ## Searching -/

mutual

/-- Does some node of the tree satisfy `test`?  What lies below a node that satisfies `stop` is not
looked at. -/
def mentions (stop test : Node → Bool) : Node → Bool
  | .mk kind slots =>
    if stop (.mk kind slots) then false
    else test (.mk kind slots) || slotsMention stop test slots

def slotsMention (stop test : Node → Bool) : List Slot → Bool
  | [] => false
  | .one none :: rest => slotsMention stop test rest
  | .one (some child) :: rest => mentions stop test child || slotsMention stop test rest
  | .many children :: rest => childrenMention stop test children || slotsMention stop test rest

def childrenMention (stop test : Node → Bool) : List (Option Node) → Bool
  | [] => false
  | none :: rest => childrenMention stop test rest
  | some child :: rest => mentions stop test child || childrenMention stop test rest

end

end Node

end Descramble

import Descramble.Tree.Node

/-!
# Places in a tree

A place is the list of steps from the root.  Places stay valid while other parts of the tree are
replaced, so facts learned about a tree are kept by place.

* `Step`, `Position` — one step is a slot and, in a list slot, an index.
* `Node.sites` — the nodes of a tree with their places, a parent before its children and children
  in the order of slots and indexes.
* `Node.get?` — the node at a place.
* `Node.replaceAt` — the tree with one node replaced.
* `Node.prune` — the tree without the nodes at some places.  Removing from a list slot closes the
  gap; removing a single child leaves its slot empty.
* `Position.isInside` — does a place lie strictly below another?
* `Position.before` — the order of the walk.
-/

set_option autoImplicit false

namespace Descramble

/-- From a node to a child: the number of the slot, and the index if the slot holds a list. -/
structure Step where
  slot : Nat
  index : Option Nat
  deriving DecidableEq, Repr

/-- The steps from the root to a node. -/
abbrev Position := List Step

namespace Position

/-- Does the place lie strictly below the other one? -/
def isInside (place other : Position) : Bool :=
  other.isPrefixOf place && decide (other.length < place.length)

/-- The place of the parent. -/
def parent? (place : Position) : Option Position :=
  if place.isEmpty then none else some place.dropLast

/-- The places above, the nearest first, down to the root. -/
def above (place : Position) : List Position :=
  (List.range place.length).reverse.map (fun n => place.take n)

/-- Does the first step lead to an earlier child? -/
def stepBefore (a b : Step) : Bool :=
  decide (a.slot < b.slot) || (a.slot == b.slot && decide (a.index.getD 0 < b.index.getD 0))

/-- Does the walk reach the first place before the second? -/
def before : Position → Position → Bool
  | [], [] => false
  | [], _ :: _ => true
  | _ :: _, [] => false
  | a :: as, b :: bs => if a = b then before as bs else stepBefore a b

end Position

/-- The slot with one child changed. -/
def Slot.setAt (slot : Slot) (index : Option Nat) (child : Option Node) : Slot :=
  match slot, index with
  | .one _, none => .one child
  | .many children, some i => .many (children.set i child)
  | slot, _ => slot

/-- A node with its place. -/
structure Site where
  place : Position
  node : Node

namespace Node

/-! ## The walk -/

mutual

/-- The sites of the tree at a place. -/
def sitesAt (place : Position) : Node → List Site
  | .mk kind slots => ⟨place, .mk kind slots⟩ :: slotSites place 0 slots

/-- The sites below the slots from number `slot` on. -/
def slotSites (place : Position) (slot : Nat) : List Slot → List Site
  | [] => []
  | .one none :: rest => slotSites place (slot + 1) rest
  | .one (some child) :: rest =>
    sitesAt (place ++ [⟨slot, none⟩]) child ++ slotSites place (slot + 1) rest
  | .many children :: rest =>
    childSites place slot 0 children ++ slotSites place (slot + 1) rest

/-- The sites below the children of a list slot from an index on. -/
def childSites (place : Position) (slot index : Nat) : List (Option Node) → List Site
  | [] => []
  | none :: rest => childSites place slot (index + 1) rest
  | some child :: rest =>
    sitesAt (place ++ [⟨slot, some index⟩]) child ++ childSites place slot (index + 1) rest

end

/-- The nodes of a tree in the order of the walk. -/
def sites (root : Node) : List Site := sitesAt [] root

/-! ## Looking up -/

/-- The child that one step leads to. -/
def child? (node : Node) (step : Step) : Option Node :=
  match node.slots[step.slot]?, step.index with
  | some (.one child), none => child
  | some (.many children), some i => (children[i]?).join
  | _, _ => none

/-- The node at a place. -/
def get? (root : Node) : Position → Option Node
  | [] => some root
  | step :: rest => do (← root.child? step).get? rest

/-- The name of the slot that a step uses. -/
def slotName? (node : Node) (step : Step) : Option String :=
  (node.kind.slotNames[step.slot]?).map Kind.SlotName.name

/-! ## Editing -/

/-- The tree with the child below a step changed by `edit`. -/
def modifyChild (edit : Node → Node) (node : Node) (step : Step) : Node :=
  match node, node.child? step with
  | .mk kind slots, some child =>
    .mk kind (slots.modify step.slot (fun s => s.setAt step.index (some (edit child))))
  | node, none => node

/-- The tree with the node at a place changed by `edit`. -/
def modifyAt (edit : Node → Node) : Position → Node → Node
  | [], root => edit root
  | step :: rest, root => root.modifyChild (modifyAt edit rest) step

/-- The tree with the node at a place replaced. -/
def replaceAt (root : Node) (place : Position) (replacement : Node) : Node :=
  root.modifyAt (fun _ => replacement) place

mutual

/-- The tree at a place without the nodes whose places are `doomed`; the root stays. -/
def pruneAt (doomed : Position → Bool) (place : Position) : Node → Node
  | .mk kind slots => .mk kind (pruneSlots doomed place 0 slots)

def pruneSlots (doomed : Position → Bool) (place : Position) (slot : Nat) : List Slot → List Slot
  | [] => []
  | .one none :: rest => .one none :: pruneSlots doomed place (slot + 1) rest
  | .one (some child) :: rest =>
    let here := place ++ [⟨slot, none⟩]
    .one (if doomed here then none else some (pruneAt doomed here child)) ::
      pruneSlots doomed place (slot + 1) rest
  | .many children :: rest =>
    .many (pruneChildren doomed place slot 0 children) :: pruneSlots doomed place (slot + 1) rest

def pruneChildren (doomed : Position → Bool) (place : Position) (slot index : Nat) :
    List (Option Node) → List (Option Node)
  | [] => []
  | none :: rest => none :: pruneChildren doomed place slot (index + 1) rest
  | some child :: rest =>
    let here := place ++ [⟨slot, some index⟩]
    let after := pruneChildren doomed place slot (index + 1) rest
    if doomed here then after else some (pruneAt doomed here child) :: after

end

/-- The tree without the nodes at the doomed places: gone from a list slot, absent from a single
slot. -/
def prune (doomed : Position → Bool) (root : Node) : Node := pruneAt doomed [] root

/-- The tree without the node at a place. -/
def removeAt (root : Node) (place : Position) : Node := root.prune (fun p => p == place)

/-- Why a tree cannot be edited at a place. -/
inductive EditError where
  /-- The root has no slot that a replacement could go to. -/
  | replacesRoot
  /-- The root has no slot that it could be taken from. -/
  | removesRoot
  deriving DecidableEq, Repr

/-- The wording of an error; the removal of the root has none. -/
def EditError.message? : EditError → Option String
  | .replacesRoot => some "cannot replace the root node"
  | .removesRoot => none

/-- Replaces a node other than the root. -/
def replaceBelow (root : Node) (place : Position) (replacement : Node) : Except EditError Node :=
  if place.isEmpty then .error .replacesRoot else .ok (root.replaceAt place replacement)

/-- Removes a node other than the root. -/
def removeBelow (root : Node) (place : Position) : Except EditError Node :=
  if place.isEmpty then .error .removesRoot else .ok (root.removeAt place)

end Node

end Descramble

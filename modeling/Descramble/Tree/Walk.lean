import Descramble.Tree.Position

/-!
# The walk with a stack

A tree can be walked without recursion: the sites that are still to be visited stand on a stack, and
a visit puts the children of a site in its place.  Each visit gets the next number, its order.

* `Site.children` — the children of a site, in the order of slots and indexes.
* `Visit` — a site with its order.
* `Walk`, `Walk.step?` — the stack with the next order, and one visit.
* `Node.walk` — the visits of a whole tree.
-/

set_option autoImplicit false

namespace Descramble

/-- The children in a slot of the node at a place. -/
def Slot.childrenAt (place : Position) (slot : Nat) : Slot → List Site
  | .one child => child.toList.map (⟨place ++ [⟨slot, none⟩], ·⟩)
  | .many children =>
    children.zipIdx.flatMap fun (child, index) =>
      child.toList.map (⟨place ++ [⟨slot, some index⟩], ·⟩)

/-- The children of a site, in the order of slots and indexes. -/
def Site.children (site : Site) : List Site :=
  site.node.slots.zipIdx.flatMap fun (slot, i) => slot.childrenAt site.place i

/-- A site with its number in the order of the walk. -/
structure Visit where
  order : Nat
  site : Site

/-- A walk that is under way. -/
structure Walk where
  /-- The sites still to be visited; the next one stands last. -/
  stack : List Site
  /-- The order of the next visit. -/
  order : Nat

/-- The number of nodes of the trees at some sites. -/
def Site.sizes : List Site → Nat
  | [] => 0
  | site :: rest => site.node.size + sizes rest

namespace Walk

def start (root : Node) : Walk := ⟨[⟨[], root⟩], 0⟩

/-- One visit, and the walk behind it: the children are put on the stack the last one first. -/
def step? (w : Walk) : Option (Visit × Walk) :=
  w.stack.getLast?.map fun site =>
    (⟨w.order, site⟩, ⟨w.stack.dropLast ++ site.children.reverse, w.order + 1⟩)

/-- The number of nodes still to be visited. -/
def pending (w : Walk) : Nat := Site.sizes w.stack

end Walk

/-! ## The walk ends -/

theorem Site.sizes_append : ∀ sites others : List Site,
    sizes (sites ++ others) = sizes sites + sizes others
  | [], others => (Nat.zero_add _).symm
  | site :: rest, others => by
      rw [List.cons_append, sizes, sizes, sizes_append rest others, Nat.add_assoc]

theorem Site.sizes_reverse : ∀ sites : List Site, sizes sites.reverse = sizes sites
  | [] => rfl
  | site :: rest => by
      rw [List.reverse_cons, sizes_append, sizes_reverse rest, sizes, sizes, sizes, Nat.add_zero,
        Nat.add_comm]

theorem Slot.sizes_childrenAt_many (place : Position) (slot : Nat) :
    ∀ (index : Nat) (children : List (Option Node)),
      Site.sizes ((children.zipIdx index).flatMap fun (child, index) =>
        child.toList.map fun c => ⟨place ++ [⟨slot, some index⟩], c⟩) = Node.childrenSize children
  | _, [] => rfl
  | index, none :: rest => by
      rw [List.zipIdx_cons, List.flatMap_cons, Node.childrenSize]
      exact sizes_childrenAt_many place slot (index + 1) rest
  | index, some child :: rest => by
      rw [List.zipIdx_cons, List.flatMap_cons, Site.sizes_append, Node.childrenSize,
        sizes_childrenAt_many place slot (index + 1) rest]
      rfl

theorem Slot.sizes_childrenAt (place : Position) (slot : Nat) : ∀ s : Slot,
    Site.sizes (s.childrenAt place slot) = Node.slotsSize [s]
  | .one none => rfl
  | .one (some child) => rfl
  | .many children => by
      rw [childrenAt, sizes_childrenAt_many, Node.slotsSize, Node.slotsSize, Nat.add_zero]

theorem Node.slotsSize_cons (slot : Slot) (rest : List Slot) :
    slotsSize (slot :: rest) = slotsSize [slot] + slotsSize rest := by
  rcases slot with (_ | child) | children <;> simp [slotsSize]

theorem Node.sizes_childrenAt (place : Position) : ∀ (slot : Nat) (slots : List Slot),
    Site.sizes ((slots.zipIdx slot).flatMap fun (s, i) => s.childrenAt place i) = slotsSize slots
  | _, [] => rfl
  | slot, s :: rest => by
      rw [List.zipIdx_cons, List.flatMap_cons, Site.sizes_append, slotsSize_cons,
        Slot.sizes_childrenAt, sizes_childrenAt place (slot + 1) rest]

/-- The children of a site have one node less than the site. -/
theorem Site.sizes_children (site : Site) : sizes site.children + 1 = site.node.size := by
  obtain ⟨place, k, slots⟩ := site
  exact congrArg (· + 1) (Node.sizes_childrenAt place 0 slots)

namespace Walk

/-- A visit leaves one node less. -/
theorem pending_step {w next : Walk} {v : Visit} (h : w.step? = some (v, next)) :
    next.pending + 1 = w.pending := by
  obtain ⟨site, hsite, hstep⟩ := Option.map_eq_some_iff.mp h
  cases hstep
  obtain ⟨before, hstack⟩ := List.getLast?_eq_some_iff.mp hsite
  have hchildren := site.sizes_children
  simp only [pending, hstack, List.dropLast_concat, Site.sizes_append, Site.sizes_reverse,
    Site.sizes]
  omega

/-- The visits of a walk until nothing is left on the stack. -/
def visits (w : Walk) : List Visit :=
  match _hstep : w.step? with
  | none => []
  | some (v, next) => v :: next.visits
termination_by w.pending
decreasing_by exact Nat.lt_of_succ_le (Nat.le_of_eq (pending_step _hstep))

end Walk

/-- The visits of a tree. -/
def Node.walk (root : Node) : List Visit := (Walk.start root).visits

end Descramble

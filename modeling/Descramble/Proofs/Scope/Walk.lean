import Descramble.Proofs.Scope.Enclosing
import Descramble.Proofs.Tree.Everywhere

/-!
# Declarations by recursion on the tree

The declarations of a tree are found node by node, and the scopes around each node are those around
its parent and perhaps its own.  So they can be collected on the way down.

* `declaredFrom` — what a node and the nodes below it declare, given the scopes around its parent.
* `declarations_eq_walk` — what the tree declares.
* `declaredFrom_eq_nil` — a tree without nodes that bind names declares nothing.
-/

set_option autoImplicit false

namespace Descramble

mutual

/-- What the tree at a place declares; `outer` are the scopes around the inside of its parent. -/
def declaredFrom (parent : Node) (outer : List Scope) (place : Position) : Node → List Declaration
  | .mk kind slots =>
    declarationsAt (enterScope (some parent) place (.mk kind slots) outer) outer (some parent)
        ⟨place, .mk kind slots⟩ ++
      declaredInSlots (.mk kind slots) (enterScope (some parent) place (.mk kind slots) outer) place
        0 slots

/-- What is declared in the slots from number `slot` on. -/
def declaredInSlots (parent : Node) (outer : List Scope) (place : Position) (slot : Nat) :
    List Slot → List Declaration
  | [] => []
  | .one none :: rest => declaredInSlots parent outer place (slot + 1) rest
  | .one (some child) :: rest =>
    declaredFrom parent outer (place ++ [⟨slot, none⟩]) child ++
      declaredInSlots parent outer place (slot + 1) rest
  | .many children :: rest =>
    declaredInChildren parent outer place slot 0 children ++
      declaredInSlots parent outer place (slot + 1) rest

/-- What is declared by the children of a list slot from an index on. -/
def declaredInChildren (parent : Node) (outer : List Scope) (place : Position) (slot index : Nat) :
    List (Option Node) → List Declaration
  | [] => []
  | none :: rest => declaredInChildren parent outer place slot (index + 1) rest
  | some child :: rest =>
    declaredFrom parent outer (place ++ [⟨slot, some index⟩]) child ++
      declaredInChildren parent outer place slot (index + 1) rest

end

/-- What the node of a site declares. -/
def declaredAt (root : Node) (site : Site) : List Declaration :=
  match site.place.parent? with
  | none => []
  | some above =>
    declarationsAt (scopesAround root site.place) (scopesAround root above) (root.get? above) site

theorem declarations_eq (root : Node) :
    declarations root = root.sites.flatMap (declaredAt root) := rfl

theorem place_of_mem_declaredAt {t : Node} {site : Site} {d : Declaration}
    (h : d ∈ declaredAt t site) : d.place = site.place := by
  unfold declaredAt at h
  split at h
  · cases h
  · exact place_of_mem_declarationsAt h

mutual

theorem flatMap_sitesAt {t parent : Node} {above : Position} {last : Step}
    (hparent : t.get? above = some parent) : ∀ n : Node, t.get? (above ++ [last]) = some n →
      (Node.sitesAt (above ++ [last]) n).flatMap (declaredAt t) =
        declaredFrom parent (scopesAround t above) (above ++ [last]) n
  | .mk kind slots, hn => by
      have hchild : parent.child? last = some (.mk kind slots) := by
        rw [Node.get?_concat, hparent] at hn
        exact hn
      rw [Node.sitesAt, List.flatMap_cons, declaredFrom, ← scopesAround_concat hparent hchild]
      congr 1
      · simp only [declaredAt, Position.parent?_concat, hparent]
      · refine flatMap_slotSites hn 0 slots fun i index c hc => ?_
        rw [Node.get?_concat, hn, Option.bind_some, Node.child?_mk, Nat.zero_add, hc]

theorem flatMap_slotSites {t parent : Node} {place : Position} (hparent : t.get? place = some parent) :
    ∀ (slot : Nat) (slots : List Slot), (∀ i index c, Node.childOfSlots slots i index = some c →
        t.get? (place ++ [⟨slot + i, index⟩]) = some c) →
      (Node.slotSites place slot slots).flatMap (declaredAt t) =
        declaredInSlots parent (scopesAround t place) place slot slots
  | slot, [], _ => rfl
  | slot, .one none :: rest, h => by
      rw [Node.slotSites, declaredInSlots]
      refine flatMap_slotSites hparent (slot + 1) rest fun i index c hc => ?_
      rw [Nat.add_assoc, Nat.add_comm 1]
      exact h (i + 1) index c (by simpa using hc)
  | slot, .one (some child) :: rest, h => by
      have hchild : t.get? (place ++ [⟨slot, none⟩]) = some child := h 0 none child rfl
      rw [Node.slotSites, declaredInSlots, List.flatMap_append, flatMap_sitesAt hparent child hchild]
      refine congrArg _ (flatMap_slotSites hparent (slot + 1) rest fun i index c hc => ?_)
      rw [Nat.add_assoc, Nat.add_comm 1]
      exact h (i + 1) index c (by simpa using hc)
  | slot, .many children :: rest, h => by
      rw [Node.slotSites, declaredInSlots, List.flatMap_append,
        flatMap_childSites hparent 0 children fun j c hc => by
          rw [Nat.zero_add]
          exact h 0 (some j) c (by simp [hc])]
      refine congrArg _ (flatMap_slotSites hparent (slot + 1) rest fun i index c hc => ?_)
      rw [Nat.add_assoc, Nat.add_comm 1]
      exact h (i + 1) index c (by simpa using hc)

theorem flatMap_childSites {t parent : Node} {place : Position} {slot : Nat}
    (hparent : t.get? place = some parent) :
    ∀ (index : Nat) (children : List (Option Node)), (∀ (j : Nat) (c : Node),
        children[j]? = some (some c) → t.get? (place ++ [⟨slot, some (index + j)⟩]) = some c) →
      (Node.childSites place slot index children).flatMap (declaredAt t) =
        declaredInChildren parent (scopesAround t place) place slot index children
  | index, [], _ => rfl
  | index, none :: rest, h => by
      rw [Node.childSites, declaredInChildren]
      refine flatMap_childSites hparent (index + 1) rest fun j c hc => ?_
      rw [Nat.add_assoc, Nat.add_comm 1]
      exact h (j + 1) c (by simpa using hc)
  | index, some child :: rest, h => by
      have hchild : t.get? (place ++ [⟨slot, some index⟩]) = some child := h 0 child rfl
      rw [Node.childSites, declaredInChildren, List.flatMap_append,
        flatMap_sitesAt hparent child hchild]
      refine congrArg _ (flatMap_childSites hparent (index + 1) rest fun j c hc => ?_)
      rw [Nat.add_assoc, Nat.add_comm 1]
      exact h (j + 1) c (by simpa using hc)

end

/-- **The declarations of a tree** are those collected on the way down. -/
theorem declarations_eq_walk (t : Node) :
    declarations t = declaredInSlots t [⟨[], true⟩] [] 0 t.slots := by
  obtain ⟨kind, slots⟩ := t
  rw [declarations_eq, Node.sites, Node.sitesAt, List.flatMap_cons]
  refine flatMap_slotSites rfl 0 slots fun i index c hc => ?_
  rw [List.nil_append, Node.get?_cons, Node.child?_mk, Nat.zero_add, hc]
  rfl

/-! ## Trees that declare nothing -/

/-- The node binds no name, whatever its parent is. -/
def Node.BindsNothing (n : Node) : Prop := ∀ parent s, bindsBy parent n.kind n.skeleton s = none

mutual

theorem declaredFrom_eq_nil {parent : Node} {outer : List Scope} {place : Position} :
    ∀ n : Node, n.Everywhere Node.BindsNothing → declaredFrom parent outer place n = []
  | .mk kind slots, h => by
      obtain ⟨hnode, hslots⟩ := Node.everywhere_mk.mp h
      rw [declaredFrom, declaredInSlots_eq_nil slots hslots, List.append_nil,
        List.eq_nil_iff_forall_not_mem]
      intro d hd
      obtain ⟨s, c, home, hbinds, -⟩ := declaresAt_of_mem hd
      rw [hnode] at hbinds
      cases hbinds

theorem declaredInSlots_eq_nil {parent : Node} {outer : List Scope} {place : Position} {slot : Nat} :
    ∀ slots : List Slot, Node.InSlots Node.BindsNothing slots →
      declaredInSlots parent outer place slot slots = []
  | [], _ => rfl
  | .one none :: rest, h => by
      rw [declaredInSlots, declaredInSlots_eq_nil rest h]
  | .one (some child) :: rest, h => by
      rw [declaredInSlots, declaredFrom_eq_nil child h.1, declaredInSlots_eq_nil rest h.2,
        List.append_nil]
  | .many children :: rest, h => by
      rw [declaredInSlots, declaredInChildren_eq_nil children h.1, declaredInSlots_eq_nil rest h.2,
        List.append_nil]

theorem declaredInChildren_eq_nil {parent : Node} {outer : List Scope} {place : Position}
    {slot index : Nat} : ∀ children : List (Option Node),
      (∀ c, some c ∈ children → c.Everywhere Node.BindsNothing) →
        declaredInChildren parent outer place slot index children = []
  | [], _ => rfl
  | none :: rest, h => by
      rw [declaredInChildren, declaredInChildren_eq_nil rest fun c hc => h c (List.mem_cons_of_mem _ hc)]
  | some child :: rest, h => by
      rw [declaredInChildren, declaredFrom_eq_nil child (h child List.mem_cons_self),
        declaredInChildren_eq_nil rest fun c hc => h c (List.mem_cons_of_mem _ hc), List.append_nil]

end

end Descramble

import Mathlib.Data.List.Basic
import Descramble.Tree.Literal
import Descramble.Tree.Position

/-!
# Renamed trees

A renaming changes the names of all identifiers of a tree and nothing else.  A shape with names in it
is found in the renamed tree just where it is found in the tree.

* `Node.renamed` — the map on trees.
* `Node.renamed_eq_mk_iff`, `Slot.renamed_eq_one_iff`, `Slot.renamed_eq_many_iff` — what a renamed tree
  with some shape is the renaming of.
* `Node.isIdentifier_renamed` — an injective renaming keeps names apart.
* `Node.sites_renamed` — the walk comes to the same places.
-/

set_option autoImplicit false

namespace Descramble

/-- The kind with another name, if it is that of an identifier. -/
def Kind.renamed (r : String → String) : Kind → Kind
  | .identifier name => .identifier (r name)
  | kind => kind

mutual

/-- The tree in which every identifier has the name that `r` gives to its own. -/
def Node.renamed (r : String → String) : Node → Node
  | .mk kind slots => .mk (kind.renamed r) (slotsRenamed r slots)

def slotsRenamed (r : String → String) : List Slot → List Slot
  | [] => []
  | .one none :: rest => .one none :: slotsRenamed r rest
  | .one (some child) :: rest => .one (some (child.renamed r)) :: slotsRenamed r rest
  | .many children :: rest => .many (childrenRenamed r children) :: slotsRenamed r rest

def childrenRenamed (r : String → String) : List (Option Node) → List (Option Node)
  | [] => []
  | none :: rest => none :: childrenRenamed r rest
  | some child :: rest => some (child.renamed r) :: childrenRenamed r rest

end

/-- The slot with its trees renamed. -/
def Slot.renamed (r : String → String) : Slot → Slot
  | .one child => .one (child.map (Node.renamed r))
  | .many children => .many (children.map (Option.map (Node.renamed r)))

/-- The site with its tree renamed. -/
def Site.renamed (r : String → String) (site : Site) : Site := ⟨site.place, site.node.renamed r⟩

variable {r : String → String}

theorem childrenRenamed_eq_map (children : List (Option Node)) :
    childrenRenamed r children = children.map (Option.map (Node.renamed r)) := by
  induction children with
  | nil => rfl
  | cons child rest ih => cases child <;> rw [childrenRenamed, ih] <;> rfl

theorem slotsRenamed_eq_map (slots : List Slot) :
    slotsRenamed r slots = slots.map (Slot.renamed r) := by
  induction slots with
  | nil => rfl
  | cons slot rest ih =>
      cases slot with
      | one child => cases child <;> rw [slotsRenamed, ih] <;> rfl
      | many children =>
          rw [slotsRenamed, ih, childrenRenamed_eq_map]
          rfl

@[simp] theorem Node.renamed_mk (k : Kind) (slots : List Slot) :
    (Node.mk k slots).renamed r = .mk (k.renamed r) (slots.map (Slot.renamed r)) := by
  rw [Node.renamed, slotsRenamed_eq_map]

@[simp] theorem Slot.renamed_one (child : Option Node) :
    (Slot.one child).renamed r = .one (child.map (Node.renamed r)) := rfl

@[simp] theorem Slot.renamed_many (children : List (Option Node)) :
    (Slot.many children).renamed r = .many (children.map (Option.map (Node.renamed r))) := rfl

@[simp] theorem Node.kind_renamed (n : Node) : (n.renamed r).kind = n.kind.renamed r := by
  cases n
  simp [Node.kind]

/-! ## Shapes -/

@[simp] theorem Kind.renamed_eq_identifier_iff {k : Kind} {name : String} :
    k.renamed r = .identifier name ↔ ∃ name₀, k = .identifier name₀ ∧ r name₀ = name := by
  cases k <;> simp [Kind.renamed]

/-- Only identifiers change. -/
theorem Kind.renamed_eq_iff {k k' : Kind} (h : ∀ name, k' ≠ .identifier name) :
    k.renamed r = k' ↔ k = k' := by
  cases k with
  | identifier name =>
      rw [Kind.renamed]
      exact iff_of_false (fun he => h _ he.symm) fun he => h _ he.symm
  | _ => rw [Kind.renamed]; simp

@[simp] theorem Node.renamed_eq_mk_iff {n : Node} {k : Kind} {slots : List Slot} :
    n.renamed r = .mk k slots ↔ ∃ k₀ slots₀, n = .mk k₀ slots₀ ∧ k₀.renamed r = k ∧
      slots₀.map (Slot.renamed r) = slots := by
  constructor
  · obtain ⟨k₀, slots₀⟩ := n
    intro h
    rw [Node.renamed_mk] at h
    cases h
    exact ⟨k₀, slots₀, rfl, rfl, rfl⟩
  · rintro ⟨k₀, slots₀, rfl, rfl, rfl⟩
    exact Node.renamed_mk k₀ slots₀

@[simp] theorem Slot.renamed_eq_one_iff {s : Slot} {child : Option Node} :
    s.renamed r = .one child ↔ ∃ child₀, s = .one child₀ ∧ child₀.map (Node.renamed r) = child := by
  cases s <;> simp

@[simp] theorem Slot.renamed_eq_many_iff {s : Slot} {children : List (Option Node)} :
    s.renamed r = .many children ↔
      ∃ children₀, s = .many children₀ ∧ children₀.map (Option.map (Node.renamed r)) = children := by
  cases s <;> simp

/-! ## Literals and names -/

@[simp] theorem Node.constant?_renamed (n : Node) : (n.renamed r).constant? = n.constant? := by
  obtain ⟨k, slots⟩ := n
  cases k <;> simp [Node.constant?, Kind.renamed]

@[simp] theorem Node.integerLiteral?_renamed (n : Node) :
    (n.renamed r).integerLiteral? = n.integerLiteral? := by
  simp only [Node.integerLiteral?, Node.constant?_renamed]

/-- **An injective renaming keeps names apart**: the identifiers with a name are those with the new
name. -/
theorem Node.isIdentifier_renamed (hr : Function.Injective r) (n : Node) (name : Option String) :
    (n.renamed r).isIdentifier (name.map r) = n.isIdentifier name := by
  obtain ⟨k, slots⟩ := n
  cases name <;> cases k <;> simp [Node.isIdentifier, Node.kind, Kind.renamed, hr.eq_iff]

/-! ## The walk -/

mutual

theorem Node.sitesAt_renamed (place : Position) : ∀ n : Node,
    (n.renamed r).sitesAt place = (n.sitesAt place).map (Site.renamed r)
  | .mk kind slots => by
      rw [Node.renamed_mk, Node.sitesAt, Node.sitesAt, List.map_cons, Site.renamed, Node.renamed_mk,
        slotSites_renamed place 0 slots]

theorem slotSites_renamed (place : Position) : ∀ (slot : Nat) (slots : List Slot),
    Node.slotSites place slot (slots.map (Slot.renamed r)) =
      (Node.slotSites place slot slots).map (Site.renamed r)
  | _, [] => rfl
  | slot, .one none :: rest => by
      rw [List.map_cons, Slot.renamed_one, Option.map_none, Node.slotSites, Node.slotSites,
        slotSites_renamed place (slot + 1) rest]
  | slot, .one (some child) :: rest => by
      rw [List.map_cons, Slot.renamed_one, Option.map_some, Node.slotSites, Node.slotSites,
        List.map_append, Node.sitesAt_renamed _ child, slotSites_renamed place (slot + 1) rest]
  | slot, .many children :: rest => by
      rw [List.map_cons, Slot.renamed_many, Node.slotSites, Node.slotSites, List.map_append,
        childSites_renamed place slot 0 children, slotSites_renamed place (slot + 1) rest]

theorem childSites_renamed (place : Position) (slot index : Nat) : ∀ children : List (Option Node),
    Node.childSites place slot index (children.map (Option.map (Node.renamed r))) =
      (Node.childSites place slot index children).map (Site.renamed r)
  | [] => rfl
  | none :: rest => by
      rw [List.map_cons, Option.map_none, Node.childSites, Node.childSites,
        childSites_renamed place slot (index + 1) rest]
  | some child :: rest => by
      rw [List.map_cons, Option.map_some, Node.childSites, Node.childSites, List.map_append,
        Node.sitesAt_renamed _ child, childSites_renamed place slot (index + 1) rest]

end

/-- **The walk through a renamed tree** comes to the same places in the same order. -/
theorem Node.sites_renamed (t : Node) : (t.renamed r).sites = t.sites.map (Site.renamed r) :=
  Node.sitesAt_renamed [] t

end Descramble

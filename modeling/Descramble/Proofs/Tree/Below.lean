import Descramble.Proofs.Tree.Place

/-!
# Edits and walks below a step

An edit below a step is one of the child there, and the walk below it is that of the child, further
down.

* `Node.modifyAt_congr`, `Node.modifyAt_id` — an edit is what it makes of the node at its place.
* `Node.modifyChild_modifyChild` — two changes of one child are one.
* `Node.modifyChild_append` — the change of a child in a given slot.
* `Site.under`, `Node.sitesAt_eq` — the sites of a tree that stands below a place.
* `Node.places_mk`, `Node.places_child` — the places of a node and those of a child.
-/

set_option autoImplicit false

namespace Descramble

namespace Node

/-! ## Edits -/

/-- An edit depends only on what it makes of the node at its place. -/
theorem modifyAt_congr {f g : Node → Node} : ∀ {n : Node} {q : Position},
    (∀ m, n.get? q = some m → f m = g m) → n.modifyAt f q = n.modifyAt g q
  | n, [], h => h n rfl
  | .mk k slots, s :: q, h => by
      simp only [modifyAt_cons, modifyChild]
      cases hc : (Node.mk k slots).child? s with
      | none => rfl
      | some c =>
          have hchild : c.modifyAt f q = c.modifyAt g q := modifyAt_congr fun m hm => h m (by
            rw [get?_cons, hc]
            exact hm)
          simp only [hchild]

theorem modifyChild_id {f : Node → Node} {n : Node} {s : Step}
    (h : ∀ c, n.child? s = some c → f c = c) : n.modifyChild f s = n := by
  cases hc : n.child? s with
  | none =>
      obtain ⟨k, slots⟩ := n
      simp only [modifyChild, hc]
  | some c => exact modifyChild_eq_self hc (h c hc)

theorem modifyAt_id {f : Node → Node} : ∀ {n : Node} {q : Position},
    (∀ m, n.get? q = some m → f m = m) → n.modifyAt f q = n
  | n, [], h => h n rfl
  | n, s :: q, h => by
      rw [modifyAt_cons]
      refine modifyChild_id fun c hc => modifyAt_id fun m hm => h m ?_
      rw [get?_cons, hc]
      exact hm

theorem setAt_setAt (slot : Slot) (index : Option Nat) (c d : Option Node) :
    (slot.setAt index c).setAt index d = slot.setAt index d := by
  cases slot <;> cases index <;> simp [Slot.setAt]

/-- Two changes of one child are one change. -/
theorem modifyChild_modifyChild (f g : Node → Node) (n : Node) (s : Step) :
    (n.modifyChild f s).modifyChild g s = n.modifyChild (g ∘ f) s := by
  have hchild := child?_modifyChild f n s s
  rw [if_pos rfl] at hchild
  obtain ⟨k, slots⟩ := n
  cases hc : (Node.mk k slots).child? s with
  | none => simp only [modifyChild, hc]
  | some c =>
      rw [hc, Option.map_some] at hchild
      simp only [modifyChild, hc] at hchild ⊢
      simp only [hchild, List.modify_modify_eq, Function.comp_def, setAt_setAt]

/-- The change of a child in a slot between others. -/
theorem modifyChild_append (f : Node → Node) (k : Kind) (done rest : List Slot) {slot : Slot}
    {index : Option Nat} {c : Node} (h : childOfSlots [slot] 0 index = some c) :
    (Node.mk k (done ++ slot :: rest)).modifyChild f ⟨done.length, index⟩ =
      .mk k (done ++ slot.setAt index (some (f c)) :: rest) := by
  have hchild : (Node.mk k (done ++ slot :: rest)).child? ⟨done.length, index⟩ = some c := by
    rw [child?_mk, ← h]
    simp [childOfSlots]
  simp only [modifyChild, hchild]
  refine congrArg (Node.mk k) (List.ext_getElem? fun i => ?_)
  rw [List.getElem?_modify]
  rcases Nat.lt_trichotomy i done.length with hi | rfl | hi
  · rw [List.getElem?_append_left hi, List.getElem?_append_left hi]
    simp [Nat.ne_of_gt hi]
  · simp
  · rw [List.getElem?_append_right (Nat.le_of_lt hi), List.getElem?_append_right (Nat.le_of_lt hi)]
    obtain ⟨j, hj⟩ := Nat.exists_eq_succ_of_ne_zero (Nat.sub_ne_zero_of_lt hi)
    simp [Nat.ne_of_lt hi, hj]

/-! ## Walks -/

end Node

/-- The site in a tree that stands below a place. -/
def Site.under (p : Position) (site : Site) : Site := ⟨p ++ site.place, site.node⟩

namespace Node

mutual

/-- The walk of a tree further down goes through the same sites, further down. -/
theorem sitesAt_under (p : Position) : ∀ (q : Position) (n : Node),
    sitesAt (p ++ q) n = (sitesAt q n).map (Site.under p)
  | q, .mk _ slots => by
      rw [sitesAt, sitesAt, List.map_cons, slotSites_under p q]
      rfl

theorem slotSites_under (p : Position) : ∀ (q : Position) (slot : Nat) (slots : List Slot),
    slotSites (p ++ q) slot slots = (slotSites q slot slots).map (Site.under p)
  | _, _, [] => rfl
  | q, slot, .one none :: rest => by rw [slotSites, slotSites, slotSites_under p q]
  | q, slot, .one (some child) :: rest => by
      rw [slotSites, slotSites, List.map_append, slotSites_under p q, List.append_assoc,
        sitesAt_under p]
  | q, slot, .many children :: rest => by
      rw [slotSites, slotSites, List.map_append, slotSites_under p q, childSites_under p q]

theorem childSites_under (p : Position) : ∀ (q : Position) (slot index : Nat)
    (children : List (Option Node)),
    childSites (p ++ q) slot index children = (childSites q slot index children).map (Site.under p)
  | _, _, _, [] => rfl
  | q, slot, index, none :: rest => by rw [childSites, childSites, childSites_under p q]
  | q, slot, index, some child :: rest => by
      rw [childSites, childSites, List.map_append, childSites_under p q, List.append_assoc,
        sitesAt_under p]

end

/-- The sites of a tree at a place are its own, further down. -/
theorem sitesAt_eq (p : Position) (n : Node) : sitesAt p n = n.sites.map (Site.under p) := by
  have := sitesAt_under p [] n
  rwa [List.append_nil] at this

/-- The places below a child are those of the child, one step further down. -/
theorem places_child (s : Step) (c : Node) :
    (sitesAt [s] c).map Site.place = c.places.map (s :: ·) := by
  rw [sitesAt_eq, places, List.map_map, List.map_map]
  rfl

theorem places_mk (k : Kind) (slots : List Slot) :
    (Node.mk k slots).places = [] :: (slotSites [] 0 slots).map Site.place := by
  rw [places, sites, sitesAt, List.map_cons]

end Node

end Descramble

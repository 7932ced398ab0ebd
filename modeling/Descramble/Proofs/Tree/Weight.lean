import Descramble.Proofs.Tree.Place

/-!
# The weight of a tree

The passes replace heavy nodes by light ones and the sweep takes nodes out, so each of them lowers
the weight of a tree or leaves the tree as it is.

* `Kind.weight`, `Node.weight` — literals are light, and a plain access weighs what its name does.
* `Node.weight_le` — the weight is at most twice the number of nodes that the walk visits.
* `Node.weight_modifyAt` — an edit changes the weight by what it does to the edited part.
* `Node.weight_prune_lt` — pruning lowers the weight if it takes something.
* `Node.prune_false` — pruning nothing changes nothing.
-/

set_option autoImplicit false

namespace Descramble

/-- The weight of a node without its children.  A negated number weighs less than what it can stand
for, and a plain access less than one that computes a name. -/
def Kind.weight : Kind → Nat
  | .literal (.number _) _ _ => 0
  | .literal _ _ _ => 1
  | .unary "-" _ => 1
  | .member false => 0
  | _ => 2

theorem Kind.weight_le (k : Kind) : k.weight ≤ 2 := by
  unfold Kind.weight
  split <;> omega

namespace Node

mutual

/-- The weight of a tree: the sum over its nodes. -/
def weight : Node → Nat
  | .mk kind slots => slotsWeight slots + kind.weight

def slotsWeight : List Slot → Nat
  | [] => 0
  | .one none :: rest => slotsWeight rest
  | .one (some child) :: rest => weight child + slotsWeight rest
  | .many children :: rest => childrenWeight children + slotsWeight rest

def childrenWeight : List (Option Node) → Nat
  | [] => 0
  | none :: rest => childrenWeight rest
  | some child :: rest => weight child + childrenWeight rest

end

/-! ## The weight and the walk -/

mutual

theorem weight_le_sitesAt (place : Position) : ∀ n : Node,
    n.weight ≤ 2 * (sitesAt place n).length
  | .mk kind slots => by
      have h := slotsWeight_le_slotSites place 0 slots
      have hk := kind.weight_le
      simp only [weight, sitesAt, List.length_cons]
      omega

theorem slotsWeight_le_slotSites (place : Position) (slot : Nat) : ∀ slots : List Slot,
    slotsWeight slots ≤ 2 * (slotSites place slot slots).length
  | [] => by simp [slotsWeight]
  | .one none :: rest => by
      simp only [slotsWeight, slotSites]
      exact slotsWeight_le_slotSites place (slot + 1) rest
  | .one (some child) :: rest => by
      have hc := weight_le_sitesAt (place ++ [⟨slot, none⟩]) child
      have h := slotsWeight_le_slotSites place (slot + 1) rest
      simp only [slotsWeight, slotSites, List.length_append]
      omega
  | .many children :: rest => by
      have hc := childrenWeight_le_childSites place slot 0 children
      have h := slotsWeight_le_slotSites place (slot + 1) rest
      simp only [slotsWeight, slotSites, List.length_append]
      omega

theorem childrenWeight_le_childSites (place : Position) (slot index : Nat) :
    ∀ children : List (Option Node),
      childrenWeight children ≤ 2 * (childSites place slot index children).length
  | [] => by simp [childrenWeight]
  | none :: rest => by
      simp only [childrenWeight, childSites]
      exact childrenWeight_le_childSites place slot (index + 1) rest
  | some child :: rest => by
      have hc := weight_le_sitesAt (place ++ [⟨slot, some index⟩]) child
      have h := childrenWeight_le_childSites place slot (index + 1) rest
      simp only [childrenWeight, childSites, List.length_append]
      omega

end

/-- **The weight is at most twice the number of nodes.** -/
theorem weight_le (t : Node) : t.weight ≤ 2 * t.sites.length := weight_le_sitesAt [] t

/-! ## Edits -/

theorem childrenWeight_set {d : Node} : ∀ {children : List (Option Node)} {j : Nat} {c : Node},
    children[j]? = some (some c) →
      childrenWeight (children.set j (some d)) + c.weight = childrenWeight children + d.weight
  | [], _, _, h => by simp at h
  | some c :: rest, 0, _, h => by
      cases h
      simp only [List.set_cons_zero, childrenWeight]
      omega
  | none :: rest, 0, _, h => by cases h
  | none :: rest, j + 1, c, h => by
      have := @childrenWeight_set d rest j c (by simpa using h)
      simpa only [List.set_cons_succ, childrenWeight] using this
  | some e :: rest, j + 1, c, h => by
      have := @childrenWeight_set d rest j c (by simpa using h)
      simp only [List.set_cons_succ, childrenWeight]
      omega

theorem slotsWeight_cons (slot : Slot) (rest : List Slot) :
    slotsWeight (slot :: rest) = slotsWeight [slot] + slotsWeight rest := by
  cases slot with
  | one child => cases child <;> simp [slotsWeight]
  | many children => simp [slotsWeight]

theorem slotsWeight_modify {d : Node} : ∀ {slots : List Slot} {i : Nat} {index : Option Nat} {c : Node},
    childOfSlots slots i index = some c →
      slotsWeight (slots.modify i fun s => s.setAt index (some d)) + c.weight =
        slotsWeight slots + d.weight
  | [], _, _, _, h => by simp at h
  | .one child :: rest, 0, none, c, h => by
      cases h
      simp only [List.modify_zero_cons, Slot.setAt, slotsWeight]
      omega
  | .one child :: rest, 0, some j, c, h => by cases h
  | .many children :: rest, 0, none, c, h => by cases h
  | .many children :: rest, 0, some j, c, h => by
      rw [childOfSlots_many, join_eq_some] at h
      have := @childrenWeight_set d _ _ _ h
      simp only [List.modify_zero_cons, Slot.setAt, slotsWeight]
      omega
  | slot :: rest, i + 1, index, c, h => by
      rw [childOfSlots_cons_succ] at h
      have := @slotsWeight_modify d _ _ _ _ h
      rw [List.modify_succ_cons, slotsWeight_cons, slotsWeight_cons slot rest]
      omega

theorem weight_modifyChild {f : Node → Node} {n c : Node} {s : Step} (h : n.child? s = some c) :
    (n.modifyChild f s).weight + c.weight = n.weight + (f c).weight := by
  obtain ⟨k, slots⟩ := n
  simp only [modifyChild, h, weight]
  have := @slotsWeight_modify (f c) slots s.slot s.index c h
  omega

/-- **An edit changes the weight of a tree by what it does to the edited part.** -/
theorem weight_modifyAt {f : Node → Node} : ∀ {t n : Node} {p : Position}, t.get? p = some n →
    (t.modifyAt f p).weight + n.weight = t.weight + (f n).weight
  | t, n, [], h => by
      cases h
      rw [modifyAt_nil, Nat.add_comm]
  | t, n, s :: p, h => by
      rw [get?_cons] at h
      obtain ⟨c, hc, hn⟩ := Option.bind_eq_some_iff.mp h
      have h₁ := @weight_modifyChild (modifyAt f p) _ _ _ hc
      have h₂ := @weight_modifyAt f _ _ _ hn
      rw [modifyAt_cons]
      omega

/-- **A replacement by a lighter node makes the tree lighter.** -/
theorem weight_replaceAt_lt {t n m : Node} {p : Position} (h : t.get? p = some n)
    (hlt : m.weight < n.weight) : (t.replaceAt p m).weight < t.weight := by
  have := @weight_modifyAt (fun _ => m) _ _ _ h
  unfold replaceAt
  omega

/-- A part is no heavier than the whole. -/
theorem weight_le_of_get? {t n : Node} {p : Position} (h : t.get? p = some n) :
    n.weight ≤ t.weight := by
  have hedit := @weight_modifyAt (fun _ => .lit (.number (.int 0)) "0") _ _ _ h
  have hzero : (Node.lit (.number (.int 0)) "0").weight = 0 := rfl
  omega

theorem weight_le_of_mem_sitesAt {place : Position} {n : Node} {site : Site}
    (h : site ∈ sitesAt place n) : site.node.weight ≤ n.weight := by
  obtain ⟨q, -, hq⟩ := mem_sitesAt_iff.mp h
  exact weight_le_of_get? hq

/-! ## Pruning -/

mutual

theorem weight_pruneAt_le (doomed : Position → Bool) (place : Position) : ∀ n : Node,
    (pruneAt doomed place n).weight ≤ n.weight
  | .mk kind slots => by
      have := slotsWeight_pruneSlots_le doomed place 0 slots
      simp only [pruneAt, weight]
      omega

theorem slotsWeight_pruneSlots_le (doomed : Position → Bool) (place : Position) (slot : Nat) :
    ∀ slots : List Slot, slotsWeight (pruneSlots doomed place slot slots) ≤ slotsWeight slots
  | [] => by simp [pruneSlots]
  | .one none :: rest => by
      have := slotsWeight_pruneSlots_le doomed place (slot + 1) rest
      simpa only [pruneSlots, slotsWeight] using this
  | .one (some child) :: rest => by
      have h := slotsWeight_pruneSlots_le doomed place (slot + 1) rest
      have hc := weight_pruneAt_le doomed (place ++ [⟨slot, none⟩]) child
      simp only [pruneSlots]
      split <;> simp only [slotsWeight] <;> omega
  | .many children :: rest => by
      have h := slotsWeight_pruneSlots_le doomed place (slot + 1) rest
      have hc := childrenWeight_pruneChildren_le doomed place slot 0 children
      simp only [pruneSlots, slotsWeight]
      omega

theorem childrenWeight_pruneChildren_le (doomed : Position → Bool) (place : Position)
    (slot index : Nat) : ∀ children : List (Option Node),
      childrenWeight (pruneChildren doomed place slot index children) ≤ childrenWeight children
  | [] => by simp [pruneChildren]
  | none :: rest => by
      have := childrenWeight_pruneChildren_le doomed place slot (index + 1) rest
      simpa only [pruneChildren, childrenWeight] using this
  | some child :: rest => by
      have h := childrenWeight_pruneChildren_le doomed place slot (index + 1) rest
      have hc := weight_pruneAt_le doomed (place ++ [⟨slot, some index⟩]) child
      simp only [pruneChildren]
      split <;> simp only [childrenWeight] <;> omega

end

mutual

/-- A node that stays gets lighter if one of the sites of its tree is doomed and weighs something. -/
theorem weight_pruneAt_lt (doomed : Position → Bool) (place : Position) : ∀ (n : Node) (site : Site),
    ¬ doomed place = true → site ∈ sitesAt place n → doomed site.place = true →
      0 < site.node.weight → (pruneAt doomed place n).weight < n.weight
  | .mk kind slots, site, hkept, hs, hd, hpos => by
      rw [sitesAt, List.mem_cons] at hs
      rcases hs with rfl | hs
      · exact absurd hd hkept
      · have := slotsWeight_pruneSlots_lt doomed place 0 slots site hs hd hpos
        simp only [pruneAt, weight]
        omega

theorem slotsWeight_pruneSlots_lt (doomed : Position → Bool) (place : Position) (slot : Nat) :
    ∀ (slots : List Slot) (site : Site), site ∈ slotSites place slot slots →
      doomed site.place = true → 0 < site.node.weight →
        slotsWeight (pruneSlots doomed place slot slots) < slotsWeight slots
  | [], site, hs, _, _ => by simp [slotSites] at hs
  | .one none :: rest, site, hs, hd, hpos => by
      have := slotsWeight_pruneSlots_lt doomed place (slot + 1) rest site hs hd hpos
      simpa only [pruneSlots, slotsWeight] using this
  | .one (some child) :: rest, site, hs, hd, hpos => by
      have hle := slotsWeight_pruneSlots_le doomed place (slot + 1) rest
      have hcle := weight_pruneAt_le doomed (place ++ [⟨slot, none⟩]) child
      rw [slotSites, List.mem_append] at hs
      simp only [pruneSlots]
      rcases hs with hs | hs
      · have hsite := weight_le_of_mem_sitesAt hs
        split
        · simp only [slotsWeight]
          omega
        · rename_i hkept
          have := weight_pruneAt_lt doomed _ child site hkept hs hd hpos
          simp only [slotsWeight]
          omega
      · have := slotsWeight_pruneSlots_lt doomed place (slot + 1) rest site hs hd hpos
        split <;> simp only [slotsWeight] <;> omega
  | .many children :: rest, site, hs, hd, hpos => by
      have hle := slotsWeight_pruneSlots_le doomed place (slot + 1) rest
      have hcle := childrenWeight_pruneChildren_le doomed place slot 0 children
      simp only [pruneSlots, slotsWeight]
      rw [slotSites, List.mem_append] at hs
      rcases hs with hs | hs
      · have := childrenWeight_pruneChildren_lt doomed place slot 0 children site hs hd hpos
        omega
      · have := slotsWeight_pruneSlots_lt doomed place (slot + 1) rest site hs hd hpos
        omega

theorem childrenWeight_pruneChildren_lt (doomed : Position → Bool) (place : Position)
    (slot index : Nat) : ∀ (children : List (Option Node)) (site : Site),
      site ∈ childSites place slot index children → doomed site.place = true →
        0 < site.node.weight →
          childrenWeight (pruneChildren doomed place slot index children) < childrenWeight children
  | [], site, hs, _, _ => by simp [childSites] at hs
  | none :: rest, site, hs, hd, hpos => by
      have := childrenWeight_pruneChildren_lt doomed place slot (index + 1) rest site hs hd hpos
      simpa only [pruneChildren, childrenWeight] using this
  | some child :: rest, site, hs, hd, hpos => by
      have hle := childrenWeight_pruneChildren_le doomed place slot (index + 1) rest
      have hcle := weight_pruneAt_le doomed (place ++ [⟨slot, some index⟩]) child
      rw [childSites, List.mem_append] at hs
      simp only [pruneChildren]
      rcases hs with hs | hs
      · have hsite := weight_le_of_mem_sitesAt hs
        split
        · simp only [childrenWeight]
          omega
        · rename_i hkept
          have := weight_pruneAt_lt doomed _ child site hkept hs hd hpos
          simp only [childrenWeight]
          omega
      · have := childrenWeight_pruneChildren_lt doomed place slot (index + 1) rest site hs hd hpos
        split <;> simp only [childrenWeight] <;> omega

end

/-- **Pruning makes a tree lighter** if something below the root is doomed and weighs something. -/
theorem weight_prune_lt {doomed : Position → Bool} {t n : Node} {p : Position}
    (hn : t.get? p = some n) (hp : p ≠ []) (hd : doomed p = true) (hpos : 0 < n.weight) :
    (t.prune doomed).weight < t.weight := by
  have hs : (⟨p, n⟩ : Site) ∈ t.sites := mem_sites_iff.mpr hn
  obtain ⟨kind, slots⟩ := t
  rw [sites, sitesAt, List.mem_cons] at hs
  rcases hs with hs | hs
  · cases hs
    exact absurd rfl hp
  · have := slotsWeight_pruneSlots_lt doomed [] 0 slots _ hs hd hpos
    simp only [prune, pruneAt, weight]
    omega

/-- What is not doomed below a place is not doomed below its children. -/
theorem not_doomed_below {doomed : Position → Bool} {place : Position}
    (h : ∀ q, place <+: q → q ≠ place → doomed q = false) (s : Step) :
    ∀ q, place ++ [s] <+: q → q ≠ place ++ [s] → doomed q = false := by
  intro q hq _
  refine h q ((List.prefix_append _ _).trans hq) ?_
  rintro rfl
  exact Position.not_append_prefix (List.cons_ne_nil s []) hq

section
variable {doomed : Position → Bool}

mutual

/-- **Where nothing below is doomed**, pruning changes nothing. -/
theorem pruneAt_eq_self {place : Position} : ∀ n : Node,
    (∀ q, place <+: q → q ≠ place → doomed q = false) → pruneAt doomed place n = n
  | .mk kind slots, h => by rw [pruneAt, pruneSlots_eq_self slots h]

theorem pruneSlots_eq_self {place : Position} {slot : Nat} : ∀ slots : List Slot,
    (∀ q, place <+: q → q ≠ place → doomed q = false) → pruneSlots doomed place slot slots = slots
  | [], _ => by rw [pruneSlots]
  | .one none :: rest, h => by rw [pruneSlots, pruneSlots_eq_self rest h]
  | .one (some child) :: rest, h => by
      have hhere := h (place ++ [⟨slot, none⟩]) (List.prefix_append _ _) (by simp)
      have hchild := pruneAt_eq_self child (not_doomed_below h ⟨slot, none⟩)
      rw [pruneSlots, pruneSlots_eq_self rest h]
      simp only [hhere, Bool.false_eq_true, if_false, hchild]
  | .many children :: rest, h => by
      rw [pruneSlots, pruneSlots_eq_self rest h, pruneChildren_eq_self children h]

theorem pruneChildren_eq_self {place : Position} {slot index : Nat} :
    ∀ children : List (Option Node), (∀ q, place <+: q → q ≠ place → doomed q = false) →
      pruneChildren doomed place slot index children = children
  | [], _ => by rw [pruneChildren]
  | none :: rest, h => by rw [pruneChildren, pruneChildren_eq_self rest h]
  | some child :: rest, h => by
      have hhere := h (place ++ [⟨slot, some index⟩]) (List.prefix_append _ _) (by simp)
      have hchild := pruneAt_eq_self child (not_doomed_below h ⟨slot, some index⟩)
      rw [pruneChildren, pruneChildren_eq_self rest h]
      simp only [hhere, Bool.false_eq_true, if_false, hchild]

end

end

/-- **Pruning nothing changes nothing.** -/
theorem prune_false (t : Node) : t.prune (fun _ => false) = t :=
  pruneAt_eq_self t fun _ _ _ => rfl

end Node

end Descramble

import Descramble.Proofs.Tree.Place

/-!
# What holds at every node

* `Node.Everywhere` — a property of all nodes of a tree.
* `Node.everywhere_mk` — it holds of a tree if it holds of the root and of the trees in the slots.
-/

set_option autoImplicit false

namespace Descramble

namespace Node

variable {P : Node → Prop}

/-- The property holds of every node of the tree. -/
def Everywhere (P : Node → Prop) (t : Node) : Prop := ∀ p n, t.get? p = some n → P n

/-- The property holds of every node in the slots. -/
def InSlots (P : Node → Prop) : List Slot → Prop
  | [] => True
  | .one none :: rest => InSlots P rest
  | .one (some child) :: rest => child.Everywhere P ∧ InSlots P rest
  | .many children :: rest => (∀ c, some c ∈ children → c.Everywhere P) ∧ InSlots P rest

theorem everywhere_iff_child {n : Node} :
    n.Everywhere P ↔ P n ∧ ∀ s c, n.child? s = some c → c.Everywhere P := by
  constructor
  · intro h
    refine ⟨h [] n rfl, fun s c hc p m hm => h (s :: p) m ?_⟩
    rw [get?_cons, hc]
    exact hm
  · rintro ⟨hn, hchildren⟩ p m hm
    cases p with
    | nil =>
        cases hm
        exact hn
    | cons s p =>
        rw [get?_cons] at hm
        obtain ⟨c, hc, hm⟩ := Option.bind_eq_some_iff.mp hm
        exact hchildren s c hc p m hm

theorem inSlots_iff : ∀ {slots : List Slot}, InSlots P slots ↔
    ∀ i index c, childOfSlots slots i index = some c → c.Everywhere P
  | [] => by simp [InSlots]
  | .one none :: rest => by
      rw [InSlots, inSlots_iff]
      constructor
      · intro h i index c hc
        cases i with
        | zero => cases index <;> cases hc
        | succ i => exact h i index c (by simpa using hc)
      · intro h i index c hc
        exact h (i + 1) index c (by simpa using hc)
  | .one (some child) :: rest => by
      rw [InSlots, inSlots_iff]
      constructor
      · rintro ⟨hchild, h⟩ i index c hc
        cases i with
        | zero =>
            cases index with
            | none =>
                cases hc
                exact hchild
            | some j => cases hc
        | succ i => exact h i index c (by simpa using hc)
      · intro h
        exact ⟨h 0 none child rfl, fun i index c hc => h (i + 1) index c (by simpa using hc)⟩
  | .many children :: rest => by
      rw [InSlots, inSlots_iff]
      constructor
      · rintro ⟨hchildren, h⟩ i index c hc
        cases i with
        | zero =>
            cases index with
            | none => cases hc
            | some j => exact hchildren c (List.mem_of_getElem? (join_eq_some.mp hc))
        | succ i => exact h i index c (by simpa using hc)
      · intro h
        refine ⟨fun c hc => ?_, fun i index c hc => h (i + 1) index c (by simpa using hc)⟩
        obtain ⟨j, hj⟩ := List.mem_iff_getElem?.mp hc
        exact h 0 (some j) c (by simp [hj])

/-- **A property holds everywhere** if it holds of the root and in all slots. -/
theorem everywhere_mk {k : Kind} {slots : List Slot} :
    (Node.mk k slots).Everywhere P ↔ P (.mk k slots) ∧ InSlots P slots := by
  rw [everywhere_iff_child, inSlots_iff]
  constructor
  · rintro ⟨hn, h⟩
    exact ⟨hn, fun i index c hc => h ⟨i, index⟩ c hc⟩
  · rintro ⟨hn, h⟩
    exact ⟨hn, fun s c hc => h s.slot s.index c hc⟩

theorem everywhere_leaf {k : Kind} : (Node.leaf k).Everywhere P ↔ P (.leaf k) := by
  rw [everywhere_mk]
  simp [InSlots]

end Node

end Descramble

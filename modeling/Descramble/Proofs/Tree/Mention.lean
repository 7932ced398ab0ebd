import Descramble.Proofs.Tree.Pruned

/-!
# Searching what is left of a tree

* `Node.mentions_iff` — a search finds a node at the root or goes on to the children.
* `Node.mentions_pruneAt` — what a search finds is found in the pruned tree, if all that is removed
  lies below nodes that the search stops at.
-/

set_option autoImplicit false

namespace Descramble

namespace Node

variable {stop test : Node → Bool}

theorem childrenMention_iff {children : List (Option Node)} :
    childrenMention stop test children = true ↔
      ∃ c, some c ∈ children ∧ c.mentions stop test = true := by
  induction children with
  | nil => simp [childrenMention]
  | cons child rest ih =>
      cases child with
      | none => simp [childrenMention, ih]
      | some child => simp [childrenMention, ih, or_and_right, exists_or]

theorem slotsMention_iff : ∀ {slots : List Slot}, slotsMention stop test slots = true ↔
    ∃ i index c, childOfSlots slots i index = some c ∧ c.mentions stop test = true
  | [] => by simp [slotsMention]
  | slot :: rest => by
      have hrest : (∃ i index c, childOfSlots (slot :: rest) (i + 1) index = some c ∧
          c.mentions stop test = true) ↔ slotsMention stop test rest = true := by
        simp only [childOfSlots_cons_succ, slotsMention_iff]
      have hsplit : slotsMention stop test (slot :: rest) = true ↔
          (∃ index c, childOfSlots (slot :: rest) 0 index = some c ∧
            c.mentions stop test = true) ∨ slotsMention stop test rest = true := by
        rcases slot with (_ | child) | children
        · rw [slotsMention]
          refine (or_iff_right ?_).symm
          rintro ⟨index, c, hc, -⟩
          cases index <;> cases hc
        · rw [slotsMention, Bool.or_eq_true]
          refine or_congr_left ⟨fun h => ⟨none, child, rfl, h⟩, ?_⟩
          rintro ⟨index, c, hc, h⟩
          cases index <;> cases hc
          exact h
        · rw [slotsMention, Bool.or_eq_true, childrenMention_iff]
          refine or_congr_left ⟨?_, ?_⟩
          · rintro ⟨c, hc, h⟩
            obtain ⟨j, hj⟩ := List.mem_iff_getElem?.mp hc
            exact ⟨some j, c, by simp [hj], h⟩
          · rintro ⟨index, c, hc, h⟩
            cases index with
            | none => cases hc
            | some j => exact ⟨c, List.mem_of_getElem? (join_eq_some.mp hc), h⟩
      rw [hsplit, ← hrest]
      constructor
      · rintro (⟨index, c, h⟩ | ⟨i, index, c, h⟩)
        · exact ⟨0, index, c, h⟩
        · exact ⟨i + 1, index, c, h⟩
      · rintro ⟨i, index, c, h⟩
        cases i with
        | zero => exact Or.inl ⟨index, c, h⟩
        | succ i => exact Or.inr ⟨i, index, c, h⟩

/-- A search that does not stop at a node finds the node or goes on to its children. -/
theorem mentions_iff {n : Node} : n.mentions stop test = true ↔
    stop n = false ∧ (test n = true ∨ ∃ s c, n.child? s = some c ∧ c.mentions stop test = true) := by
  obtain ⟨k, slots⟩ := n
  rw [mentions]
  split
  · rename_i hstop
    simp [hstop]
  · rename_i hstop
    simp only [Bool.not_eq_true] at hstop
    rw [Bool.or_eq_true, slotsMention_iff]
    refine Iff.trans (or_congr_right ?_) (and_iff_right hstop).symm
    exact ⟨fun ⟨i, index, c, h⟩ => ⟨⟨i, index⟩, c, h⟩, fun ⟨s, c, h⟩ => ⟨s.slot, s.index, c, h⟩⟩

/-- **What a search finds stays**, if each node that is removed lies below one that the search stops
at. -/
theorem mentions_pruneAt {doomed : Position → Bool}
    (hkind : ∀ n m : Node, n.kind = m.kind → stop n = stop m ∧ test n = test m) (n : Node) :
    ∀ {place : Position}, (∀ q m, q ≠ [] → n.get? q = some m → doomed (place ++ q) = true →
      ∃ r k, r <+: q ∧ r ≠ q ∧ n.get? r = some k ∧ stop k = true) →
    n.mentions stop test = true → (pruneAt doomed place n).mentions stop test = true := by
  induction n using childInduction with
  | h n ih =>
      intro place hremoved hfound
      obtain ⟨hstop, hfound⟩ := mentions_iff.mp hfound
      obtain ⟨hstops, htests⟩ := hkind (pruneAt doomed place n) n (kind_pruneAt doomed place n)
      refine mentions_iff.mpr ⟨hstops.trans hstop, ?_⟩
      -- what is above a removed place is not the root, where the search goes on
      have hbelow : ∀ {r : Position} {k : Node}, n.get? r = some k → stop k = true → r ≠ [] := by
        rintro r k hk hs rfl
        cases hk
        rw [hstop] at hs
        cases hs
      rcases hfound with htest | ⟨s, c, hc, hfound⟩
      · exact Or.inl (htests.trans htest)
      · have hget : n.get? [s] = some c := by rw [get?_cons, hc]; rfl
        have hstays : doomed (place ++ [s]) = false := by
          refine Bool.eq_false_iff.mpr fun hdoomed => ?_
          obtain ⟨r, k, hr, hne, hk, hs⟩ := hremoved [s] c (by simp) hget hdoomed
          rcases List.prefix_cons_iff.mp hr with rfl | ⟨r', rfl, hr'⟩
          · exact hbelow hk hs rfl
          · rw [List.prefix_nil.mp hr'] at hne
            exact hne rfl
        obtain ⟨s', -, hchild⟩ := exists_child?_pruneAt doomed hc hstays
        refine Or.inr ⟨s', _, hchild, ih s c hc ?_ hfound⟩
        intro q m hq hm hdoomed
        have hgetq : n.get? (s :: q) = some m := by rw [get?_cons, hc]; exact hm
        obtain ⟨r, k, hr, hne, hk, hs⟩ := hremoved (s :: q) m (by simp) hgetq (by simpa using hdoomed)
        rcases List.prefix_cons_iff.mp hr with rfl | ⟨r', rfl, hr'⟩
        · exact absurd rfl (hbelow hk hs)
        · rw [get?_cons, hc] at hk
          exact ⟨r', k, hr', fun h => hne (by rw [h]), hk, hs⟩

end Node

end Descramble

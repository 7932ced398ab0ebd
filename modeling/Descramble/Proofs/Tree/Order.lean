import Descramble.Proofs.Tree.Place

/-!
# Places behind others

* `Position.before_trans` — the order of places goes on.
* `Position.IsBehind` — a place that the walk reaches after all that stands below another one.
* `Node.isBehind_iff` — a place that is not before something below a node is below the node as well,
  or behind it.
* `walkOrder`, `walkOrder_lt_of_before` — the number of a place in the walk, which grows along it.
-/

set_option autoImplicit false

namespace Descramble

namespace Position

theorem stepBefore_trans {a b c : Step} (hab : stepBefore a b = true) (hbc : stepBefore b c = true) :
    stepBefore a c = true := by
  simp only [stepBefore, Bool.or_eq_true, Bool.and_eq_true, decide_eq_true_eq, beq_iff_eq] at *
  omega

theorem stepBefore_irrefl (a : Step) : stepBefore a a = false := by
  simp [stepBefore]

theorem before_trans : ∀ {p q r : Position}, p.before q = true → q.before r = true →
    p.before r = true
  | [], [], _, hpq, _ => by cases hpq
  | [], _ :: _, [], _, hqr => by cases hqr
  | [], _ :: _, _ :: _, _, _ => rfl
  | _ :: _, [], _, hpq, _ => by cases hpq
  | _ :: _, _ :: _, [], _, hqr => by cases hqr
  | a :: p, b :: q, c :: r, hpq, hqr => by
      rw [before] at hpq hqr ⊢
      by_cases hab : a = b
      · subst hab
        rw [if_pos rfl] at hpq
        by_cases hac : a = c
        · rw [if_pos hac] at hqr ⊢
          exact before_trans hpq hqr
        · rwa [if_neg hac] at hqr ⊢
      · rw [if_neg hab] at hpq
        have hac : stepBefore a c = true := by
          by_cases hbc : b = c
          · rwa [← hbc]
          · rw [if_neg hbc] at hqr
            exact stepBefore_trans hpq hqr
        rwa [if_neg fun h => by rw [h, stepBefore_irrefl] at hac; cases hac]

/-- The walk reaches the place after all that stands at the other one or below it. -/
def IsBehind (p g : Position) : Prop := ∀ q : Position, g <+: q → q.before p = true

theorem IsBehind.not_prefix {p g : Position} (h : p.IsBehind g) : ¬ g <+: p := by
  intro hp
  have := h p hp
  rw [before_irrefl] at this
  cases this

theorem IsBehind.not_before {p g d : Position} (h : p.IsBehind g) (hd : g <+: d) :
    p.before d = false := before_asymm (h d hd)

/-- What is behind something below a place that is itself behind another one is behind that one. -/
theorem IsBehind.trans {p q g d : Position} (hp : p.IsBehind g) (hg : g <+: q) (hq : q.IsBehind d) :
    p.IsBehind d := fun _ hd => before_trans (hq _ hd) (hp q hg)

end Position

namespace Node

/-- Of two children of a node one comes first. -/
theorem stepBefore_total {n c c' : Node} {s s' : Step} (h : n.child? s = some c)
    (h' : n.child? s' = some c') (hne : s ≠ s') :
    Position.stepBefore s s' = true ∨ Position.stepBefore s' s = true := by
  obtain ⟨slot, index⟩ := s
  obtain ⟨slot', index'⟩ := s'
  simp only [Position.stepBefore, Bool.or_eq_true, Bool.and_eq_true, decide_eq_true_eq, beq_iff_eq]
  by_cases hslot : slot = slot'
  · subst hslot
    -- one slot holds either a child or a list, so both steps are of the same form
    unfold child? at h h'
    cases hs : n.slots[slot]? with
    | none =>
        simp only [hs] at h
        cases h
    | some holds =>
        simp only [hs] at h h'
        cases holds with
        | one child =>
            cases index with
            | some i => cases h
            | none =>
                cases index' with
                | some j => cases h'
                | none => exact absurd rfl hne
        | many children =>
            cases index with
            | none => cases h
            | some i =>
                cases index' with
                | none => cases h'
                | some j =>
                    have hij : i ≠ j := fun he => hne (he ▸ rfl)
                    show (slot < slot ∨ slot = slot ∧ i < j) ∨ slot < slot ∨ slot = slot ∧ j < i
                    omega
  · omega

/-- **A place that is not before something below a node** stands below the node itself, or behind
it. -/
theorem isBehind_iff {t n m : Node} {g p d : Position} (hp : t.get? p = some n)
    (hd : t.get? d = some m) (hg : g <+: d) (hnot : p.before d = false) :
    p.IsBehind g ↔ ¬ g <+: p := by
  refine ⟨Position.IsBehind.not_prefix, fun hout => ?_⟩
  induction g generalizing t p d with
  | nil => exact absurd List.nil_prefix hout
  | cons s g ih =>
      obtain ⟨rest, rfl⟩ := hg
      cases p with
      | nil => cases hnot
      | cons a p =>
          rw [List.cons_append] at hd hnot
          rw [get?_cons] at hp hd
          obtain ⟨c, hc, hp⟩ := Option.bind_eq_some_iff.mp hp
          obtain ⟨c', hc', hd⟩ := Option.bind_eq_some_iff.mp hd
          rw [Position.before] at hnot
          rintro q ⟨below, rfl⟩
          rw [List.cons_append, Position.before]
          by_cases hsa : a = s
          · subst hsa
            rw [hc] at hc'
            cases hc'
            rw [if_pos rfl] at hnot ⊢
            refine ih hp hd (List.prefix_append ..) hnot (fun h => hout ?_) _
              (List.prefix_append ..)
            exact List.cons_prefix_cons.mpr ⟨rfl, h⟩
          · rw [if_neg hsa] at hnot
            rw [if_neg (Ne.symm hsa)]
            rcases stepBefore_total hc hc' hsa with h | h
            · rw [hnot] at h
              cases h
            · exact h

end Node

/-! ## Numbers of places -/

section
variable {t : Node} {p q : Position}

/-- The number of a place in the walk. -/
def walkOrder (t : Node) (p : Position) : Nat := t.places.idxOf p

/-- Numbers grow along the walk. -/
theorem pairwise_walkOrder (t : Node) : t.places.Pairwise fun p q => walkOrder t p < walkOrder t q := by
  rw [List.pairwise_iff_getElem]
  intro i j hi hj hij
  unfold walkOrder
  rwa [(Node.places_nodup t).idxOf_getElem, (Node.places_nodup t).idxOf_getElem]

/-- The walk goes by the order of places. -/
theorem walkOrder_lt_of_before (hp : p ∈ t.places) (hq : q ∈ t.places) (h : p.before q = true) :
    walkOrder t p < walkOrder t q := by
  obtain ⟨i, hi, rfl⟩ := List.getElem_of_mem hp
  obtain ⟨j, hj, rfl⟩ := List.getElem_of_mem hq
  unfold walkOrder
  rw [(Node.places_nodup t).idxOf_getElem, (Node.places_nodup t).idxOf_getElem]
  rcases Nat.lt_trichotomy i j with hij | rfl | hij
  · exact hij
  · rw [Position.before_irrefl] at h
    cases h
  · have := Position.before_asymm (List.pairwise_iff_getElem.mp (Node.pairwise_places t) j i hj hi hij)
    rw [h] at this
    cases this

end

end Descramble

import Descramble.Proofs.DeadCode.Sweep

/-!
# Slots that must not be empty

A branch, a body and the head of a loop over members must hold a node.  A sweep judges each declarator
by the tree before the sweep, and so it can take all declarators of a declaration that stands alone in
such a slot: each of two dead declarators is removable as long as the other one is there.

* `Kind.mandatorySlots`, `Node.isWhole` — the slots that must hold a node, and trees where they do.
* `sweeps_mandatory_iff` — a sweep empties such a slot only by taking all declarators of a
  declaration.
* `sweep_isWhole_iff` — the trees that a sweep leaves whole.
-/

set_option autoImplicit false

namespace Descramble

/-- The slots of a kind that must hold a node. -/
def Kind.mandatorySlots : Kind → List Nat
  | .ifStatement => [1]
  | .forStatement => [3]
  -- the head and the body
  | .forInStatement _ => [0, 2]
  | .forOfStatement => [0, 2]
  | .whileStatement => [1]
  | .doWhileStatement => [0]
  | .withStatement => [1]
  | .labeled => [1]
  | _ => []

/-- Does every mandatory slot of the tree hold a node? -/
def Node.isWhole (t : Node) : Bool :=
  t.sites.all fun site => site.node.kind.mandatorySlots.all fun slot =>
    (site.node.child? ⟨slot, none⟩).isSome

theorem Node.isWhole_iff {t : Node} :
    t.isWhole = true ↔ ∀ p n, t.get? p = some n → ∀ slot ∈ n.kind.mandatorySlots,
      ∃ c, n.child? ⟨slot, none⟩ = some c := by
  simp only [Node.isWhole, List.all_eq_true, Option.isSome_iff_exists]
  constructor
  · intro h p n hn
    exact h ⟨p, n⟩ (Node.mem_sites_iff.mpr hn)
  · intro h site hs
    exact h site.place site.node (Node.mem_sites_iff.mp hs)

/-- A sweep keeps the node at a place but empties one of its mandatory slots: the slot holds a
declaration, and all its declarators are dead. -/
structure Empties (t : Node) (p : Position) (slot : Nat) : Prop where
  stays : Node.Survives (sweeps t) p
  mandatory : ∃ n, t.get? p = some n ∧ slot ∈ n.kind.mandatorySlots
  declaration : ∃ d, t.get? (p ++ [⟨slot, none⟩]) = some d ∧ 0 < declaratorCount d ∧
    ∀ i < declaratorCount d, ∃ b ∈ deadBindings t, b.place = p ++ [⟨slot, none⟩] ++ [⟨0, some i⟩]

/-! ## What a sweep takes from single slots -/

theorem losesAll_iff {dead : List Position} {p : Position} {n : Node} :
    losesAll dead ⟨p, n⟩ = true ↔ 0 < declaratorCount n ∧
      ∀ i < declaratorCount n, p ++ [⟨0, some i⟩] ∈ dead := by
  unfold losesAll declaratorCount
  split
  · rename_i kind declarator rest hn
    simp only at hn
    subst hn
    simp only [List.all_eq_true, List.mem_range, List.contains_iff_mem, List.length_cons,
      Nat.zero_lt_succ, true_and]
  · rename_i hn
    constructor
    · intro h
      cases h
    · rintro ⟨hpos, -⟩
      split at hpos
      · rename_i kind declarators
        cases declarators with
        | nil => cases hpos
        | cons declarator rest => exact absurd rfl (hn kind declarator rest)
      · cases hpos

@[simp] theorem inList_concat (p : Position) (s : Step) : inList (p ++ [s]) = s.index.isSome := by
  simp [inList]

/-- A declarator stands in a declaration. -/
theorem parent_of_removable_declarator {t : Node} {b : Binding} (hb : b ∈ (analyze t).bindings)
    {target : Node} {init : Option Node} (hget : t.get? b.place = some (.declarator target init)) :
    ∃ above last v slots, b.place = above ++ [last] ∧
      t.get? above = some (.mk (.variableDeclaration v) slots) := by
  obtain ⟨e, he, -, hplace, -⟩ := exists_declares_of_mem_bindings hb
  obtain ⟨above, last, ⟨k, slots⟩, node, s, home, hd⟩ := mem_declarations_iff.mp he
  have hnode := hd.get_node
  rw [← hd.place_eq, hplace, hget] at hnode
  cases hnode
  rcases bindsBy_cases hd.binds with ⟨-, h | h⟩ | ⟨-, h, -⟩ | ⟨-, v, hv⟩
  · cases h
  · cases h
  · cases h
  · cases hv
    exact ⟨above, last, v, slots, by rw [← hplace, hd.place_eq], hd.get_parent⟩

/-- No dead declaration stands in a mandatory slot. -/
theorem dead_place_ne {t n : Node} {p : Position} {slot : Nat} (hn : t.get? p = some n)
    (hslot : slot ∈ n.kind.mandatorySlots) {b : Binding} (hb : b ∈ deadBindings t) :
    b.place ≠ p ++ [⟨slot, none⟩] := by
  intro hplace
  obtain ⟨hbind, hrem, -⟩ := mem_deadCandidates.mp ((roundInv_deadBindings t).candidate b hb)
  rcases isRemovable_cases hrem with ⟨-, hin, -⟩ | ⟨-, name, slots, init, hget⟩
  · rw [hplace, inList_concat] at hin
    cases hin
  · obtain ⟨above, last, v, vslots, habove, hparent⟩ := parent_of_removable_declarator hbind hget
    rw [hplace] at habove
    obtain ⟨rfl, -⟩ := List.append_inj' habove rfl
    rw [hn] at hparent
    cases hparent
    cases hslot

/-- **What a sweep takes from a mandatory slot** is a declaration that loses all its declarators. -/
theorem sweeps_mandatory_iff {t n d : Node} {p : Position} {slot : Nat} (hn : t.get? p = some n)
    (hslot : slot ∈ n.kind.mandatorySlots) (hd : t.get? (p ++ [⟨slot, none⟩]) = some d) :
    sweeps t (p ++ [⟨slot, none⟩]) = true ↔ 0 < declaratorCount d ∧ ∀ i < declaratorCount d,
      ∃ b ∈ deadBindings t, b.place = p ++ [⟨slot, none⟩] ++ [⟨0, some i⟩] := by
  rw [sweeps_iff, mem_doomedPlaces]
  constructor
  · rintro (⟨b, hb, hplace⟩ | ⟨d', hd', hall⟩ | hstub)
    · exact absurd hplace (dead_place_ne hn hslot hb)
    · rw [hd] at hd'
      cases hd'
      obtain ⟨hpos, hall⟩ := losesAll_iff.mp hall
      exact ⟨hpos, fun i hi => List.mem_map.mp (hall i hi)⟩
    · obtain ⟨m, -, hin, -⟩ := mem_stubPlaces.mp hstub
      rw [inList_concat] at hin
      cases hin
  · rintro ⟨hpos, hall⟩
    exact Or.inr (Or.inl ⟨d, hd, losesAll_iff.mpr
      ⟨hpos, fun i hi => List.mem_map.mpr (hall i hi)⟩⟩)

/-! ## Trees that stay whole -/

/-- **A sweep leaves a tree whole exactly if it empties no mandatory slot** of a node that stays. -/
theorem sweep_isWhole_iff {ε : Type} {t : Node} (hwhole : t.isWhole = true) :
    ∃ t' changed, (sweep t : Logged ε (Node × Bool)).outcome = .ok (t', changed) ∧
      (t'.isWhole = true ↔ ∀ p slot, ¬ Empties t p slot) := by
  refine ⟨sweptTree t, _, rfl, ?_⟩
  rw [sweptTree_eq, Node.isWhole_iff]
  rw [Node.isWhole_iff] at hwhole
  constructor
  · rintro h p slot ⟨hstays, ⟨n, hn, hslot⟩, d, hd, hpos, hdead⟩
    obtain ⟨q, -, hq⟩ := Node.exists_get?_prune (sweeps t) hn hstays
    obtain ⟨c, hc⟩ := h q _ hq slot (by rwa [Node.kind_pruneAt])
    obtain ⟨-, -, hdoomed, -⟩ := Node.child?_pruneAt (sweeps t) hc
    rw [Node.originStep_none, (sweeps_mandatory_iff hn hslot hd).mpr ⟨hpos, hdead⟩] at hdoomed
    cases hdoomed
  · intro h q m hm slot hslot
    obtain ⟨hstays, n, hn, hget⟩ := Node.get?_prune (sweeps t) hm
    rw [hget] at hm
    cases hm
    rw [Node.kind_pruneAt] at hslot
    obtain ⟨d, hd⟩ := hwhole _ n hn slot hslot
    have hgetd : t.get? (Node.origin (sweeps t) t q ++ [⟨slot, none⟩]) = some d := by
      rw [Node.get?_concat, hn, Option.bind_some, hd]
    cases hdoomed : sweeps t (Node.origin (sweeps t) t q ++ [⟨slot, none⟩]) with
    | true =>
        exact absurd ⟨hstays, ⟨n, hn, hslot⟩, d, hgetd, (sweeps_mandatory_iff hn hslot hgetd).mp hdoomed⟩
          (h _ slot)
    | false =>
        obtain ⟨s, hs, hchild⟩ := Node.exists_child?_pruneAt (sweeps t) hd hdoomed
        have hsimilar := Node.originStep_similar (sweeps t) (Node.origin (sweeps t) t q) n s
        rw [hs] at hsimilar
        rw [Step.eq_one hsimilar.1.symm hsimilar.2.symm] at hchild
        exact ⟨_, hchild⟩

/-- `if (a) var x = 1, y = 2;` -/
def guardedDeclaration : Node :=
  .mk (.program "script") [.many [some (.mk .ifStatement [.one (some (.ident "a")),
    .one (some (.mk (.variableDeclaration .var) [.many [
      some (.declarator (.ident "x") (some (.lit (.number (.int 1)) "1"))),
      some (.declarator (.ident "y") (some (.lit (.number (.int 2)) "2")))]])),
    .one none])]]

/-- The branch of the condition goes with both variables, and nothing is left in its place. -/
theorem sweep_isWhole_iff_guardedDeclaration :
    guardedDeclaration.isWhole = true ∧ ∃ t' changed,
      (sweep guardedDeclaration : Logged Fault (Node × Bool)).outcome = .ok (t', changed) ∧
        ¬ t'.isWhole = true := by
  have hwhole : guardedDeclaration.isWhole = true := by decide
  obtain ⟨t', changed, hsweep, hiff⟩ := sweep_isWhole_iff (ε := Fault) hwhole
  refine ⟨hwhole, t', changed, hsweep, fun h => hiff.mp h [⟨0, some 0⟩] 1 ?_⟩
  refine ⟨?_, ⟨_, rfl, by decide⟩, _, rfl, by decide, by decide⟩
  refine (Node.survives_concat (sweeps guardedDeclaration) (p := [])).mpr ⟨?_, by decide⟩
  exact Node.survives_nil _

end Descramble

import Descramble.Proofs.DeadCode.Sweep
import Descramble.Proofs.Pass.Inlining
import Descramble.Proofs.Tree.Building
import Descramble.Proofs.Tree.Order

/-!
# What inlining takes for initialized

A `var` belongs to its function, whatever branch or loop its declarator stands in, and is undefined
until the declarator runs.  Inlining goes by the order of the walk: it replaces the references that do
not come before the declarator.  Behind a branch, a loop body or a case that holds the declarator this
order says nothing about whether the declarator has run.

* `isConditional` — the parts of a tree that need not run.
* `atTurn` — the revision when the turn of a binding comes.
* `replaced_iff` — which references of a binding are replaced.
* `inlined_inside_iff` — when all replaced references stand in the parts that hold their declarator.
-/

set_option autoImplicit false

namespace Descramble

/-! ## Nodes that inlining does not reach into -/

/-- No identifier stands strictly below the node. -/
def Node.HoldsNoNames (n : Node) : Prop :=
  ∀ s name slots, n.get? s = some (.mk (.identifier name) slots) → s = []

theorem Node.holdsNoNames_ident (name : String) : (Node.ident name).HoldsNoNames := by
  intro s word slots h
  cases s with
  | nil => rfl
  | cons a s =>
      rw [get?_cons, child?_mk, childOfSlots_nil] at h
      cases h

theorem Node.IsNameless.holdsNoNames {n : Node} (h : n.IsNameless) : n.HoldsNoNames := by
  intro s word slots hs
  rcases h s _ hs with ⟨_, _, _, hk⟩ | ⟨_, _, hk⟩ <;> cases hk

section
variable {r : Revision} {p : Position} {n : Node}

/-- Inlining at another place leaves such a node as it is. -/
theorem get?_inlineAt_of_ne (literal : Node) {q : Position} (hq : IsBare r.tree q)
    (hp : r.tree.get? p = some n) (hn : n.HoldsNoNames) (hne : q ≠ p) :
    (inlineAt literal r q).tree.get? p = some n := by
  rw [get?_inlineAt_of_beside literal r, hp]
  · exact fun h => hne (hq.eq_of_isPrefixOf hp h)
  · rintro ⟨s, rfl⟩
    obtain ⟨name, hq⟩ := hq
    rw [Node.get?_append, hp, Option.bind_some] at hq
    exact hne (by rw [hn s _ _ hq, List.append_nil])

theorem get?_foldl_inlineAt_of_not_mem (literal : Node) (hn : n.HoldsNoNames) :
    ∀ {places : List Position} {r : Revision}, places.Nodup → (∀ q ∈ places, IsBare r.tree q) →
      r.tree.get? p = some n → p ∉ places →
        (places.foldl (inlineAt literal) r).tree.get? p = some n
  | [], _, _, _, hp, _ => hp
  | q :: places, r, hnd, hbare, hp, hmem => by
      obtain ⟨hq, hnd⟩ := List.nodup_cons.mp hnd
      have hbare₀ := hbare q List.mem_cons_self
      rw [List.foldl_cons]
      refine get?_foldl_inlineAt_of_not_mem literal hn hnd (fun q' hq' => ?_)
        (get?_inlineAt_of_ne literal hbare₀ hp hn fun he => hmem (he ▸ List.mem_cons_self))
        fun h => hmem (List.mem_cons_of_mem _ h)
      exact hbare₀.inlineAt literal (hbare q' (List.mem_cons_of_mem _ hq')) fun he => hq (he ▸ hq')

/-- An inlined reference holds the copy of the literal to the end. -/
theorem get?_foldl_inlineAt_of_mem {literal : Node} (hlike : literal.isLiteralLike = true) :
    ∀ {places : List Position} {r : Revision}, places.Nodup → (∀ q ∈ places, IsBare r.tree q) →
      p ∈ places → (places.foldl (inlineAt literal) r).tree.get? p = some literal.copyLiteral
  | q :: places, r, hnd, hbare, hmem => by
      obtain ⟨hq, hnd₁⟩ := List.nodup_cons.mp hnd
      have hbare₀ := hbare q List.mem_cons_self
      have hrest : ∀ q' ∈ places, IsBare (inlineAt literal r q).tree q' := fun q' hq' =>
        hbare₀.inlineAt literal (hbare q' (List.mem_cons_of_mem _ hq')) fun he => hq (he ▸ hq')
      rw [List.foldl_cons]
      rcases List.mem_cons.mp hmem with rfl | hmem
      · obtain ⟨name, hget⟩ := hbare₀
        exact get?_foldl_inlineAt_of_not_mem literal
          (isWritten_copyLiteral hlike).isNameless.holdsNoNames hnd₁ hrest
          (get?_inlineAt_self literal hget) hq
      · exact get?_foldl_inlineAt_of_mem hlike hnd₁ hrest hmem

end

/-! ## One binding after the other -/

theorem mem_inlinedPlaces {t : Node} {b : Binding} {p : Position} :
    p ∈ inlinedPlaces t b ↔
      (inlinedLiteral? t b).isSome ∧ p ∈ b.references ∧ p.before b.place = false := by
  unfold inlinedPlaces
  split
  · rename_i h
    simp [h]
  · rename_i h
    simp [h]

section
variable {r : Revision} {b : Binding} {p : Position} {n : Node}

theorem get?_inlineBinding_of_not_mem (hnd : b.references.Nodup)
    (hbare : ∀ q ∈ b.references, IsBare r.tree q) (hp : r.tree.get? p = some n)
    (hn : n.HoldsNoNames) (hmem : p ∉ inlinedPlaces r.tree b) :
    (inlineBinding r b).tree.get? p = some n := by
  have hsub := inlinedPlaces_sublist r.tree b
  rw [inlineBinding_eq]
  exact get?_foldl_inlineAt_of_not_mem _ hn (hnd.sublist hsub)
    (fun q hq => hbare q (hsub.subset hq)) hp hmem

theorem get?_inlineBinding_of_mem (hnd : b.references.Nodup)
    (hbare : ∀ q ∈ b.references, IsBare r.tree q) (hmem : p ∈ inlinedPlaces r.tree b) :
    ∃ literal, inlinedLiteral? r.tree b = some literal ∧
      (inlineBinding r b).tree.get? p = some literal.copyLiteral := by
  have hsub := inlinedPlaces_sublist r.tree b
  obtain ⟨literal, hlit⟩ := Option.isSome_iff_exists.mp (mem_inlinedPlaces.mp hmem).1
  refine ⟨literal, hlit, ?_⟩
  rw [inlineBinding_eq, hlit]
  exact get?_foldl_inlineAt_of_mem (isLiteralLike_of_inlinedLiteral? hlit) (hnd.sublist hsub)
    (fun q hq => hbare q (hsub.subset hq)) hmem

/-- The bindings that have had their turn leave the references of the others alone. -/
theorem get?_foldl_inlineBinding (hn : n.HoldsNoNames) : ∀ {bs : List Binding} {r : Revision},
    Pending r.tree bs → r.tree.conforms = true → r.tree.get? p = some n →
      (∀ b ∈ bs, p ∉ b.references) → (bs.foldl inlineBinding r).tree.get? p = some n
  | [], _, _, _, hp, _ => hp
  | b :: bs, r, h, hc, hp, hmem => by
      have hb := List.mem_cons_self (a := b) (l := bs)
      have hc₁ := (inlineBinding_descends (h.nodup b hb) (h.bare b hb) hc).1
      rw [List.foldl_cons]
      refine get?_foldl_inlineBinding hn (h.tail hc) hc₁ ?_
        fun c hc => hmem c (List.mem_cons_of_mem _ hc)
      exact get?_inlineBinding_of_not_mem (h.nodup b hb) (h.bare b hb) hp hn
        fun h => hmem b hb (mem_inlinedPlaces.mp h).2.1

/-- After the turns of some bindings the others are still to be visited. -/
theorem Pending.after : ∀ {bs cs : List Binding} {r : Revision}, Pending r.tree (bs ++ cs) →
    r.tree.conforms = true → Pending (bs.foldl inlineBinding r).tree cs ∧
      (bs.foldl inlineBinding r).tree.conforms = true
  | [], _, _, h, hc => ⟨h, hc⟩
  | b :: bs, cs, r, h, hc => by
      have hb := List.mem_cons_self (a := b) (l := bs ++ cs)
      rw [List.foldl_cons]
      exact Pending.after (h.tail hc) (inlineBinding_descends (h.nodup b hb) (h.bare b hb) hc).1

end

/-- The revision when the turn of the binding with a number comes. -/
def atTurn (t : Node) (i : Nat) : Revision :=
  ((analyze t).bindings.take i).foldl inlineBinding ⟨t, 0⟩

theorem inlinedRevision_eq_foldl (t : Node) (i : Nat) :
    inlinedRevision t = ((analyze t).bindings.drop i).foldl inlineBinding (atTurn t i) := by
  unfold inlinedRevision atTurn
  rw [← List.foldl_append, List.take_append_drop]

section
variable {t : Node} {i : Nat} {b : Binding} {p : Position}

theorem bindings_split (hb : (analyze t).bindings[i]? = some b) :
    (analyze t).bindings.take i ++ b :: (analyze t).bindings.drop (i + 1) =
      (analyze t).bindings := by
  obtain ⟨hi, rfl⟩ := List.getElem?_eq_some_iff.mp hb
  rw [← List.drop_eq_getElem_cons hi, List.take_append_drop]

theorem inlinedRevision_split (hb : (analyze t).bindings[i]? = some b) :
    inlinedRevision t =
      ((analyze t).bindings.drop (i + 1)).foldl inlineBinding (inlineBinding (atTurn t i) b) := by
  obtain ⟨hi, rfl⟩ := List.getElem?_eq_some_iff.mp hb
  rw [inlinedRevision_eq_foldl t i, List.drop_eq_getElem_cons hi, List.foldl_cons]

/-- A reference of a binding is no reference of an earlier or a later one. -/
theorem not_mem_other_references (hb : (analyze t).bindings[i]? = some b) (hp : p ∈ b.references) :
    (∀ c ∈ (analyze t).bindings.take i, p ∉ c.references) ∧
      ∀ c ∈ (analyze t).bindings.drop (i + 1), p ∉ c.references := by
  have hdisjoint := pairwise_references t
  rw [← bindings_split hb] at hdisjoint
  obtain ⟨-, hlater, hearlier⟩ := List.pairwise_append.mp hdisjoint
  exact ⟨fun c hc hpc => hearlier c hc b List.mem_cons_self p hpc hp,
    fun c hc => (List.pairwise_cons.mp hlater).1 c hc p hp⟩

/-- When its turn comes, a binding and the ones after it are still to be visited. -/
theorem pending_atTurn (hc : t.conforms = true) (hb : (analyze t).bindings[i]? = some b) :
    Pending (atTurn t i).tree (b :: (analyze t).bindings.drop (i + 1)) ∧
      (atTurn t i).tree.conforms = true := by
  have hpending := pending_bindings hc
  rw [← bindings_split hb] at hpending
  exact Pending.after (r := ⟨t, 0⟩) hpending hc

/-- A reference is as it was when the turn of its binding comes. -/
theorem get?_atTurn (hc : t.conforms = true) (hb : (analyze t).bindings[i]? = some b)
    (hp : p ∈ b.references) {name : String} (hget : t.get? p = some (.ident name)) :
    (atTurn t i).tree.get? p = some (.ident name) := by
  have hpending := pending_bindings hc
  have hearlier : ∀ {c}, c ∈ (analyze t).bindings.take i → c ∈ (analyze t).bindings :=
    List.mem_of_mem_take
  refine get?_foldl_inlineBinding (r := ⟨t, 0⟩) (Node.holdsNoNames_ident name) ?_ hc hget
    (not_mem_other_references hb hp).1
  exact ⟨hpending.disjoint.sublist (List.take_sublist ..), fun c hc => hpending.nodup c (hearlier hc),
    fun c hc => hpending.bare c (hearlier hc)⟩

/-- What the turn of its binding makes of a reference stays to the end. -/
theorem get?_inlinedRevision (hc : t.conforms = true) (hb : (analyze t).bindings[i]? = some b)
    (hp : p ∈ b.references) {n : Node} (hn : n.HoldsNoNames)
    (hget : (inlineBinding (atTurn t i) b).tree.get? p = some n) :
    (inlinedRevision t).tree.get? p = some n := by
  obtain ⟨hturn, hc₁⟩ := pending_atTurn hc hb
  have hnd := hturn.nodup b List.mem_cons_self
  have hbare := hturn.bare b List.mem_cons_self
  rw [inlinedRevision_split hb]
  exact get?_foldl_inlineBinding hn (hturn.tail hc₁) (inlineBinding_descends hnd hbare hc₁).1 hget
    (not_mem_other_references hb hp).2

/-- **The references that are replaced** are those that do not come before the declarator, if the
binding stands for a literal when its turn comes. -/
theorem replaced_iff (hc : t.conforms = true) (hb : (analyze t).bindings[i]? = some b)
    (hp : p ∈ b.references) :
    (inlinedRevision t).tree.get? p ≠ t.get? p ↔
      (inlinedLiteral? (atTurn t i).tree b).isSome ∧ p.before b.place = false := by
  obtain ⟨name, hget⟩ := (pending_bindings hc).bare b (List.mem_of_getElem? hb) p hp
  obtain ⟨hturn, -⟩ := pending_atTurn hc hb
  have hnd := hturn.nodup b List.mem_cons_self
  have hbare := hturn.bare b List.mem_cons_self
  have hplaces : p ∈ inlinedPlaces (atTurn t i).tree b ↔
      (inlinedLiteral? (atTurn t i).tree b).isSome ∧ p.before b.place = false := by
    rw [mem_inlinedPlaces]
    exact and_congr_right fun _ => and_iff_right hp
  rw [← hplaces, hget]
  constructor
  · intro hne
    refine Classical.byContradiction fun hmem => hne ?_
    exact get?_inlinedRevision hc hb hp (Node.holdsNoNames_ident name)
      (get?_inlineBinding_of_not_mem hnd hbare (get?_atTurn hc hb hp hget)
        (Node.holdsNoNames_ident name) hmem)
  · intro hmem he
    obtain ⟨literal, hlit, hliteral⟩ := get?_inlineBinding_of_mem hnd hbare hmem
    have hwritten := isWritten_copyLiteral (isLiteralLike_of_inlinedLiteral? hlit)
    rw [get?_inlinedRevision hc hb hp hwritten.isNameless.holdsNoNames hliteral] at he
    rcases hwritten with ⟨_, _, hk⟩ | ⟨_, _, hk⟩ <;> (rw [hk] at he; cases he)

end

/-! ## Parts that need not run -/

/-- The slots of a node whose children run on a condition only: the branches of an `if`, the body of a
loop that tests before it, and the cases of a `switch`. -/
def Kind.conditionalSlots : Kind → List String
  | .ifStatement => ["consequent", "alternate"]
  | .forStatement => ["body"]
  | .forInStatement _ => ["body"]
  | .forOfStatement => ["body"]
  | .whileStatement => ["body"]
  | .switchStatement => ["cases"]
  | _ => []

/-- Does the part of the tree at a place run on a condition only? -/
def isConditional (t : Node) (g : Position) : Bool :=
  match g.parent?.bind t.get?, g.getLast? with
  | some above, some step => (above.slotName? step).any above.kind.conditionalSlots.contains
  | _, _ => false

/-- **Replaced references of a `var` stand in every conditional part that holds the declarator**
exactly if no reference stands behind such a part. -/
theorem inlined_inside_iff {t t' : Node} {changed : Bool} (hc : t.conforms = true)
    (h : (inlineConstants t).outcome = .ok (t', changed)) :
    (∀ b ∈ (analyze t).bindings, b.kind = .var → ∀ p ∈ b.references, t'.get? p ≠ t.get? p →
        ∀ g, isConditional t g = true → g <+: b.place → g <+: p) ↔
      ∀ i b, (analyze t).bindings[i]? = some b → b.kind = .var →
        (inlinedLiteral? (atTurn t i).tree b).isSome → ∀ p ∈ b.references,
          ∀ g, isConditional t g = true → g <+: b.place → ¬ p.IsBehind g := by
  cases (inlineConstants_outcome t).symm.trans h
  constructor
  · intro hinside i b hb hvar hlit p hp g hg hin hbehind
    have hreplaced := (replaced_iff hc hb hp).mpr ⟨hlit, hbehind.not_before hin⟩
    exact hbehind.not_prefix
      (hinside b (List.mem_of_getElem? hb) hvar p hp hreplaced g hg hin)
  · intro hbehind b hb hvar p hp hreplaced g hg hin
    obtain ⟨i, hi⟩ := List.mem_iff_getElem?.mp hb
    obtain ⟨hlit, hnot⟩ := (replaced_iff hc hi hp).mp hreplaced
    obtain ⟨name, hget⟩ := (pending_bindings hc).bare b hb p hp
    obtain ⟨n, hplace⟩ := exists_get?_of_mem_bindings hb
    refine Classical.byContradiction fun hout => ?_
    exact hbehind i b hi hvar hlit p hp g hg hin ((Node.isBehind_iff hget hplace hin hnot).mpr hout)

/-- `if (c) { var x = 1; } use(x);` -/
def branchedVariable : Node :=
  .programOf "script" [
    .mk .ifStatement [.one (some (.ident "c")),
      .one (some (.blockOf [.varOf "x" (.lit (.number (.int 1)) "1")])), .one none],
    .statementOf (.callOf (.ident "use") [some (.ident "x")])]

/-- The call behind the branch gets the literal, whether the branch runs or not. -/
theorem inlined_inside_iff_branchedVariable :
    branchedVariable.conforms = true ∧
      ∃ t' changed, (inlineConstants branchedVariable).outcome = .ok (t', changed) ∧
        t'.get? [⟨0, some 1⟩, first, ⟨1, some 0⟩] = some (.lit (.number (.int 1)) "1") ∧
        ¬ ∀ b ∈ (analyze branchedVariable).bindings, b.kind = .var → ∀ p ∈ b.references,
          t'.get? p ≠ branchedVariable.get? p → ∀ g, isConditional branchedVariable g = true →
            g <+: b.place → g <+: p := by
  have hc : branchedVariable.conforms = true := by decide
  refine ⟨hc, _, _, rfl, rfl, ?_⟩
  rw [inlined_inside_iff hc rfl]
  intro hbehind
  refine hbehind 0 _ rfl rfl rfl [⟨0, some 1⟩, first, ⟨1, some 0⟩] (by decide)
    [⟨0, some 0⟩, second] (by decide) (by decide) ?_
  rintro q ⟨below, rfl⟩
  rfl

end Descramble

import Descramble.Proofs.Run.Settled
import Descramble.Proofs.Tree.Building

/-!
# Passes report what they did

A pass counts its replacements and reports a change if it made any.  Each replacement makes the tree
lighter, so none of them is lost, undone by a later one or a replacement of a node by itself.

* `Revision.Counts` — nothing happened, or something was counted and the tree is lighter.
* `Revision.Counts.foldAt`, `.resolveAt`, `.normalizeAt`, `.inlineBinding` — what a visit does.
* `Reports` — what a report of a pass says about the tree.
* `SimplifyingPass.changed_iff_ne` — a pass reports a change exactly if it changed the tree.
* `applyPasses_changed_iff` — one of the four reports a change exactly if the last tree is another.
-/

set_option autoImplicit false

namespace Descramble

namespace Revision

/-- Nothing happened between two revisions, or replacements were counted and the tree is lighter. -/
def Counts (r r' : Revision) : Prop :=
  r' = r ∨ (r.count < r'.count ∧ r'.tree.weight < r.tree.weight)

namespace Counts

variable {r r' r'' : Revision}

theorem refl (r : Revision) : r.Counts r := Or.inl rfl

theorem trans (h : r.Counts r') (h' : r'.Counts r'') : r.Counts r'' := by
  rcases h with rfl | ⟨hcount, hweight⟩
  · exact h'
  · rcases h' with rfl | ⟨hcount', hweight'⟩
    · exact Or.inr ⟨hcount, hweight⟩
    · exact Or.inr ⟨Nat.lt_trans hcount hcount', Nat.lt_trans hweight' hweight⟩

/-- A replacement that makes the tree lighter. -/
theorem replace {p : Position} {m : Node} (h : (r.tree.replaceAt p m).weight < r.tree.weight) :
    r.Counts (r.replace p m) :=
  Or.inr ⟨Nat.lt_succ_self _, h⟩

theorem foldAt {decoder : Option String} {a : Analysis} {p : Position}
    (h : Descramble.foldAt decoder a r p = .ok r') : r.Counts r' := by
  rcases foldAt_cases h with rfl | ⟨target, v, m, htarget, hvalue, hm, rfl⟩
  · exact refl _
  · exact replace (weight_folded_lt htarget hvalue hm)

theorem resolveAt {state : RunState} {a : Analysis} {p : Position}
    (h : Descramble.resolveAt state a r p = .ok r') : r.Counts r' := by
  rcases resolveAt_cases h with rfl | ⟨entry, slots, hget, -, rfl⟩
  · exact refl _
  · exact replace (weight_resolved_lt hget entry)

theorem normalizeAt (r : Revision) (p : Position) : r.Counts (Descramble.normalizeAt r p) := by
  rcases normalizeAt_cases r p with h | ⟨name, n, hget, hn, h⟩
  · rw [h]
    exact refl _
  · rw [h]
    exact replace (weight_normalized_lt hget hn)

theorem foldl_normalizeAt : ∀ (places : List Position) (r : Revision),
    r.Counts (places.foldl Descramble.normalizeAt r)
  | [], r => refl r
  | p :: places, r => (normalizeAt r p).trans (foldl_normalizeAt places _)

theorem visitEach {visit : Revision → Position → Except Fault Revision}
    (step : ∀ r p r', visit r p = .ok r' → r.Counts r') {places : List Position}
    (h : Descramble.visitEach visit places r = .ok r') : r.Counts r' :=
  visitEach_induction (P := r.Counts) (fun _ _ _ hr hv => hr.trans (step _ _ _ hv)) (refl r) h

end Counts

/-- Each inlined reference is counted. -/
theorem count_foldl_inlineAt (literal : Node) : ∀ (places : List Position) (r : Revision),
    (places.foldl (inlineAt literal) r).count = r.count + places.length
  | [], _ => rfl
  | p :: places, r => by
      have hstep : (inlineAt literal r p).count = r.count + 1 := rfl
      rw [List.foldl_cons, count_foldl_inlineAt literal places, hstep, List.length_cons]
      omega

namespace Counts

variable {r : Revision}

theorem inlineBinding {b : Binding} (hnd : b.references.Nodup)
    (hbare : ∀ p ∈ b.references, IsBare r.tree p) (hc : r.tree.conforms = true) :
    r.Counts (Descramble.inlineBinding r b) := by
  obtain ⟨-, hweight, -⟩ := inlineBinding_descends hnd hbare hc
  rcases List.eq_nil_or_concat (inlinedPlaces r.tree b) with hnone | ⟨places, p, hsome⟩
  · rw [inlineBinding_eq, hnone]
    exact refl r
  · have hlength : 0 < (inlinedPlaces r.tree b).length := by simp [hsome]
    refine Or.inr ⟨?_, by omega⟩
    rw [inlineBinding_eq, count_foldl_inlineAt]
    omega

theorem foldl_inlineBinding : ∀ {bs : List Binding} {r : Revision}, Pending r.tree bs →
    r.tree.conforms = true → r.Counts (bs.foldl Descramble.inlineBinding r)
  | [], r, _, _ => refl r
  | b :: bs, r, h, hc => by
      have hb := List.mem_cons_self (a := b) (l := bs)
      have hc₁ := (inlineBinding_descends (h.nodup b hb) (h.bare b hb) hc).1
      exact (inlineBinding (h.nodup b hb) (h.bare b hb) hc).trans
        (foldl_inlineBinding (h.tail hc) hc₁)

end Counts

end Revision

/-! ## Reports -/

/-- No change is reported and the tree is as it was, or a change is reported and the tree is
lighter. -/
def Reports (t : Node) (changed : Bool) (t' : Node) : Prop :=
  (changed = false ∧ t' = t) ∨ (changed = true ∧ t'.weight < t.weight)

namespace Reports

variable {t t' t'' : Node} {changed changed' : Bool}

theorem iff_ne (h : Reports t changed t') : changed = true ↔ t' ≠ t := by
  rcases h with ⟨rfl, rfl⟩ | ⟨rfl, hlt⟩
  · simp
  · refine ⟨fun _ he => ?_, fun _ => rfl⟩
    rw [he] at hlt
    exact Nat.lt_irrefl _ hlt

/-- One pass after the other. -/
theorem trans (h : Reports t changed t') (h' : Reports t' changed' t'') :
    Reports t (changed || changed') t'' := by
  rcases h with ⟨rfl, rfl⟩ | ⟨rfl, hlt⟩
  · exact h'
  · rcases h' with ⟨-, rfl⟩ | ⟨-, hlt'⟩
    · exact Or.inr ⟨rfl, hlt⟩
    · exact Or.inr ⟨rfl, Nat.lt_trans hlt' hlt⟩

/-- A pass that counts its replacements reports them. -/
theorem of_counts {r : Revision} (h : Revision.Counts ⟨t, 0⟩ r) :
    Reports t (decide (0 < r.count)) r.tree := by
  rcases h with rfl | ⟨hcount, hweight⟩
  · exact Or.inl ⟨rfl, rfl⟩
  · exact Or.inr ⟨decide_eq_true hcount, hweight⟩

end Reports

/-- The simplifying passes, in the order in which they run. -/
inductive SimplifyingPass where
  | resolving
  | folding
  | inlining
  | normalizing
  deriving DecidableEq, Repr

namespace SimplifyingPass

/-- A pass on a tree. -/
def run (state : RunState) (t : Node) : SimplifyingPass → Logged Fault (Node × Bool)
  | resolving => resolveCalls state t
  | folding => foldConstants state t
  | inlining => inlineConstants t
  | normalizing => normalizeMembers t

theorem reports {pass : SimplifyingPass} {state : RunState} {t t' : Node} {changed : Bool}
    (hc : t.conforms = true) (h : (pass.run state t).outcome = .ok (t', changed)) :
    Reports t changed t' := by
  cases pass with
  | resolving =>
      rcases resolveCalls_eq_ok.mp h with ⟨-, rfl, rfl⟩ | ⟨-, r, hr, rfl, rfl⟩
      · exact Or.inl ⟨rfl, rfl⟩
      · exact .of_counts (.visitEach (fun _ _ _ => .resolveAt) hr)
  | folding =>
      obtain ⟨r, hr, rfl, rfl⟩ := foldConstants_eq_ok.mp h
      exact .of_counts (.visitEach (fun _ _ _ => .foldAt) hr)
  | inlining =>
      cases (inlineConstants_outcome t).symm.trans h
      exact .of_counts (.foldl_inlineBinding (pending_bindings hc) hc)
  | normalizing =>
      cases (normalizeMembers_outcome t).symm.trans h
      exact .of_counts (.foldl_normalizeAt t.places ⟨t, 0⟩)

/-- **A pass reports a change exactly if it changed the tree.** -/
theorem changed_iff_ne {pass : SimplifyingPass} {state : RunState} {t t' : Node} {changed : Bool}
    (hc : t.conforms = true) (h : (pass.run state t).outcome = .ok (t', changed)) :
    changed = true ↔ t' ≠ t :=
  (reports hc h).iff_ne

/-- `a["b"] = c;` -/
def namedAccess : Node :=
  .programOf "script" [.statementOf (.binary2 (.assignment "=")
    (.memberOf true (.ident "a") (.ofText "b")) (.ident "c"))]

/-- The first visit writes `a.b`; the second one finds nothing to do. -/
theorem changed_iff_ne_namedAccess :
    namedAccess.conforms = true ∧ ∃ t', t'.conforms = true ∧
      (normalizing.run {} namedAccess).outcome = .ok (t', true) ∧ t' ≠ namedAccess ∧
      ∃ t'', (normalizing.run {} t').outcome = .ok (t'', false) ∧ t'' = t' := by
  have hc : namedAccess.conforms = true := by decide
  have hfirst : ∃ t', t'.conforms = true ∧
      (normalizing.run {} namedAccess).outcome = .ok (t', true) ∧
      ∃ t'', (normalizing.run {} t').outcome = .ok (t'', false) := ⟨_, by decide, rfl, _, rfl⟩
  obtain ⟨t', hc', hfirst, t'', hsecond⟩ := hfirst
  refine ⟨hc, t', hc', hfirst, (changed_iff_ne hc hfirst).mp rfl, t'', hsecond, ?_⟩
  exact Classical.byContradiction fun hne =>
    Bool.false_ne_true ((changed_iff_ne hc' hsecond).mpr hne)

end SimplifyingPass

/-- **One of the four passes reports a change exactly if the tree after all of them is another**: what
one of them does no other one undoes. -/
theorem applyPasses_changed_iff {state : RunState} {t t' : Node} {changes : PassChanges}
    (hc : t.conforms = true) (h : (applyPasses state t).outcome = .ok (t', changes)) :
    (changes.resolved || changes.folded || changes.inlined || changes.normalized) = true ↔
      t' ≠ t := by
  obtain ⟨t₁, t₂, resolved, folded, h₁, h₂, rfl, rfl⟩ := applyPasses_eq_ok.mp h
  have hc₁ := (resolveCalls_descends h₁ hc).1
  have hc₂ := (foldConstants_descends h₂ hc₁).1
  have hc₃ := (Descends.inlined t₂ hc₂).1
  have hr₁ := @SimplifyingPass.reports .resolving _ _ _ _ hc h₁
  have hr₂ := @SimplifyingPass.reports .folding _ _ _ _ hc₁ h₂
  have hr₃ := @SimplifyingPass.reports .inlining state _ _ _ hc₂ (inlineConstants_outcome t₂)
  have hr₄ := @SimplifyingPass.reports .normalizing state _ _ _ hc₃ (normalizeMembers_outcome _)
  exact (((hr₁.trans hr₂).trans hr₃).trans hr₄).iff_ne

end Descramble

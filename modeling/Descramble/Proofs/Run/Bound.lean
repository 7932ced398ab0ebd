import Descramble.Proofs.Run.Settled

/-!
# How many iterations a run takes

An iteration that changes the text of a tree makes the tree lighter, and a tree of `n` nodes weighs at
most `2 * n`.  So at most `2 * n` iterations change anything, and a bound above that never stops a run.

* `iterate_weight` — what one iteration does to the weight.
* `iterateWhileChanged_weight` — what all iterations do.
* `runPasses_settles` — a run with enough iterations ends with one that changes nothing.
-/

set_option autoImplicit false

namespace Descramble

variable {ε : Type}

/-- **One iteration** leads down, and strictly so if it changes the text. -/
theorem iterate_weight {render : Node → Except ε String} {s s' : RunState} {t t' : Node}
    (hc : t.conforms = true) (h : (iterate render s t).outcome = .ok (t', s')) :
    t'.conforms = true ∧ s'.iteration = s.iteration + 1 ∧ t'.weight ≤ t.weight ∧
      (s'.changed = true → t'.weight < t.weight) := by
  obtain ⟨before, after, found, changes, hbefore, hfound, hpass, hafter, rfl⟩ := iterate_eq_ok.mp h
  have hdown := applyPasses_descends hpass
  refine ⟨(hdown hc).1, by rw [discover_iteration hfound], hdown.weight_le hc, ?_⟩
  intro hchanged
  rcases (hdown hc).2 with rfl | hlt
  · -- the text is a function of the tree
    rw [hbefore] at hafter
    cases hafter
    simp at hchanged
  · exact hlt

/-- **All iterations**: each but the last makes the tree lighter, and the last one too if the run is
stopped by its bound. -/
theorem iterateWhileChanged_weight {render : Node → Except ε String} :
    ∀ {remaining : Nat} {s s' : RunState} {t t' : Node}, t.conforms = true →
      (iterateWhileChanged render remaining s t).outcome = .ok (t', s') →
        s'.iteration + t'.weight ≤ s.iteration + t.weight + 1 ∧
          (s'.changed = true → t'.weight + remaining ≤ t.weight)
  | 0, s, s', t, t', _, h => by
      cases h
      exact ⟨by omega, fun _ => Nat.le_refl _⟩
  | remaining + 1, s, s', t, t', hc, h => by
      rw [iterateWhileChanged] at h
      split at h
      · obtain ⟨⟨t₁, s₁⟩, hfirst, hrest⟩ := Logged.bind_outcome_eq_ok.mp h
        obtain ⟨hc₁, hcount, hle, hlt⟩ := iterate_weight hc hfirst
        cases hchanged : s₁.changed with
        | true =>
            obtain ⟨hiterations, hstopped⟩ := iterateWhileChanged_weight hc₁ hrest
            have := hlt hchanged
            refine ⟨by omega, fun h => ?_⟩
            have := hstopped h
            omega
        | false =>
            have hlast : (t', s') = (t₁, s₁) := by
              cases remaining <;> simp [iterateWhileChanged, hchanged] at hrest <;> simp [hrest]
            cases hlast
            refine ⟨by omega, fun h => ?_⟩
            rw [hchanged] at h
            cases h
      · rename_i hchanged
        cases h
        exact ⟨by omega, fun h => absurd h hchanged⟩

/-- **A run with enough iterations settles.**  With a bound above twice the number of nodes, the last
iteration changes nothing, whatever the texts of the trees are. -/
theorem runPasses_settles {render : Node → Except ε String} {maxIterations : Int} {t t' : Node}
    {s' : RunState} (hc : t.conforms = true) (hm : 2 * t.sites.length + 1 ≤ maxIterations)
    (h : (runPasses render maxIterations {} t).outcome = .ok (t', s')) :
    s'.changed = false ∧ s'.iteration ≤ 2 * t.sites.length + 1 := by
  obtain ⟨hiterations, hstopped⟩ := iterateWhileChanged_weight hc (runPasses_eq_ok.mp h)
  have hweight := t.weight_le
  have hstart : (({} : RunState).iteration : Int) = 0 := rfl
  constructor
  · refine Bool.eq_false_iff.mpr fun hchanged => ?_
    have := hstopped hchanged
    omega
  · omega

/-- `a["b"];` -/
def computedAccess : Node :=
  .mk (.program "script") [.many [some (.mk (.expressionStatement none) [
    .one (some (.memberOf true (.ident "a") (.lit (.text "b") "\"b\"")))])]]

/-- Five nodes, two iterations: the first one writes `a.b`, the second one changes nothing. -/
theorem runPasses_settles_computedAccess :
    computedAccess.conforms = true ∧ 2 * computedAccess.sites.length + 1 ≤ (11 : Int) ∧
      ∃ t' s', (runPasses print 11 {} computedAccess).outcome = .ok (t', s') ∧
        s'.changed = false ∧ s'.iteration ≤ 2 * computedAccess.sites.length + 1 := by
  have hc : computedAccess.conforms = true := by decide
  have hm : 2 * computedAccess.sites.length + 1 ≤ (11 : Int) := by decide
  have hrun : ∃ result, (runPasses print 11 {} computedAccess).outcome = .ok result := ⟨_, rfl⟩
  obtain ⟨⟨t', s'⟩, hrun⟩ := hrun
  exact ⟨hc, hm, t', s', hrun, runPasses_settles hc hm hrun⟩

end Descramble

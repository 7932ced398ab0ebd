import Descramble.Proofs.DeadCode.Sweep
import Descramble.Proofs.Pass.Descent
import Descramble.Source.Printer

/-!
# Runs that change nothing

A run gives a tree back exactly if no pass finds anything to do in it and the sweep finds nothing to
remove.  The sweep is the last step of a run and can leave something to do for the next one.

* `Settled` — a tree in which there is nothing to do.
* `resolveCalls_return_iff`, `foldConstants_return_iff`, `inlined_return_iff`,
  `normalized_return_iff`, `swept_return_iff` — when a single step gives the tree back.
* `recover_return_iff` — when a run gives the tree back.
* `recover_again_iff` — when a second run gives back what the first one left.
-/

set_option autoImplicit false

namespace Descramble

/-- There is nothing to do in a tree, given what is known about the table: no call can be resolved,
no expression has a known value that is not written out, no name stands for a literal, no access
computes a plain name, and there are no stubs and no unused declarations. -/
structure Settled (found : RunState) (t : Node) : Prop where
  calls : found.decoderFound = true → ∀ p ∈ t.places,
    resolvedEntry? found (analyze t) t p = .ok none
  values : ∀ p ∈ t.places, ∀ target, foldTarget? found.decoderName (analyze t) t p = some target →
    ∃ outcome, (Context.ofTree t (analyze t) found.decoderName).evaluate target = .ok outcome ∧
      ∀ v, outcome ≠ .known v
  references : ∀ b ∈ (analyze t).bindings, inlinedPlaces t b = []
  accesses : ∀ p n, t.get? p = some n → plainMember? n = none
  stubs : stubPlaces t = []
  live : ∀ b ∈ (analyze t).bindings, isRemovable t b = true → isLive [] b = true

/-! ## Visits that lead back -/

section
variable {visit : Revision → Position → Except Fault Revision}

theorem visitEach_descends
    (hstep : ∀ r p r', visit r p = .ok r' → Descends r'.tree r.tree) {places : List Position}
    {r r' : Revision} (h : visitEach visit places r = .ok r') : Descends r'.tree r.tree :=
  visitEach_induction (P := fun s => Descends s.tree r.tree)
    (fun _ _ _ hs hv => (hstep _ _ _ hv).trans hs) (.refl _) h

/-- **A pass that gives the tree back did nothing at any place.** -/
theorem visitEach_return (hstep : ∀ r p r', visit r p = .ok r' → Descends r'.tree r.tree) :
    ∀ {places : List Position} {r r' : Revision}, visitEach visit places r = .ok r' →
      r.tree.conforms = true → r'.tree = r.tree → ∀ p ∈ places,
        ∃ count r₁, visit ⟨r.tree, count⟩ p = .ok r₁ ∧ r₁.tree = r.tree
  | [], _, _, _, _, _ => by simp
  | q :: places, r, r', h, hc, he => by
      simp only [visitEach] at h
      cases hq : visit r q with
      | error f =>
          rw [hq] at h
          cases h
      | ok r₁ =>
          rw [hq] at h
          change visitEach visit places r₁ = .ok r' at h
          have hdown := hstep _ _ _ hq
          have hrest := visitEach_descends hstep h
          rw [he] at hrest
          have hback : r₁.tree = r.tree := hrest.eq_of_return hdown hc
          intro p hp
          rcases List.mem_cons.mp hp with rfl | hp
          · exact ⟨r.count, r₁, hq, hback⟩
          · have := visitEach_return hstep h (hback ▸ hc) (he.trans hback.symm) p hp
            rwa [hback] at this

theorem visitEach_idle {r : Revision} : ∀ {places : List Position},
    (∀ p ∈ places, visit r p = .ok r) → visitEach visit places r = .ok r
  | [], _ => rfl
  | p :: places, h => by
      simp only [visitEach, h p List.mem_cons_self]
      exact visitEach_idle fun q hq => h q (List.mem_cons_of_mem _ hq)

end

/-! ## Single steps that lead back -/

theorem resolveCalls_descends {state : RunState} {t t' : Node} {changed : Bool}
    (h : (resolveCalls state t).outcome = .ok (t', changed)) : Descends t' t := by
  rcases resolveCalls_eq_ok.mp h with ⟨-, rfl, -⟩ | ⟨-, r, hr, rfl, -⟩
  · exact .refl _
  · exact visitEach_descends (fun _ _ _ => Descends.resolveAt) hr

theorem foldConstants_descends {state : RunState} {t t' : Node} {changed : Bool}
    (h : (foldConstants state t).outcome = .ok (t', changed)) : Descends t' t := by
  obtain ⟨r, hr, rfl, -⟩ := foldConstants_eq_ok.mp h
  exact visitEach_descends (fun _ _ _ => Descends.foldAt) hr

theorem foldl_normalizeAt_descends : ∀ (places : List Position) (r : Revision),
    Descends (places.foldl normalizeAt r).tree r.tree
  | [], _ => .refl _
  | p :: places, r => by
      rw [List.foldl_cons]
      exact (foldl_normalizeAt_descends places _).trans (.normalizeAt r p)

theorem normalized_descends (t : Node) : Descends (normalizedRevision t).tree t :=
  foldl_normalizeAt_descends t.places ⟨t, 0⟩

/-- **The four passes give the tree back or a lighter one.** -/
theorem applyPasses_descends {state : RunState} {t t' : Node} {changes : PassChanges}
    (h : (applyPasses state t).outcome = .ok (t', changes)) : Descends t' t := by
  obtain ⟨t₁, t₂, resolved, folded, h₁, h₂, rfl, -⟩ := applyPasses_eq_ok.mp h
  have hresolved := resolveCalls_descends h₁
  have hfolded := foldConstants_descends h₂
  exact (normalized_descends _).trans ((Descends.inlined t₂).trans (hfolded.trans hresolved))

section
variable {t : Node}

/-- Resolving gives the tree back if no call can be resolved. -/
theorem resolveCalls_return_iff {state : RunState} (hc : t.conforms = true) :
    (∃ changed, (resolveCalls state t).outcome = .ok (t, changed)) ↔
      (state.decoderFound = true → ∀ p ∈ t.places,
        resolvedEntry? state (analyze t) t p = .ok none) := by
  constructor
  · rintro ⟨changed, h⟩ hfound p hp
    rcases resolveCalls_eq_ok.mp h with ⟨hnot, -⟩ | ⟨-, r, hr, he, -⟩
    · rw [hnot] at hfound
      cases hfound
    · obtain ⟨count, r₁, hv, hback⟩ :=
        visitEach_return (fun _ _ _ => Descends.resolveAt) hr hc he p hp
      unfold resolveAt at hv
      cases hentry : resolvedEntry? state (analyze t) t p with
      | error f => simp [hentry, bind, Except.bind] at hv
      | ok entry =>
          cases entry with
          | none => rfl
          | some entry =>
              obtain ⟨slots, hget⟩ := get?_of_resolvedEntry? hentry
              simp only [hentry] at hv
              cases hv
              have hlt := weight_resolved_lt hget entry
              rw [show t.replaceAt p (.ofText entry) = t from hback] at hlt
              omega
  · intro h
    cases hfound : state.decoderFound with
    | false => exact ⟨false, resolveCalls_eq_ok.mpr (Or.inl ⟨hfound, rfl, rfl⟩)⟩
    | true =>
        refine ⟨false, resolveCalls_eq_ok.mpr (Or.inr ⟨hfound, ⟨t, 0⟩, ?_, rfl, rfl⟩)⟩
        refine visitEach_idle fun p hp => ?_
        simp [resolveAt, h hfound p hp, bind, Except.bind, pure, Except.pure]

/-- Folding gives the tree back if it finds no values that are not written out. -/
theorem foldConstants_return_iff {state : RunState} (hc : t.conforms = true) :
    (∃ changed, (foldConstants state t).outcome = .ok (t, changed)) ↔
      ∀ p ∈ t.places, ∀ target, foldTarget? state.decoderName (analyze t) t p = some target →
        ∃ outcome, (Context.ofTree t (analyze t) state.decoderName).evaluate target = .ok outcome ∧
          ∀ v, outcome ≠ .known v := by
  constructor
  · rintro ⟨changed, h⟩ p hp target htarget
    obtain ⟨r, hr, he, -⟩ := foldConstants_eq_ok.mp h
    obtain ⟨count, r₁, hv, hback⟩ :=
      visitEach_return (fun _ _ _ => Descends.foldAt) hr hc he p hp
    unfold foldAt at hv
    simp only [htarget] at hv
    cases heval : (Context.ofTree t (analyze t) state.decoderName).evaluate target with
    | error f => simp [heval, bind, Except.bind] at hv
    | ok outcome =>
        refine ⟨outcome, rfl, ?_⟩
        rintro v rfl
        obtain ⟨-, -, -, hliteral⟩ := evaluate_eq_known_iff.mp heval
        obtain ⟨m, hm⟩ := exists_literal?_of_isLiteral hliteral
        simp only [heval, bind, Except.bind, hm] at hv
        cases hv
        have hlt := weight_folded_lt htarget heval hm
        rw [show t.replaceAt target m = t from hback] at hlt
        omega
  · intro h
    refine ⟨false, foldConstants_eq_ok.mpr ⟨⟨t, 0⟩, visitEach_idle fun p hp => ?_, rfl, rfl⟩⟩
    unfold foldAt
    split
    · rfl
    · rename_i target htarget
      obtain ⟨outcome, heval, hunknown⟩ := h p hp target htarget
      simp only [heval, bind, Except.bind]
      rfl

theorem foldl_inlineBinding_return : ∀ {bs : List Binding} {r : Revision}, Pending r.tree bs →
    r.tree.conforms = true → ((bs.foldl inlineBinding r).tree = r.tree ↔
      ∀ b ∈ bs, inlinedPlaces r.tree b = [])
  | [], _, _, _ => by simp
  | b :: bs, r, h, hc => by
      have hb := List.mem_cons_self (a := b) (l := bs)
      obtain ⟨hc₁, hle, -⟩ := inlineBinding_descends (h.nodup b hb) (h.bare b hb) hc
      have hidle : inlinedPlaces r.tree b = [] → inlineBinding r b = r := by
        intro hnone
        rw [inlineBinding_eq, hnone, List.foldl_nil]
      rw [List.foldl_cons, List.forall_mem_cons]
      constructor
      · intro he
        have hrest := (Descends.foldl_inlineBinding (h.tail hc)).weight_le hc₁
        rw [he] at hrest
        have hnone : inlinedPlaces r.tree b = [] := List.length_eq_zero_iff.mp (by omega)
        refine ⟨hnone, ?_⟩
        have htail := h.tail hc
        rw [hidle hnone] at htail he
        exact (foldl_inlineBinding_return htail hc).mp he
      · rintro ⟨hnone, hrest⟩
        have htail := h.tail hc
        rw [hidle hnone] at htail ⊢
        exact (foldl_inlineBinding_return htail hc).mpr hrest

/-- Inlining gives the tree back if no reference can be inlined. -/
theorem inlined_return_iff (hc : t.conforms = true) :
    (inlinedRevision t).tree = t ↔ ∀ b ∈ (analyze t).bindings, inlinedPlaces t b = [] :=
  foldl_inlineBinding_return (r := ⟨t, 0⟩) (pending_bindings hc) hc

theorem foldl_normalizeAt_return : ∀ {places : List Position} {r : Revision},
    r.tree.conforms = true → ((places.foldl normalizeAt r).tree = r.tree ↔
      ∀ p ∈ places, ∀ n, r.tree.get? p = some n → plainMember? n = none)
  | [], _, _ => by simp
  | p :: places, r, hc => by
      have hidle : (∀ n, r.tree.get? p = some n → plainMember? n = none) → normalizeAt r p = r := by
        intro hnone
        rcases normalizeAt_cases r p with he | ⟨name, n, hget, hn, -⟩
        · exact he
        · rw [hnone n hget] at hn
          cases hn
      rw [List.foldl_cons, List.forall_mem_cons]
      constructor
      · intro he
        have hrest := foldl_normalizeAt_descends places (normalizeAt r p)
        rw [he] at hrest
        have hback := hrest.eq_of_return (.normalizeAt r p) hc
        have hnone : ∀ n, r.tree.get? p = some n → plainMember? n = none := by
          intro n hn
          cases hname : plainMember? n with
          | none => rfl
          | some name =>
              have hlt := weight_normalized_lt hn hname
              have heq : (normalizeAt r p).tree = r.tree.replaceAt p (withPlainName name n) := by
                simp only [normalizeAt, hn, hname, Revision.replace]
              rw [← heq, hback] at hlt
              omega
        refine ⟨hnone, ?_⟩
        rw [hidle hnone] at he
        exact (foldl_normalizeAt_return hc).mp he
      · rintro ⟨hnone, hrest⟩
        rw [hidle hnone]
        exact (foldl_normalizeAt_return hc).mpr hrest

/-- Plain names give the tree back if every access that can have one has it. -/
theorem normalized_return_iff (hc : t.conforms = true) :
    (normalizedRevision t).tree = t ↔ ∀ p n, t.get? p = some n → plainMember? n = none := by
  refine (foldl_normalizeAt_return (r := ⟨t, 0⟩) hc).trans ?_
  constructor
  · intro h p n hn
    exact h p (Node.mem_places_iff.mpr ⟨n, hn⟩) n hn
  · intro h p _ n hn
    exact h p n hn

/-! ## The sweep -/

theorem doomedPlaces_eq_nil {t : Node} (hstubs : stubPlaces t = []) : doomedPlaces t [] = [] := by
  refine List.eq_nil_iff_forall_not_mem.mpr fun p hp => ?_
  rcases mem_doomedPlaces.mp hp with ⟨b, hb, -⟩ | ⟨n, -, hall⟩ | hp
  · cases hb
  · unfold losesAll at hall
    split at hall
    · have := List.all_eq_true.mp hall 0 (by simp)
      cases this
    · cases hall
  · rw [hstubs] at hp
    cases hp

theorem sweptTree_eq_self (hdead : deadBindings t = []) (hstubs : stubPlaces t = []) :
    sweptTree t = t := by
  have hnone : sweeps t = fun _ => false := by
    funext p
    simp [sweeps, hdead, doomedPlaces_eq_nil hstubs]
  rw [sweptTree_eq, hnone, Node.prune_false]

/-- A sweep makes the tree lighter unless there is nothing to remove. -/
theorem weight_sweptTree_lt (h : ¬ (deadBindings t = [] ∧ stubPlaces t = [])) :
    (sweptTree t).weight < t.weight := by
  have hlt : ∀ p n, p ∈ doomedPlaces t (deadBindings t) → t.get? p = some n → p ≠ [] →
      0 < n.kind.weight → (sweptTree t).weight < t.weight := by
    intro p n hp hn hne hpos
    exact Node.weight_prune_lt hn hne (sweeps_iff.mpr hp) (Nat.lt_of_lt_of_le hpos n.kind_weight_le)
  by_cases hdead : deadBindings t = []
  · obtain ⟨p, hp⟩ := List.exists_mem_of_ne_nil _ fun hstubs => h ⟨hdead, hstubs⟩
    obtain ⟨n, hn, hlist, hguard⟩ := mem_stubPlaces.mp hp
    obtain ⟨directive, hk⟩ := kind_of_isGuardStub hguard
    refine hlt p n (mem_doomedPlaces.mpr (Or.inr (Or.inr hp))) hn ?_ (by rw [hk]; exact Nat.zero_lt_two)
    rintro rfl
    cases hlist
  · obtain ⟨b, hb⟩ := List.exists_mem_of_ne_nil _ hdead
    obtain ⟨hmem, hrem, -⟩ := mem_deadCandidates.mp ((roundInv_deadBindings t).candidate b hb)
    have hdoomed : b.place ∈ doomedPlaces t (deadBindings t) :=
      mem_doomedPlaces.mpr (Or.inl ⟨b, hb, rfl⟩)
    have hne := place_ne_nil_of_mem_bindings hmem
    rcases isRemovable_cases hrem with ⟨-, -, flags, slots, hget⟩ | ⟨-, name, slots, init, hget⟩
    · exact hlt b.place _ hdoomed hget hne Nat.zero_lt_two
    · exact hlt b.place _ hdoomed hget hne Nat.zero_lt_two

theorem sweptTree_descends (t : Node) : Descends (sweptTree t) t := by
  intro hc
  refine ⟨Node.conforms_prune _ hc, ?_⟩
  by_cases h : deadBindings t = [] ∧ stubPlaces t = []
  · exact Or.inl (sweptTree_eq_self h.1 h.2)
  · exact Or.inr (weight_sweptTree_lt h)

/-- **A sweep gives the tree back** if there are no stubs and all that can go is used. -/
theorem swept_return_iff :
    sweptTree t = t ↔ stubPlaces t = [] ∧
      ∀ b ∈ (analyze t).bindings, isRemovable t b = true → isLive [] b = true := by
  have hback : sweptTree t = t ↔ stubPlaces t = [] ∧ deadBindings t = [] := by
    constructor
    · intro he
      refine Classical.byContradiction fun h => ?_
      have hlt := weight_sweptTree_lt fun h' => h ⟨h'.2, h'.1⟩
      rw [he] at hlt
      omega
    · rintro ⟨hstubs, hdead⟩
      exact sweptTree_eq_self hdead hstubs
  rw [hback]
  refine and_congr_right fun hstubs => ?_
  rw [deadBindings_eq_nil_iff]
  simp only [mem_deadCandidates, hstubs, List.not_mem_nil, false_implies, implies_true, and_true,
    and_imp]

end

/-! ## Runs that lead back -/

/-- The passes give the tree back if none of them finds anything to do. -/
theorem applyPasses_return_iff {state : RunState} {t : Node} (hc : t.conforms = true) :
    (∃ changes, (applyPasses state t).outcome = .ok (t, changes)) ↔
      (∃ changed, (resolveCalls state t).outcome = .ok (t, changed)) ∧
      (∃ changed, (foldConstants state t).outcome = .ok (t, changed)) ∧
      (inlinedRevision t).tree = t ∧ (normalizedRevision t).tree = t := by
  constructor
  · rintro ⟨changes, h⟩
    obtain ⟨t₁, t₂, resolved, folded, h₁, h₂, he, -⟩ := applyPasses_eq_ok.mp h
    have hd₁ := resolveCalls_descends h₁
    have hd₂ := foldConstants_descends h₂
    have hd₃ := Descends.inlined t₂
    have hd₄ := normalized_descends (inlinedRevision t₂).tree
    rw [← he] at hd₄
    -- each step leads down, and the last one back to the start
    obtain rfl : t₁ = t := ((hd₄.trans hd₃).trans hd₂).eq_of_return hd₁ hc
    obtain rfl : t₂ = t₁ := (hd₄.trans hd₃).eq_of_return hd₂ hc
    have h₃ : (inlinedRevision t₂).tree = t₂ := hd₄.eq_of_return hd₃ hc
    rw [h₃] at he
    exact ⟨⟨resolved, h₁⟩, ⟨folded, h₂⟩, h₃, he.symm⟩
  · rintro ⟨⟨resolved, h₁⟩, ⟨folded, h₂⟩, h₃, h₄⟩
    exact ⟨_, applyPasses_eq_ok.mpr ⟨t, t, resolved, folded, h₁, h₂, by rw [h₃, h₄], rfl⟩⟩

variable {ε : Type}

/-- Iterations lead down. -/
theorem iterateWhileChanged_descends {render : Node → Except ε String} {remaining : Nat}
    {s s' : RunState} {t t' : Node}
    (h : (iterateWhileChanged render remaining s t).outcome = .ok (t', s')) : Descends t' t :=
  iterateWhileChanged_induction (P := fun u => Descends u t)
    (fun _ _ _ _ hu hp => (applyPasses_descends hp).trans hu) (.refl t) h

theorem discoverLoader_iteration {t : Node} {s s' : RunState}
    (h : (discoverLoader t s).outcome = .ok s') : s'.iteration = s.iteration := by
  unfold discoverLoader at h
  split at h <;> cases h <;> rfl

theorem discoverDecoder_iteration {t : Node} {s s' : RunState}
    (h : (discoverDecoder t s).outcome = .ok s') : s'.iteration = s.iteration := by
  unfold discoverDecoder at h
  split at h
  · cases h
    rfl
  · obtain ⟨decoder, -, h⟩ := Logged.bind_outcome_eq_ok.mp h
    cases decoder <;> cases h <;> rfl

/-- Discovery does not count. -/
theorem discover_iteration {t : Node} {s s' : RunState} (h : (discover t s).outcome = .ok s') :
    s'.iteration = s.iteration := by
  unfold discover at h
  split at h
  · cases h
    rfl
  · obtain ⟨s₁, h₁, h⟩ := Logged.bind_outcome_eq_ok.mp h
    rw [discoverDecoder_iteration h, discoverLoader_iteration h₁]

/-- **A run gives the tree back after one iteration** exactly if the tree has a text, nothing goes
wrong in the discovery, and there is nothing to do. -/
theorem recover_return_iff {render : Node → Except ε String} {maxIterations : Int} {t : Node}
    (hm : 1 ≤ maxIterations) (hc : t.conforms = true) :
    (∃ s, (recover render maxIterations t).outcome = .ok (t, s) ∧ s.iteration = 1) ↔
      (∃ text, render t = .ok text) ∧
        ∃ found, (discover t {}).outcome = .ok found ∧ Settled found t := by
  obtain ⟨n, hn⟩ : ∃ n, maxIterations.toNat = n + 1 := ⟨maxIterations.toNat - 1, by omega⟩
  have hsettled : ∀ found, Settled found t ↔
      (∃ changes, (applyPasses found t).outcome = .ok (t, changes)) ∧ sweptTree t = t := by
    intro found
    rw [applyPasses_return_iff hc, resolveCalls_return_iff hc, foldConstants_return_iff hc,
      inlined_return_iff hc, normalized_return_iff hc, swept_return_iff]
    exact ⟨fun h => ⟨⟨h.calls, h.values, h.references, h.accesses⟩, h.stubs, h.live⟩,
      fun ⟨⟨h₁, h₂, h₃, h₄⟩, h₅, h₆⟩ => ⟨h₁, h₂, h₃, h₄, h₅, h₆⟩⟩
  constructor
  · rintro ⟨s, h, -⟩
    obtain ⟨t₂, hrun, he⟩ := recover_eq_ok.mp h
    rw [hn] at hrun
    obtain ⟨⟨t₁, s₁⟩, hfirst, hrest⟩ := Logged.bind_outcome_eq_ok.mp hrun
    obtain ⟨before, after, found, changes, hb, hf, hp, -, -⟩ := iterate_eq_ok.mp hfirst
    -- each step leads down, and the sweep back to the start
    have hd₁ := applyPasses_descends hp
    have hd₂ := iterateWhileChanged_descends hrest
    have hd₃ := sweptTree_descends t₂
    rw [← he] at hd₃
    obtain rfl : t₁ = t := (hd₃.trans hd₂).eq_of_return hd₁ hc
    obtain rfl : t₂ = t₁ := hd₃.eq_of_return hd₂ hc
    exact ⟨⟨before, hb⟩, found, hf, (hsettled found).mpr ⟨⟨changes, hp⟩, he.symm⟩⟩
  · rintro ⟨⟨text, htext⟩, found, hf, hset⟩
    obtain ⟨⟨changes, hp⟩, hswept⟩ := (hsettled found).mp hset
    have hfirst := iterate_eq_ok.mpr ⟨text, text, found, changes, htext, hf, hp, htext, rfl⟩
    refine ⟨{ found with iteration := found.iteration + 1, changed := text != text },
      recover_eq_ok.mpr ⟨t, ?_, hswept.symm⟩, ?_⟩
    · rw [hn]
      refine Logged.bind_outcome_eq_ok.mpr ⟨_, hfirst, ?_⟩
      cases n <;> simp [iterateWhileChanged]
    · show found.iteration + 1 = 1
      rw [discover_iteration hf]
      rfl

/-- **A second run gives back what the first one left**, after one iteration, exactly if the sweep of
the first run left nothing to do. -/
theorem recover_again_iff {render : Node → Except ε String} {maxIterations : Int} {t t' : Node}
    {s : RunState} (hc : t.conforms = true)
    (h : (recover render maxIterations t).outcome = .ok (t', s)) (hs : s.changed = false) :
    (∃ s', (recover render maxIterations t').outcome = .ok (t', s') ∧ s'.iteration = 1) ↔
      (∃ text, render t' = .ok text) ∧
        ∃ found, (discover t' {}).outcome = .ok found ∧ Settled found t' := by
  obtain ⟨t₁, hrun, rfl⟩ := recover_eq_ok.mp h
  have hm : 1 ≤ maxIterations := by
    refine Classical.byContradiction fun hlt => ?_
    rw [show maxIterations.toNat = 0 by omega] at hrun
    cases hrun
    cases hs
  exact recover_return_iff hm (sweptTree_descends t₁ (iterateWhileChanged_descends hrun hc).1).1

/-- `(function () { … })();` -/
def calledFunction (statements : List (Option Node)) : Node :=
  .mk (.program "script") [.many [some (.mk (.expressionStatement none) [.one (some
    (.callOf (.mk (.functionExpression ⟨false, false, false⟩)
      [.one none, .many [], .one (some (.mk .block [.many statements]))]) []))])]]

/-- `while (true) {}` -/
def endlessLoop : Node :=
  .mk .whileStatement [.one (some (.lit (.bool true) "true")), .one (some (.mk .block [.many []]))]

/-- `var x = "a";` -/
def spareVariable : Node :=
  .mk (.variableDeclaration .var) [.many [
    some (.declarator (.ident "x") (some (.lit (.text "a") "\"a\"")))]]

/-- The sweep of the first run takes the variable in front of the loop, and what it leaves is a stub,
which a second run removes. -/
theorem recover_again_iff_spareVariable :
    (calledFunction [some spareVariable, some endlessLoop]).conforms = true ∧
      (∃ s, (recover print 10 (calledFunction [some spareVariable, some endlessLoop])).outcome =
        .ok (calledFunction [some endlessLoop], s) ∧ s.changed = false) ∧
      ¬ ∃ s', (recover print 10 (calledFunction [some endlessLoop])).outcome =
        .ok (calledFunction [some endlessLoop], s') ∧ s'.iteration = 1 := by
  have hc : (calledFunction [some spareVariable, some endlessLoop]).conforms = true := by decide
  have hrun : ∃ s, (recover print 10
      (calledFunction [some spareVariable, some endlessLoop])).outcome =
        .ok (calledFunction [some endlessLoop], s) ∧ s.changed = false := ⟨_, rfl, rfl⟩
  refine ⟨hc, hrun, ?_⟩
  obtain ⟨s, hrun, hs⟩ := hrun
  rw [recover_again_iff hc hrun hs]
  rintro ⟨-, found, -, hset⟩
  have hstub : stubPlaces (calledFunction [some endlessLoop]) = [[⟨0, some 0⟩]] := by decide
  rw [hset.stubs] at hstub
  cases hstub

end Descramble

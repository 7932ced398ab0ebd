import Descramble.Run

/-!
# Runs that come to an end

What a run did, read off its outcome: a run that ends well is a chain of passes and a sweep.

* `Logged.bind_outcome_eq_ok` — a sequence ends well if both parts do.
* `resolveCalls_eq_ok`, `foldConstants_eq_ok`, `inlineConstants_outcome`,
  `normalizeMembers_outcome` — the trees that the passes leave.
* `applyPasses_eq_ok`, `iterate_eq_ok`, `recover_eq_ok` — the steps of a run.
* `iterateWhileChanged_induction` — what the passes keep holds after all iterations.
-/

set_option autoImplicit false

namespace Descramble

namespace Logged

variable {ε ε' α β : Type}

/-- A sequence ends well exactly if both parts do. -/
theorem bind_outcome_eq_ok {m : Logged ε α} {f : α → Logged ε β} {b : β} :
    (m >>= f).outcome = .ok b ↔ ∃ a, m.outcome = .ok a ∧ (f a).outcome = .ok b := by
  show (Logged.bind m f).outcome = .ok b ↔ _
  unfold Logged.bind
  cases m.outcome with
  | error e => simp
  | ok a => simp

/-- The outcome of a sequence is the sequence of the outcomes. -/
theorem bind_outcome (m : Logged ε α) (f : α → Logged ε β) :
    (m >>= f).outcome = m.outcome >>= fun a => (f a).outcome := by
  show (Logged.bind m f).outcome = _
  unfold Logged.bind
  cases m.outcome <;> rfl

@[simp] theorem pure_outcome (a : α) : (pure a : Logged ε α).outcome = .ok a := rfl

@[simp] theorem report_bind_outcome (e : Event) (f : Unit → Logged ε β) :
    (report e >>= f).outcome = (f ()).outcome := rfl

@[simp] theorem reportAll_bind_outcome (es : List Event) (f : Unit → Logged ε β) :
    (reportAll es >>= f).outcome = (f ()).outcome := rfl

@[simp] theorem ofExcept_outcome (r : Except ε α) : (ofExcept r).outcome = r := rfl

theorem mapError_outcome (f : ε → ε') (m : Logged ε α) :
    (m.mapError f).outcome = m.outcome.mapError f := rfl

theorem mapError_eq_ok {f : ε → ε'} {r : Except ε α} {a : α} :
    r.mapError f = .ok a ↔ r = .ok a := by
  cases r with
  | error e =>
      constructor
      · intro h
        cases h
      · intro h
        cases h
  | ok b =>
      constructor
      · intro h
        cases h
        rfl
      · intro h
        cases h
        rfl

theorem mapError_outcome_eq_ok {f : ε → ε'} {m : Logged ε α} {a : α} :
    (m.mapError f).outcome = .ok a ↔ m.outcome = .ok a := mapError_eq_ok

end Logged

/-! ## Passes -/

theorem resolveCalls_eq_ok {state : RunState} {t t' : Node} {changed : Bool} :
    (resolveCalls state t).outcome = .ok (t', changed) ↔
      (state.decoderFound = false ∧ t' = t ∧ changed = false) ∨
        (state.decoderFound = true ∧ ∃ r, visitEach (resolveAt state (analyze t)) t.places ⟨t, 0⟩ =
          .ok r ∧ r.tree = t' ∧ changed = decide (0 < r.count)) := by
  unfold resolveCalls
  cases state.decoderFound with
  | false => simp [eq_comm]
  | true =>
      simp only [if_true, Logged.bind_outcome_eq_ok, Logged.ofExcept_outcome,
        Logged.report_bind_outcome, Logged.pure_outcome, Except.ok.injEq, Prod.mk.injEq]
      constructor
      · rintro ⟨r, hr, rfl, rfl⟩
        exact Or.inr ⟨trivial, r, hr, rfl, rfl⟩
      · rintro (⟨h, -⟩ | ⟨-, r, hr, rfl, rfl⟩)
        · cases h
        · exact ⟨r, hr, rfl, rfl⟩

theorem foldConstants_eq_ok {state : RunState} {t t' : Node} {changed : Bool} :
    (foldConstants state t).outcome = .ok (t', changed) ↔
      ∃ r, visitEach (foldAt state.decoderName (analyze t)) t.places ⟨t, 0⟩ = .ok r ∧
        r.tree = t' ∧ changed = decide (0 < r.count) := by
  unfold foldConstants
  simp only [Logged.bind_outcome_eq_ok, Logged.ofExcept_outcome, Logged.report_bind_outcome,
    Logged.pure_outcome, Except.ok.injEq, Prod.mk.injEq, @eq_comm _ changed]

/-- The tree after inlining. -/
def inlinedRevision (t : Node) : Revision := (analyze t).bindings.foldl inlineBinding ⟨t, 0⟩

/-- The tree with plain names. -/
def normalizedRevision (t : Node) : Revision := t.places.foldl normalizeAt ⟨t, 0⟩

theorem inlineConstants_outcome (t : Node) :
    (inlineConstants t).outcome =
      .ok ((inlinedRevision t).tree, decide (0 < (inlinedRevision t).count)) := rfl

theorem normalizeMembers_outcome (t : Node) :
    (normalizeMembers t).outcome =
      .ok ((normalizedRevision t).tree, decide (0 < (normalizedRevision t).count)) := rfl

/-- **The four passes end well** if the first two do. -/
theorem applyPasses_eq_ok {state : RunState} {t t' : Node} {changes : PassChanges} :
    (applyPasses state t).outcome = .ok (t', changes) ↔
      ∃ t₁ t₂ resolved folded, (resolveCalls state t).outcome = .ok (t₁, resolved) ∧
        (foldConstants state t₁).outcome = .ok (t₂, folded) ∧
        t' = (normalizedRevision (inlinedRevision t₂).tree).tree ∧
        changes = ⟨resolved, folded, decide (0 < (inlinedRevision t₂).count),
          decide (0 < (normalizedRevision (inlinedRevision t₂).tree).count)⟩ := by
  unfold applyPasses
  simp only [Logged.bind_outcome_eq_ok, inlineConstants_outcome, normalizeMembers_outcome,
    Logged.pure_outcome, Except.ok.injEq, Prod.mk.injEq]
  constructor
  · rintro ⟨⟨t₁, resolved⟩, h₁, ⟨t₂, folded⟩, h₂, _, rfl, _, rfl, rfl, rfl⟩
    exact ⟨t₁, t₂, resolved, folded, h₁, h₂, rfl, rfl⟩
  · rintro ⟨t₁, t₂, resolved, folded, h₁, h₂, rfl, rfl⟩
    exact ⟨(t₁, resolved), h₁, (t₂, folded), h₂, _, rfl, _, rfl, rfl, rfl⟩

/-! ## Iterations -/

variable {ε : Type}

/-- **One iteration**: the text, the discovery, the passes and the text again. -/
theorem iterate_eq_ok {render : Node → Except ε String} {s s' : RunState} {t t' : Node} :
    (iterate render s t).outcome = .ok (t', s') ↔
      ∃ before after found changes, render t = .ok before ∧ (discover t s).outcome = .ok found ∧
        (applyPasses found t).outcome = .ok (t', changes) ∧ render t' = .ok after ∧
        s' = { found with iteration := found.iteration + 1, changed := before != after } := by
  unfold iterate
  simp only [Logged.bind_outcome_eq_ok, Logged.ofExcept_outcome, Logged.mapError_outcome_eq_ok,
    Logged.mapError_eq_ok, Logged.report_bind_outcome, Logged.pure_outcome, Except.ok.injEq,
    Prod.mk.injEq]
  constructor
  · rintro ⟨before, hb, found, hf, ⟨t₁, changes⟩, hp, after, ha, rfl, rfl⟩
    exact ⟨before, after, found, changes, hb, hf, hp, ha, rfl⟩
  · rintro ⟨before, after, found, changes, hb, hf, hp, ha, rfl⟩
    exact ⟨before, hb, found, hf, (t', changes), hp, after, ha, rfl, rfl⟩

/-- **What the passes keep holds after all iterations.** -/
theorem iterateWhileChanged_induction {render : Node → Except ε String} {P : Node → Prop}
    (step : ∀ s t t' changes, P t → (applyPasses s t).outcome = .ok (t', changes) → P t') :
    ∀ {remaining : Nat} {s s' : RunState} {t t' : Node}, P t →
      (iterateWhileChanged render remaining s t).outcome = .ok (t', s') → P t'
  | 0, s, s', t, t', hp, h => by
      cases h
      exact hp
  | remaining + 1, s, s', t, t', hp, h => by
      rw [iterateWhileChanged] at h
      split at h
      · obtain ⟨⟨t₁, s₁⟩, h₁, h⟩ := Logged.bind_outcome_eq_ok.mp h
        obtain ⟨before, after, found, changes, -, -, hpass, -, -⟩ := iterate_eq_ok.mp h₁
        exact iterateWhileChanged_induction step (step _ _ _ _ hp hpass) h
      · cases h
        exact hp

/-- The outcome of a run is the outcome of its iterations. -/
theorem runPasses_outcome {render : Node → Except ε String} {maxIterations : Int} (s : RunState)
    (t : Node) :
    (runPasses render maxIterations s t).outcome =
      (iterateWhileChanged render (maxIterations - s.iteration).toNat s t).outcome := by
  unfold runPasses
  rw [Logged.report_bind_outcome, Logged.bind_outcome]
  cases (iterateWhileChanged render (maxIterations - s.iteration).toNat s t).outcome with
  | error e => rfl
  | ok result =>
      obtain ⟨t', s'⟩ := result
      show (if s'.changed = true then _ else _ : Logged _ _).outcome = _
      split <;> rfl

theorem runPasses_eq_ok {render : Node → Except ε String} {maxIterations : Int} {s s' : RunState}
    {t t' : Node} :
    (runPasses render maxIterations s t).outcome = .ok (t', s') ↔
      (iterateWhileChanged render (maxIterations - s.iteration).toNat s t).outcome =
        .ok (t', s') := by
  rw [runPasses_outcome]

/-- The tree after a sweep. -/
def sweptTree (t : Node) : Node :=
  t.prune fun place => (doomedPlaces t (deadBindings t)).contains place

/-- **A run** is a chain of iterations and a sweep. -/
theorem recover_eq_ok {render : Node → Except ε String} {maxIterations : Int} {s : RunState}
    {t t' : Node} :
    (recover render maxIterations t).outcome = .ok (t', s) ↔
      ∃ t₁, (iterateWhileChanged render maxIterations.toNat {} t).outcome = .ok (t₁, s) ∧
        t' = sweptTree t₁ := by
  unfold recover
  simp only [Logged.bind_outcome_eq_ok, Logged.report_bind_outcome]
  constructor
  · rintro ⟨⟨t₁, s₁⟩, h, swept, hswept, h'⟩
    cases hswept
    cases h'
    exact ⟨t₁, by simpa using runPasses_eq_ok.mp h, rfl⟩
  · rintro ⟨t₁, h, rfl⟩
    exact ⟨(t₁, s), runPasses_eq_ok.mpr (by simpa using h), _, rfl, rfl⟩

end Descramble

import Descramble.Proofs.Run.Settled
import Descramble.Proofs.Tree.Building

/-!
# What has been found is kept

The passes change the tree between two discoveries, so that a later one searches another program.
What an earlier one has found stays: a run never mixes the table of one loader with the offset of
another decoder.

* `RunState.Coherent`, `RunState.Keeps` — what holds of one state, and of two in a row.
* `discoverLoader_cases`, `discoverDecoder_cases` — all that a discovery can do to a state.
* `discover_coherent`, `discover_keeps`, `discover_again` — what a discovery preserves, and that a
  second one on the same tree finds nothing more.
* `RunsTo` — the trees and states that a run goes through.
* `RunsTo.runPasses_outcome_eq` — the run from any of them ends where the whole run ends.
* `runPasses_latched` — what a run keeps, and how it stops.
-/

set_option autoImplicit false

namespace Descramble

namespace RunState

/-- The decoder is found as a whole, and only beside a loader that is another function. -/
structure Coherent (s : RunState) : Prop where
  found_iff : s.decoderFound = true ↔ s.decoderName ≠ none ∧ s.offset ≠ none
  loader : s.decoderFound = true → s.loaderName ≠ none ∧ s.decoderName ≠ s.loaderName

/-- What the first state knows the second one knows as well. -/
structure Keeps (s s' : RunState) : Prop where
  loader : s.loaderName ≠ none → s'.loaderName = s.loaderName ∧ s'.table = s.table
  decoder : s.decoderFound = true →
    s'.decoderFound = true ∧ s'.decoderName = s.decoderName ∧ s'.offset = s.offset

theorem coherent_start : ({} : RunState).Coherent := by
  constructor <;> decide

namespace Keeps

variable {s s' s'' : RunState}

theorem refl (s : RunState) : s.Keeps s := ⟨fun _ => ⟨rfl, rfl⟩, fun h => ⟨h, rfl, rfl⟩⟩

theorem trans (h : s.Keeps s') (h' : s'.Keeps s'') : s.Keeps s'' where
  loader hs := by
    obtain ⟨hname, htable⟩ := h.loader hs
    obtain ⟨hname', htable'⟩ := h'.loader (hname ▸ hs)
    exact ⟨hname'.trans hname, htable'.trans htable⟩
  decoder hs := by
    obtain ⟨hfound, hname, hoffset⟩ := h.decoder hs
    obtain ⟨hfound', hname', hoffset'⟩ := h'.decoder hfound
    exact ⟨hfound', hname'.trans hname, hoffset'.trans hoffset⟩

end Keeps

end RunState

/-! ## Searches -/

/-- **A search stops at the first result**, and fails nowhere before it. -/
theorem firstResult?_eq_some {α β : Type} {f : α → Except Fault (Option β)} {b : β} :
    ∀ {as : List α}, firstResult? f as = .ok (some b) → ∃ earlier a later,
      as = earlier ++ a :: later ∧ (∀ x ∈ earlier, f x = .ok none) ∧ f a = .ok (some b)
  | [], h => by cases h
  | a :: as, h => by
      obtain ⟨found, hfirst, h⟩ := bind_eq_ok.mp h
      cases found with
      | some b' =>
          cases h
          exact ⟨[], a, as, rfl, by simp, hfirst⟩
      | none =>
          obtain ⟨earlier, a', later, rfl, hearlier, hfound⟩ := @firstResult?_eq_some _ _ f b as h
          exact ⟨a :: earlier, a', later, rfl, List.forall_mem_cons.mpr ⟨hfirst, hearlier⟩, hfound⟩

/-- **A function that has the shape of a decoder gives its name to it.**  It is not the function that
it calls for the table. -/
theorem decoder?_eq_some {loader : Option String} {function : Node} {decoder : Decoder}
    (h : decoder? loader function = .ok (some decoder)) :
    ∃ params body, functionParts? function = some (decoder.name, params, body) ∧
      loader ≠ some decoder.name := by
  unfold decoder? at h
  split at h
  · cases h
  · rename_i name params body hparts
    split at h
    · cases h
    · split at h
      · cases h
      · split at h
        · cases h
        · rename_i hguard
          -- both shapes give the name of the function itself
          have hname : decoder.name = name := by
            split at h
            · obtain ⟨offset, -, h⟩ := bind_eq_ok.mp h
              cases offset <;> cases h
              rfl
            · obtain ⟨offset, -, h⟩ := bind_eq_ok.mp h
              cases offset <;> cases h
              rfl
            · cases h
          refine ⟨params, body, by rw [hparts, hname], ?_⟩
          rintro rfl
          exact hguard (by simp [hname])

theorem findDecoder?_ne_loader {loader : Option String} {t : Node} {decoder : Decoder}
    (h : findDecoder? loader t = .ok (some decoder)) : loader ≠ some decoder.name := by
  obtain ⟨earlier, function, later, -, -, hfound⟩ := firstResult?_eq_some h
  obtain ⟨-, -, -, hne⟩ := decoder?_eq_some hfound
  exact hne

/-! ## One discovery -/

section
variable {t : Node} {s s' : RunState}

/-- The search for a loader leaves the state as it is, unless no loader was known and there is
one. -/
theorem discoverLoader_cases (h : (discoverLoader t s).outcome = .ok s') :
    (s' = s ∧ (s.loaderName = none → findLoader? t = none)) ∨
      (s.loaderName = none ∧ ∃ loader, findLoader? t = some loader ∧
        s' = { s with loaderName := some loader.name, table := loader.table }) := by
  unfold discoverLoader at h
  split at h
  · rename_i loader hnone hfound
    cases h
    exact Or.inr ⟨hnone, loader, hfound, rfl⟩
  · rename_i hother
    cases h
    refine Or.inl ⟨rfl, fun hnone => ?_⟩
    cases hfound : findLoader? t with
    | none => rfl
    | some loader => exact absurd hfound (hother loader hnone)

/-- The search for a decoder leaves the state as it is, unless the loader is known and has one. -/
theorem discoverDecoder_cases (h : (discoverDecoder t s).outcome = .ok s') :
    (s' = s ∧ ∀ loader, s.loaderName = some loader → findDecoder? (some loader) t = .ok none) ∨
      ∃ loader decoder, s.loaderName = some loader ∧
        findDecoder? (some loader) t = .ok (some decoder) ∧
        s' = { s with
          decoderName := some decoder.name
          offset := some (.int decoder.offset)
          decoderFound := true } := by
  unfold discoverDecoder at h
  split at h
  · rename_i hnone
    cases h
    refine Or.inl ⟨rfl, fun loader hsome => ?_⟩
    rw [hnone] at hsome
    cases hsome
  · rename_i loader hloader
    obtain ⟨found, hfound, h⟩ := Logged.bind_outcome_eq_ok.mp h
    cases found with
    | some decoder =>
        cases h
        exact Or.inr ⟨loader, decoder, hloader, hfound, rfl⟩
    | none =>
        cases h
        refine Or.inl ⟨rfl, fun loader' hloader' => ?_⟩
        rw [hloader] at hloader'
        cases hloader'
        exact hfound

/-- **A discovery** does nothing once the decoder is found, and else is one search after the
other. -/
theorem discover_eq_ok : (discover t s).outcome = .ok s' ↔
    (s.decoderFound = true ∧ s' = s) ∨
      (s.decoderFound = false ∧ ∃ s₁, (discoverLoader t s).outcome = .ok s₁ ∧
        (discoverDecoder t s₁).outcome = .ok s') := by
  unfold discover
  cases s.decoderFound with
  | true => simp [eq_comm]
  | false => simp [Logged.bind_outcome_eq_ok]

theorem discoverLoader_decoderFound (h : (discoverLoader t s).outcome = .ok s') :
    s'.decoderFound = s.decoderFound ∧ s'.decoderName = s.decoderName ∧ s'.offset = s.offset := by
  rcases discoverLoader_cases h with ⟨rfl, -⟩ | ⟨-, loader, -, rfl⟩
  · exact ⟨rfl, rfl, rfl⟩
  · exact ⟨rfl, rfl, rfl⟩

/-- A discovery leaves the progress of the run alone. -/
theorem discover_changed (h : (discover t s).outcome = .ok s') : s'.changed = s.changed := by
  rcases discover_eq_ok.mp h with ⟨-, rfl⟩ | ⟨-, s₁, h₁, h₂⟩
  · rfl
  · have hloader : s₁.changed = s.changed := by
      rcases discoverLoader_cases h₁ with ⟨rfl, -⟩ | ⟨-, _, -, rfl⟩ <;> rfl
    rcases discoverDecoder_cases h₂ with ⟨rfl, -⟩ | ⟨-, -, -, -, rfl⟩ <;> exact hloader

theorem discover_coherent (h : (discover t s).outcome = .ok s') (hs : s.Coherent) :
    s'.Coherent := by
  rcases discover_eq_ok.mp h with ⟨-, rfl⟩ | ⟨hnot, s₁, h₁, h₂⟩
  · exact hs
  · obtain ⟨hfound, hname, hoffset⟩ := discoverLoader_decoderFound h₁
    rcases discoverDecoder_cases h₂ with ⟨rfl, -⟩ | ⟨loader, decoder, hloader, hdecoder, rfl⟩
    · refine ⟨by rw [hfound, hname, hoffset]; exact hs.found_iff, fun h => ?_⟩
      rw [hfound, hnot] at h
      cases h
    · refine ⟨by simp, fun _ => ⟨?_, ?_⟩⟩
      · show s₁.loaderName ≠ none
        rw [hloader]
        exact Option.some_ne_none _
      · show some decoder.name ≠ s₁.loaderName
        rw [hloader]
        exact (findDecoder?_ne_loader hdecoder).symm

theorem discover_keeps (h : (discover t s).outcome = .ok s') : s.Keeps s' := by
  rcases discover_eq_ok.mp h with ⟨-, rfl⟩ | ⟨hnot, s₁, h₁, h₂⟩
  · exact .refl _
  · have hdecoder : s.decoderFound = true → False := by
      intro hfound
      rw [hnot] at hfound
      cases hfound
    refine ⟨fun hknown => ?_, fun hfound => (hdecoder hfound).elim⟩
    rcases discoverLoader_cases h₁ with ⟨rfl, -⟩ | ⟨hnone, -⟩
    · rcases discoverDecoder_cases h₂ with ⟨rfl, -⟩ | ⟨-, -, -, -, rfl⟩ <;> exact ⟨rfl, rfl⟩
    · exact absurd hnone hknown

/-- **A second discovery on the same tree** finds nothing more, and reports nothing. -/
theorem discover_again (h : (discover t s).outcome = .ok s') : discover t s' = pure s' := by
  rcases discover_eq_ok.mp h with ⟨hfound, rfl⟩ | ⟨hnot, s₁, h₁, h₂⟩
  · simp [discover, hfound]
  · rcases discoverDecoder_cases h₂ with ⟨rfl, hdecoder⟩ | ⟨loader, decoder, -, -, rfl⟩
    · -- no decoder: then the loader is known, or there is none
      have hfound : s'.decoderFound = false := (discoverLoader_decoderFound h₁).1.trans hnot
      have hidle : discoverLoader t s' = pure s' := by
        unfold discoverLoader
        split
        · rename_i loader hnone hloader
          rcases discoverLoader_cases h₁ with ⟨rfl, hsearched⟩ | ⟨-, _, -, rfl⟩
          · rw [hsearched hnone] at hloader
            cases hloader
          · cases hnone
        · rfl
      have hstop : discoverDecoder t s' = pure s' := by
        unfold discoverDecoder
        split
        · rfl
        · rename_i loader hloader
          rw [hdecoder loader hloader]
          rfl
      rw [discover, hfound, hidle]
      exact hstop
    · simp [discover]

end

/-! ## A run -/

variable {ε : Type} {render : Node → Except ε String} {maxIterations : Int}

/-- The run goes on: the text has changed, and there are iterations left. -/
def RunState.GoesOn (maxIterations : Int) (s : RunState) : Prop :=
  s.changed = true ∧ s.iteration < maxIterations

/-- From a tree and a state, a run comes to another tree and another state: those after an iteration,
and those after the discovery in the midst of it. -/
inductive RunsTo (render : Node → Except ε String) (maxIterations : Int) (t : Node) (s : RunState) :
    Node → RunState → Prop
  | refl : RunsTo render maxIterations t s t s
  | discovered {u : Node} {r found : RunState} {text : String}
      (before : RunsTo render maxIterations t s u r) (goesOn : r.GoesOn maxIterations)
      (rendered : render u = .ok text) (discovery : (discover u r).outcome = .ok found) :
      RunsTo render maxIterations t s u found
  | iterated {u u' : Node} {r r' : RunState}
      (before : RunsTo render maxIterations t s u r) (goesOn : r.GoesOn maxIterations)
      (iteration : (iterate render r u).outcome = .ok (u', r')) :
      RunsTo render maxIterations t s u' r'

section
variable {t t' u u' : Node} {s s' r r' : RunState}

/-- **One iteration** is a discovery on its tree, and then the count goes up. -/
theorem exists_discover_of_iterate (h : (iterate render s t).outcome = .ok (t', s')) :
    ∃ found changed, (discover t s).outcome = .ok found ∧
      s' = { found with iteration := s.iteration + 1, changed := changed } := by
  obtain ⟨before, after, found, changes, -, hfound, -, -, rfl⟩ := iterate_eq_ok.mp h
  exact ⟨found, before != after, hfound, by rw [discover_iteration hfound]⟩

theorem iterate_iteration (h : (iterate render s t).outcome = .ok (t', s')) :
    s'.iteration = s.iteration + 1 := by
  obtain ⟨_, _, _, rfl⟩ := exists_discover_of_iterate h
  rfl

/-- What holds at the start and is kept by discoveries and by iterations holds all along the run. -/
theorem RunsTo.induction {P : RunState → Prop} (start : P s)
    (discovery : ∀ {u r found}, P r → r.GoesOn maxIterations →
      (discover u r).outcome = .ok found → P found)
    (count : ∀ {r} changed, P r → r.iteration < maxIterations →
      P { r with iteration := r.iteration + 1, changed := changed })
    (h : RunsTo render maxIterations t s u r) : P r := by
  induction h with
  | refl => exact start
  | discovered _ goesOn _ hfound ih => exact discovery ih goesOn hfound
  | iterated _ goesOn hiterate ih =>
      obtain ⟨found, changed, hfound, rfl⟩ := exists_discover_of_iterate hiterate
      have hcount := discover_iteration hfound
      rw [← hcount]
      exact count changed (discovery ih goesOn hfound) (hcount ▸ goesOn.2)

/-- A run keeps within its bound. -/
theorem RunsTo.iteration_le (hs : s.iteration ≤ maxIterations)
    (h : RunsTo render maxIterations t s u r) : r.iteration ≤ maxIterations :=
  h.induction (P := fun r => r.iteration ≤ maxIterations) hs
    (fun hr _ hfound => (discover_iteration hfound).symm ▸ hr) (fun _ _ hlt => hlt)

theorem RunsTo.coherent (hs : s.Coherent) (h : RunsTo render maxIterations t s u r) : r.Coherent :=
  h.induction (P := RunState.Coherent) hs (fun hr _ hfound => discover_coherent hfound hr)
    (fun _ hr _ => ⟨hr.found_iff, hr.loader⟩)

theorem RunsTo.keeps (h : RunsTo render maxIterations t s u r) : s.Keeps r :=
  h.induction (P := s.Keeps) (.refl s) (fun hr _ hfound => hr.trans (discover_keeps hfound))
    (fun _ hr _ => ⟨hr.loader, hr.decoder⟩)

/-! ## The end of a run -/

/-- A run that goes on makes one more iteration. -/
theorem runPasses_outcome_of_goesOn (hs : s.GoesOn maxIterations) :
    (runPasses render maxIterations s t).outcome =
      (iterate render s t).outcome >>= fun (t', s') =>
        (runPasses render maxIterations s' t').outcome := by
  obtain ⟨hchanged, hlt⟩ := hs
  obtain ⟨remaining, hremaining⟩ : ∃ remaining, (maxIterations - s.iteration).toNat =
      remaining + 1 := ⟨(maxIterations - s.iteration).toNat - 1, by omega⟩
  rw [runPasses_outcome, hremaining, iterateWhileChanged, if_pos hchanged, Logged.bind_outcome]
  cases hfirst : (iterate render s t).outcome with
  | error e => rfl
  | ok result =>
      obtain ⟨t', s'⟩ := result
      have hcount := iterate_iteration hfirst
      show (iterateWhileChanged render remaining s' t').outcome =
        (runPasses render maxIterations s' t').outcome
      rw [runPasses_outcome, show (maxIterations - s'.iteration).toNat = remaining by omega]

/-- An iteration does the same after the discovery on its tree as before it. -/
theorem iterate_outcome_of_discover (h : (discover t s).outcome = .ok s') :
    (iterate render s' t).outcome = (iterate render s t).outcome := by
  unfold iterate
  simp only [Logged.bind_outcome, Logged.mapError_outcome, h, discover_again h, Logged.pure_outcome]

/-- **A run ends where the run from any of its states ends.** -/
theorem RunsTo.runPasses_outcome_eq (h : RunsTo render maxIterations t s u r) :
    (runPasses render maxIterations r u).outcome =
      (runPasses render maxIterations s t).outcome := by
  induction h with
  | refl => rfl
  | discovered _ goesOn _ hfound ih =>
      rw [← ih, runPasses_outcome_of_goesOn goesOn, ← iterate_outcome_of_discover hfound]
      refine runPasses_outcome_of_goesOn ⟨?_, ?_⟩
      · rw [discover_changed hfound]
        exact goesOn.1
      · rw [discover_iteration hfound]
        exact goesOn.2
  | iterated _ goesOn hiterate ih =>
      rw [← ih, runPasses_outcome_of_goesOn goesOn, hiterate]
      rfl

/-- The iterations come to a state of the run, and stop there for one of two reasons. -/
theorem runsTo_of_iterateWhileChanged : ∀ {remaining : Nat} {u : Node} {r : RunState},
    RunsTo render maxIterations t s u r → (maxIterations - r.iteration).toNat = remaining →
      (iterateWhileChanged render remaining r u).outcome = .ok (t', s') →
        RunsTo render maxIterations t s t' s' ∧ (s'.changed = false ∨ maxIterations ≤ s'.iteration)
  | 0, u, r, h, hremaining, hrun => by
      cases hrun
      exact ⟨h, Or.inr (by omega)⟩
  | remaining + 1, u, r, h, hremaining, hrun => by
      rw [iterateWhileChanged] at hrun
      split at hrun
      · rename_i hchanged
        obtain ⟨⟨u₁, r₁⟩, hfirst, hrest⟩ := Logged.bind_outcome_eq_ok.mp hrun
        have hcount := iterate_iteration hfirst
        exact runsTo_of_iterateWhileChanged (h.iterated ⟨hchanged, by omega⟩ hfirst) (by omega)
          hrest
      · rename_i hchanged
        cases hrun
        exact ⟨h, Or.inl (Bool.eq_false_iff.mpr hchanged)⟩

/-- **What a run has found it keeps.**  In every state that a run from the start comes to, the bound
on the iterations is kept, the decoder is known as a whole and only beside its loader, all later
states know what this one knows, and a discovery on the tree that has just been searched changes
nothing.  A run that ends has left the text as it was or used up its iterations. -/
theorem runPasses_latched (hm : 0 ≤ maxIterations) (t : Node) :
    (∀ u r, RunsTo render maxIterations t {} u r →
      r.iteration ≤ maxIterations ∧ r.Coherent ∧
      (∀ u' r', RunsTo render maxIterations u r u' r' → r.Keeps r') ∧
      ∀ found, (discover u r).outcome = .ok found → discover u found = pure found) ∧
    ∀ t' s', (runPasses render maxIterations {} t).outcome = .ok (t', s') →
      RunsTo render maxIterations t {} t' s' ∧
        (s'.changed = false ∨ s'.iteration = maxIterations) := by
  refine ⟨fun u r h => ⟨h.iteration_le hm, h.coherent RunState.coherent_start,
    fun u' r' h' => h'.keeps, fun found => discover_again⟩, fun t' s' h => ?_⟩
  obtain ⟨hreached, hstop⟩ := runsTo_of_iterateWhileChanged .refl rfl (runPasses_eq_ok.mp h)
  refine ⟨hreached, hstop.imp_right fun hle => ?_⟩
  exact Int.le_antisymm (hreached.iteration_le hm) hle

end

/-- The loader `A` of two texts, and a decoder `B` whose offset has to be computed first:
`function B(a) { var b = A(); return b[a - (2 + 3)]; }`.  The texts are used in `use(B(5));`. -/
def computedOffset : Node :=
  .programOf "script" [
    .functionNamed "A" [] [
      .varOf "t" (.mk .arrayExpression [.many [some (.ofText "x"), some (.ofText "y")]]),
      .statementOf (.assigned "A" (.functionOf [] [.returnOf (.ident "t")])),
      .returnOf (.callOf (.ident "A") [])],
    .functionNamed "B" ["a"] [
      .varOf "b" (.callOf (.ident "A") []),
      .returnOf (.memberOf true (.ident "b")
        (.lessened "a" (.binary2 (.binary "+") (.ofInt 2) (.ofInt 3))))],
    .statementOf (.callOf (.ident "use") [some (.callOf (.ident "B") [some (.ofInt 5)])])]

theorem exists_tree_of_state {outcome : Except (Failure ε) (Node × RunState)} {s : RunState}
    (h : outcome.toOption.map Prod.snd = some s) : ∃ t, outcome = .ok (t, s) := by
  obtain ⟨⟨t, s'⟩, hok, rfl⟩ := Option.map_eq_some_iff.mp h
  exact ⟨t, eq_ok_of_toOption hok⟩

/-- The first iteration knows the loader only; it computes the offset, and the second one finds the
decoder with it. -/
theorem runPasses_latched_computedOffset :
    (0 : Int) ≤ 10 ∧ ∃ u r t' s', (iterate print {} computedOffset).outcome = .ok (u, r) ∧
      (r.loaderName = some "A" ∧ r.decoderFound = false) ∧
      (runPasses print 10 {} computedOffset).outcome = .ok (t', s') ∧
      (s'.decoderName = some "B" ∧ s'.iteration = 3) ∧
      s'.Coherent ∧ r.Keeps s' ∧ (s'.changed = false ∨ s'.iteration = 10) := by
  have hm : (0 : Int) ≤ 10 := by decide
  obtain ⟨u, hfirst⟩ : ∃ u, (iterate print {} computedOffset).outcome = .ok (u,
      { table := ["x", "y"], loaderName := some "A", iteration := 1 }) :=
    exists_tree_of_state (by decide +kernel)
  obtain ⟨t', hrun⟩ : ∃ t', (runPasses print 10 {} computedOffset).outcome = .ok (t',
      { table := ["x", "y"], loaderName := some "A", decoderName := some "B",
        offset := some (.int 5), decoderFound := true, iteration := 3, changed := false }) :=
    exists_tree_of_state (by decide +kernel)
  obtain ⟨hreached, hend⟩ := @runPasses_latched _ print 10 hm computedOffset
  obtain ⟨hlast, hstop⟩ := hend _ _ hrun
  have hgoes : RunsTo print 10 computedOffset {} u _ := .iterated .refl ⟨rfl, by decide⟩ hfirst
  -- the run from the first iteration on is the rest of the whole run
  rw [← hgoes.runPasses_outcome_eq] at hrun
  have hrest := (runsTo_of_iterateWhileChanged .refl rfl (runPasses_eq_ok.mp hrun)).1
  exact ⟨hm, u, _, t', _, hfirst, ⟨rfl, rfl⟩, hgoes.runPasses_outcome_eq ▸ hrun, ⟨rfl, rfl⟩,
    (hreached _ _ hlast).2.1, (hreached _ _ hgoes).2.2.1 _ _ hrest, hstop⟩

end Descramble

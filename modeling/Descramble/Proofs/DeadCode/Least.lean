import Descramble.Proofs.DeadCode.Rounds

/-!
# The least set that holds what nothing else uses

A candidate whose uses all lie in what goes must go as well.  Many sets of candidates are closed in
this sense: two functions that call only each other may both stay or both go.  The rounds find the
least of them, whatever the order in which they look at the candidates.

* `UsedOnlyIn` — all uses of a binding lie in what goes with a set.
* `ClosedUnderUse` — a set of candidates that contains each candidate used only in what goes with it.
* `mem_of_mem_foldl_deadVisit` — a round stays in every closed set that it starts in.
* `closedUnderUse_deadRounds`, `mem_of_mem_deadRounds` — the rounds end with the least closed set.
* `mem_deadRounds_congr` — the order of the candidates does not matter.
-/

set_option autoImplicit false

namespace Descramble

/-- All uses of a binding lie in its own declaration, in a stub, or in the declaration of a member of
the set. -/
def UsedOnlyIn (stubs : List Position) (D : Binding → Prop) (b : Binding) : Prop :=
  ∀ use ∈ b.references ++ b.violations, use.isInside b.place = true ∨
    (∃ stub ∈ stubs, use.isInside stub = true) ∨ ∃ d, D d ∧ use.isInside d.place = true

/-- A set of candidates that contains each candidate used only in what goes with the set. -/
structure ClosedUnderUse (stubs : List Position) (candidates : List Binding) (D : Binding → Prop) :
    Prop where
  candidate : ∀ b, D b → b ∈ candidates
  closed : ∀ b ∈ candidates, UsedOnlyIn stubs D b → D b

section
variable {stubs : List Position} {candidates : List Binding} {D D' : Binding → Prop}

theorem UsedOnlyIn.mono {b : Binding} (h : UsedOnlyIn stubs D b) (hsub : ∀ d, D d → D' d) :
    UsedOnlyIn stubs D' b := by
  intro use huse
  rcases h use huse with hown | hstub | ⟨d, hd, hin⟩
  · exact Or.inl hown
  · exact Or.inr (Or.inl hstub)
  · exact Or.inr (Or.inr ⟨d, hsub d hd, hin⟩)

/-- A binding is not live exactly if it is used only in what goes. -/
theorem isLive_eq_false_iff_usedOnlyIn {dead : List Binding} {b : Binding} :
    isLive (discardedBy stubs dead) b = false ↔ UsedOnlyIn stubs (· ∈ dead) b := by
  rw [isLive_eq_false_iff]
  refine forall_congr' fun use => forall_congr' fun _ => or_congr Iff.rfl ?_
  simp only [discardedBy, List.mem_append, List.mem_map]
  constructor
  · rintro ⟨place, hplace | ⟨d, hd, rfl⟩, hin⟩
    · exact Or.inl ⟨place, hplace, hin⟩
    · exact Or.inr ⟨d, hd, hin⟩
  · rintro (⟨place, hplace, hin⟩ | ⟨d, hd, hin⟩)
    · exact ⟨place, Or.inl hplace, hin⟩
    · exact ⟨d.place, Or.inr ⟨d, hd, rfl⟩, hin⟩

/-! ## The rounds stay in every closed set -/

/-- One visit adds only what every closed set holds. -/
theorem mem_of_mem_deadVisit (hD : ClosedUnderUse stubs candidates D) {dead : List Binding}
    {b : Binding} (hb : b ∈ candidates) (hdead : ∀ d ∈ dead, D d) :
    ∀ d ∈ deadVisit stubs dead b, D d := by
  unfold deadVisit
  split
  · exact hdead
  · rename_i hcond
    simp only [Bool.or_eq_true, not_or, Bool.not_eq_true] at hcond
    have hused := isLive_eq_false_iff_usedOnlyIn.mp hcond.2
    intro d hd
    rcases List.mem_append.mp hd with hd | hd
    · exact hdead d hd
    · rw [List.mem_singleton.mp hd]
      exact hD.closed b hb (hused.mono hdead)

theorem mem_of_mem_foldl_deadVisit (hD : ClosedUnderUse stubs candidates D) :
    ∀ {bs dead : List Binding}, (∀ b ∈ bs, b ∈ candidates) → (∀ d ∈ dead, D d) →
      ∀ d ∈ bs.foldl (deadVisit stubs) dead, D d
  | [], _, _, hdead => hdead
  | b :: bs, dead, hbs, hdead => by
      rw [List.foldl_cons]
      refine mem_of_mem_foldl_deadVisit hD (fun c hc => hbs c (List.mem_cons_of_mem _ hc)) ?_
      exact mem_of_mem_deadVisit hD (hbs b List.mem_cons_self) hdead

/-- **The rounds find nothing that a closed set can do without.** -/
theorem mem_of_mem_deadRounds (hD : ClosedUnderUse stubs candidates D) :
    ∀ {fuel : Nat} {dead : List Binding}, (∀ d ∈ dead, D d) →
      ∀ d ∈ deadRounds stubs candidates fuel dead, D d
  | 0, _, hdead => hdead
  | fuel + 1, dead, hdead => by
      rw [deadRounds]
      split
      · exact hdead
      · refine mem_of_mem_deadRounds hD ?_
        rw [deadRound_eq]
        exact mem_of_mem_foldl_deadVisit hD (fun _ hb => hb) hdead

/-- What the rounds find is closed itself. -/
theorem closedUnderUse_deadRounds (stubs : List Position) (candidates : List Binding) :
    ClosedUnderUse stubs candidates
      (· ∈ deadRounds stubs candidates candidates.length []) := by
  have hstart : RoundInv stubs candidates [] := ⟨List.nodup_nil, by simp, by simp⟩
  refine ⟨hstart.deadRounds.candidate, fun b hb hused => ?_⟩
  exact hstart.complete (by simp) b hb (isLive_eq_false_iff_usedOnlyIn.mpr hused)

/-! ## The order of the candidates -/

/-- A closed set does not depend on the order of the candidates. -/
theorem ClosedUnderUse.congr {scan : List Binding} (h : ClosedUnderUse stubs candidates D)
    (hscan : ∀ b, b ∈ scan ↔ b ∈ candidates) : ClosedUnderUse stubs scan D :=
  ⟨fun b hb => (hscan b).mpr (h.candidate b hb), fun b hb => h.closed b ((hscan b).mp hb)⟩

/-- **The order in which the candidates are scanned does not matter.** -/
theorem mem_deadRounds_congr {scan : List Binding} (hscan : ∀ b, b ∈ scan ↔ b ∈ candidates)
    (b : Binding) : b ∈ deadRounds stubs scan scan.length [] ↔
      b ∈ deadRounds stubs candidates candidates.length [] := by
  constructor
  · exact mem_of_mem_deadRounds ((closedUnderUse_deadRounds stubs candidates).congr hscan)
      (by simp) b
  · refine mem_of_mem_deadRounds ((closedUnderUse_deadRounds stubs scan).congr ?_) (by simp) b
    exact fun c => (hscan c).symm

end

end Descramble

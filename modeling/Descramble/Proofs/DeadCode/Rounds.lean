import Descramble.DeadCode
import Descramble.Proofs.Tree.Place

/-!
# The rounds that find dead bindings

The dead bindings are found in rounds, and each one is found while others are still missing.  In the
end they form a set that is consistent and complete.

* `isLive_eq_false_iff` — a binding is not live if all its uses lie in what goes.
* `RoundInv` — what holds between rounds, kept by `RoundInv.deadRound` and `RoundInv.deadRounds`.
* `not_live_of_mem_deadBindings` — no dead binding is used outside what goes.
* `mem_deadBindings_of_not_live` — a candidate that is not used outside what goes is dead.
* `deadBindings_eq_nil_iff` — nothing is dead if every candidate is used.
-/

set_option autoImplicit false

namespace Descramble

/-! ## Liveness -/

theorem isLive_eq_false_iff {discarded : List Position} {b : Binding} :
    isLive discarded b = false ↔ ∀ use ∈ b.references ++ b.violations,
      use.isInside b.place = true ∨ ∃ place ∈ discarded, use.isInside place = true := by
  unfold isLive
  rw [List.any_eq_false]
  constructor
  · intro h use huse
    have := h use huse
    simp only [Bool.and_eq_true, Bool.not_eq_true', not_and, Bool.not_eq_false,
      List.any_eq_true] at this
    cases hin : use.isInside b.place with
    | true => exact Or.inl rfl
    | false => exact Or.inr (this hin)
  · intro h use huse
    simp only [Bool.and_eq_true, Bool.not_eq_true', not_and, Bool.not_eq_false, List.any_eq_true]
    intro hin
    rcases h use huse with h | h
    · rw [hin] at h
      cases h
    · exact h

/-- The more is discarded, the less is live. -/
theorem isLive_mono {discarded discarded' : List Position} {b : Binding}
    (hsub : ∀ p ∈ discarded, p ∈ discarded') (h : isLive discarded b = false) :
    isLive discarded' b = false := by
  rw [isLive_eq_false_iff] at h ⊢
  intro use huse
  rcases h use huse with h | ⟨p, hp, h⟩
  · exact Or.inl h
  · exact Or.inr ⟨p, hsub p hp, h⟩

/-! ## Rounds -/

section
variable {stubs : List Position} {candidates dead : List Binding}

/-- What a sweep discards. -/
abbrev discardedBy (stubs : List Position) (dead : List Binding) : List Position :=
  stubs ++ dead.map Binding.place

theorem discardedBy_subset {dead' : List Binding} (h : ∀ b ∈ dead, b ∈ dead') :
    ∀ p ∈ discardedBy stubs dead, p ∈ discardedBy stubs dead' := by
  intro p hp
  rcases List.mem_append.mp hp with hp | hp
  · exact List.mem_append_left _ hp
  · obtain ⟨b, hb, rfl⟩ := List.mem_map.mp hp
    exact List.mem_append_right _ (List.mem_map.mpr ⟨b, h b hb, rfl⟩)

/-- What holds between rounds: the dead bindings are distinct candidates without uses outside what
goes. -/
structure RoundInv (stubs : List Position) (candidates dead : List Binding) : Prop where
  nodup : dead.Nodup
  candidate : ∀ b ∈ dead, b ∈ candidates
  not_live : ∀ b ∈ dead, isLive (discardedBy stubs dead) b = false

/-- The visit of one candidate. -/
def deadVisit (stubs : List Position) (dead : List Binding) (b : Binding) : List Binding :=
  if dead.contains b || isLive (discardedBy stubs dead) b then dead else dead ++ [b]

theorem deadRound_eq (stubs : List Position) (candidates dead : List Binding) :
    deadRound stubs candidates dead = candidates.foldl (deadVisit stubs) dead := rfl

theorem RoundInv.deadVisit (h : RoundInv stubs candidates dead) {b : Binding}
    (hb : b ∈ candidates) : RoundInv stubs candidates (deadVisit stubs dead b) := by
  unfold Descramble.deadVisit
  split
  · exact h
  · rename_i hcond
    simp only [Bool.or_eq_true, List.contains_iff_mem, not_or, Bool.not_eq_true] at hcond
    have hsub : ∀ c ∈ dead, c ∈ dead ++ [b] := fun c hc => List.mem_append_left _ hc
    refine ⟨?_, ?_, ?_⟩
    · rw [List.nodup_append]
      refine ⟨h.nodup, by simp, ?_⟩
      rintro c hc d hd rfl
      simp only [List.mem_singleton] at hd
      exact hcond.1 (hd ▸ hc)
    · intro c hc
      rcases List.mem_append.mp hc with hc | hc
      · exact h.candidate c hc
      · simp only [List.mem_singleton] at hc
        rwa [hc]
    · intro c hc
      rcases List.mem_append.mp hc with hc | hc
      · exact isLive_mono (discardedBy_subset hsub) (h.not_live c hc)
      · simp only [List.mem_singleton] at hc
        rw [hc]
        exact isLive_mono (discardedBy_subset hsub) hcond.2

theorem RoundInv.foldl_deadVisit : ∀ {bs : List Binding} {dead : List Binding},
    RoundInv stubs candidates dead → (∀ b ∈ bs, b ∈ candidates) →
      RoundInv stubs candidates (bs.foldl (Descramble.deadVisit stubs) dead)
  | [], _, h, _ => h
  | b :: bs, dead, h, hbs => by
      rw [List.foldl_cons]
      exact (h.deadVisit (hbs b List.mem_cons_self)).foldl_deadVisit
        fun c hc => hbs c (List.mem_cons_of_mem _ hc)

theorem RoundInv.deadRound (h : RoundInv stubs candidates dead) :
    RoundInv stubs candidates (deadRound stubs candidates dead) :=
  h.foldl_deadVisit fun _ hb => hb

theorem RoundInv.deadRounds : ∀ {fuel : Nat} {dead : List Binding},
    RoundInv stubs candidates dead → RoundInv stubs candidates (deadRounds stubs candidates fuel dead)
  | 0, _, h => h
  | fuel + 1, dead, h => by
      rw [Descramble.deadRounds]
      split
      · exact h
      · exact h.deadRound.deadRounds

/-! ## The end of the rounds -/

theorem deadVisit_cases (dead : List Binding) (b : Binding) :
    deadVisit stubs dead b = dead ∨ deadVisit stubs dead b = dead ++ [b] := by
  unfold deadVisit
  split
  · exact Or.inl rfl
  · exact Or.inr rfl

theorem length_le_deadVisit (dead : List Binding) (b : Binding) :
    dead.length ≤ (deadVisit stubs dead b).length := by
  rcases @deadVisit_cases stubs dead b with h | h <;> simp [h]

theorem length_le_foldl_deadVisit : ∀ (bs dead : List Binding),
    dead.length ≤ (bs.foldl (deadVisit stubs) dead).length
  | [], _ => Nat.le_refl _
  | b :: bs, dead => by
      rw [List.foldl_cons]
      exact Nat.le_trans (length_le_deadVisit dead b) (length_le_foldl_deadVisit bs _)

/-- A round that adds nothing has found every candidate dead or live. -/
theorem complete_of_foldl_deadVisit : ∀ {bs dead : List Binding},
    (bs.foldl (deadVisit stubs) dead).length = dead.length →
      ∀ b ∈ bs, isLive (discardedBy stubs dead) b = false → b ∈ dead
  | [], _, _ => by simp
  | c :: bs, dead, h => by
      rw [List.foldl_cons] at h
      have hle := @length_le_foldl_deadVisit stubs bs (deadVisit stubs dead c)
      have hc : deadVisit stubs dead c = dead := by
        rcases deadVisit_cases dead c with hc | hc
        · exact hc
        · rw [h, hc, List.length_append] at hle
          simp only [List.length_singleton] at hle
          omega
      rw [hc] at h
      intro b hb hlive
      rcases List.mem_cons.mp hb with rfl | hb
      · unfold deadVisit at hc
        split at hc
        · rename_i hcond
          simpa [hlive] using hcond
        · simp at hc
      · exact complete_of_foldl_deadVisit h b hb hlive

/-- **With enough rounds, every candidate without uses outside what goes is found.** -/
theorem RoundInv.complete : ∀ {fuel : Nat} {dead : List Binding}, RoundInv stubs candidates dead →
    candidates.length ≤ fuel + dead.length → ∀ b ∈ candidates,
      isLive (discardedBy stubs (Descramble.deadRounds stubs candidates fuel dead)) b = false →
        b ∈ Descramble.deadRounds stubs candidates fuel dead
  | 0, dead, h, hfuel => by
      intro b hb _
      rw [Descramble.deadRounds]
      -- all candidates are dead, or one more would not fit
      refine Classical.byContradiction fun hmem => ?_
      have hnd : (b :: dead).Nodup := List.nodup_cons.mpr ⟨hmem, h.nodup⟩
      have := hnd.length_le_of_subset fun c hc => by
        rcases List.mem_cons.mp hc with rfl | hc
        · exact hb
        · exact h.candidate c hc
      simp at this
      omega
  | fuel + 1, dead, h, hfuel => by
      rw [Descramble.deadRounds]
      split
      · rename_i hlen
        exact complete_of_foldl_deadVisit hlen
      · rename_i hlen
        have hle := @length_le_foldl_deadVisit stubs candidates dead
        rw [← deadRound_eq] at hle
        exact h.deadRound.complete (by omega)

end

/-! ## Dead bindings -/

/-- The bindings whose declarations can go, outside of stubs. -/
def deadCandidates (t : Node) : List Binding :=
  (analyze t).bindings.filter fun b =>
    isRemovable t b && !(stubPlaces t).any fun place => b.place.isInside place

theorem deadBindings_eq (t : Node) :
    deadBindings t =
      deadRounds (stubPlaces t) (deadCandidates t) (deadCandidates t).length [] := rfl

theorem roundInv_deadBindings (t : Node) :
    RoundInv (stubPlaces t) (deadCandidates t) (deadBindings t) := by
  rw [deadBindings_eq]
  exact RoundInv.deadRounds ⟨List.nodup_nil, by simp, by simp⟩

theorem mem_deadCandidates {t : Node} {b : Binding} :
    b ∈ deadCandidates t ↔ b ∈ (analyze t).bindings ∧ isRemovable t b = true ∧
      ∀ p ∈ stubPlaces t, b.place.isInside p = false := by
  simp [deadCandidates, List.mem_filter]

/-- **No dead binding is used outside what goes.** -/
theorem not_live_of_mem_deadBindings {t : Node} {b : Binding} (h : b ∈ deadBindings t) :
    isLive (discardedBy (stubPlaces t) (deadBindings t)) b = false :=
  (roundInv_deadBindings t).not_live b h

/-- **A candidate that is not used outside what goes is dead.** -/
theorem mem_deadBindings_of_not_live {t : Node} {b : Binding} (h : b ∈ deadCandidates t)
    (hlive : isLive (discardedBy (stubPlaces t) (deadBindings t)) b = false) :
    b ∈ deadBindings t := by
  rw [deadBindings_eq] at hlive ⊢
  exact RoundInv.complete ⟨List.nodup_nil, by simp, by simp⟩ (by simp) b h hlive

theorem foldl_deadVisit_of_live {stubs : List Position} : ∀ {bs : List Binding},
    (∀ b ∈ bs, isLive stubs b = true) → bs.foldl (deadVisit stubs) [] = []
  | [], _ => rfl
  | b :: bs, h => by
      have hb : deadVisit stubs [] b = [] := by
        simp [deadVisit, discardedBy, h b List.mem_cons_self]
      rw [List.foldl_cons, hb]
      exact foldl_deadVisit_of_live fun c hc => h c (List.mem_cons_of_mem _ hc)

/-- **Nothing is dead exactly if every candidate is used** outside of stubs. -/
theorem deadBindings_eq_nil_iff {t : Node} :
    deadBindings t = [] ↔ ∀ b ∈ deadCandidates t, isLive (stubPlaces t) b = true := by
  constructor
  · intro h b hb
    refine Classical.byContradiction fun hlive => ?_
    have hdead := mem_deadBindings_of_not_live hb (by rw [h]; simpa [discardedBy] using hlive)
    rw [h] at hdead
    cases hdead
  · intro h
    rw [deadBindings_eq]
    cases (deadCandidates t).length with
    | zero => rfl
    | succ fuel => rw [deadRounds, deadRound_eq, foldl_deadVisit_of_live h, if_pos rfl]

end Descramble

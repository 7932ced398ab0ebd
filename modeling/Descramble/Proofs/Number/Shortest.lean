import Descramble.Proofs.Number.Nearest
import Descramble.Double.Decimal

/-!
# The shortest decimal of a double

The search for the shortest decimal tries ever finer decimal grids and takes a neighbour of the double
on the first grid that has one between the midpoints around the double.

* `Decimal.numerator`, `Decimal.denominator` — a decimal as a ratio of units.
* `Double.ofDecimal_eq_ofRatio` — reading a decimal is rounding that ratio.
* `Double.below` — the last point of a decimal grid that is not above a double.
* `Double.withDigits?_cases` — a grid yields one of the two neighbours of the double, or neither does.
* `Double.Surrounds.of_fine_grid`, `withDigits?_seventeen` — seventeen digits suffice.
* `Double.exists_first_grid` — the shortest decimal comes from the first grid with an answer.
* `Double.shortest_surrounds` — the shortest decimal reads back as the double.
-/

set_option autoImplicit false

namespace Descramble

/-! ## Decimals as ratios -/

namespace Decimal

/-- The decimal is a ratio of units; its numerator. -/
def numerator (d : Decimal) : Nat := d.digits * (Double.oneUnits * Nat.pow 10 d.exponent.toNat)

/-- The denominator of the ratio. -/
def denominator (d : Decimal) : Nat := Nat.pow 10 (-d.exponent).toNat

/-- The next point on the grid of the decimal. -/
def next (d : Decimal) : Decimal := ⟨d.digits + 1, d.exponent⟩

theorem pow_ten_pos (k : Nat) : 0 < Nat.pow 10 k := Nat.pow_pos (by decide)

theorem pow_ten_succ (k : Nat) : Nat.pow 10 (k + 1) = 10 * Nat.pow 10 k := Nat.pow_succ'

theorem pow_ten_add (j k : Nat) : Nat.pow 10 (j + k) = Nat.pow 10 j * Nat.pow 10 k := Nat.pow_add ..

theorem numerator_natCast (D k : Nat) :
    (⟨D, k⟩ : Decimal).numerator = D * Nat.pow 10 k * Double.oneUnits := by
  rw [numerator, Int.toNat_natCast, Nat.mul_assoc, Nat.mul_comm (Nat.pow 10 k)]

theorem denominator_natCast (D k : Nat) : (⟨D, k⟩ : Decimal).denominator = 1 := by
  rw [denominator, show (-(k : Int)).toNat = 0 by omega]

/-- A zero may move between the digits and the exponent. -/
theorem surrounds_carry {rank D : Nat} {e : Int} :
    Double.Surrounds rank (⟨D, e + 1⟩ : Decimal).numerator (⟨D, e + 1⟩ : Decimal).denominator ↔
      Double.Surrounds rank (⟨D * 10, e⟩ : Decimal).numerator (⟨D * 10, e⟩ : Decimal).denominator := by
  by_cases he : 0 ≤ e
  · obtain ⟨k, rfl⟩ := Int.eq_ofNat_of_zero_le he
    rw [show (k : Int) + 1 = ((k + 1 : Nat) : Int) by omega]
    simp only [numerator_natCast, denominator_natCast, pow_ten_succ, Nat.mul_assoc]
  · -- one zero less in the denominator
    obtain ⟨k, hk⟩ : ∃ k : Nat, -e = k + 1 := ⟨(-e - 1).toNat, by omega⟩
    have hden : (⟨D * 10, e⟩ : Decimal).denominator = 10 * (⟨D, e + 1⟩ : Decimal).denominator := by
      rw [denominator, denominator, show (-e).toNat = k + 1 by omega, show (-(e + 1)).toNat = k by omega,
        pow_ten_succ]
    have hnum : (⟨D * 10, e⟩ : Decimal).numerator = 10 * (⟨D, e + 1⟩ : Decimal).numerator := by
      rw [numerator, numerator, show e.toNat = 0 by omega, show (e + 1).toNat = 0 by omega,
        Nat.mul_comm D, Nat.mul_assoc]
    rw [hden, hnum, Double.surrounds_mul_left (by decide)]

/-- Dropping zeros keeps the value: the exponent grows by the number of zeros dropped. -/
theorem exists_strip : ∀ (fuel : Nat) (d : Decimal), ∃ zeros : Nat,
    (d.strip fuel).exponent = d.exponent + zeros ∧
      d.digits = (d.strip fuel).digits * Nat.pow 10 zeros
  | 0, d => ⟨0, by simp [strip], by simp [strip]⟩
  | fuel + 1, d => by
      rw [strip]
      split
      · rename_i hzero
        obtain ⟨zeros, hexponent, hdigits⟩ := exists_strip fuel ⟨d.digits / 10, d.exponent + 1⟩
        simp only at hexponent hdigits
        refine ⟨zeros + 1, by omega, ?_⟩
        rw [pow_ten_succ, Nat.mul_left_comm, ← hdigits]
        omega
      · exact ⟨0, by simp, by simp⟩

theorem surrounds_strip {rank : Nat} : ∀ {fuel : Nat} {d : Decimal},
    Double.Surrounds rank (d.strip fuel).numerator (d.strip fuel).denominator ↔
      Double.Surrounds rank d.numerator d.denominator
  | 0, _ => Iff.rfl
  | fuel + 1, d => by
      rw [strip]
      split
      · rename_i hzero
        have hdigits : d.digits / 10 * 10 = d.digits := by omega
        rw [surrounds_strip, surrounds_carry, hdigits]
      · exact Iff.rfl

end Decimal

namespace Double

variable {rank count units : Nat}

/-- **Reading a decimal is rounding its ratio**, as long as its exponent is not far out of range. -/
theorem ofDecimal_eq_ofRatio {d : Decimal} (hdigits : d.digits ≠ 0) (hhigh : d.exponent ≤ 400)
    (hlow : -400 ≤ d.exponent + (digitsOf d.digits).length) (negative : Bool) :
    ofDecimal negative d = ofRatio negative d.numerator d.denominator := by
  rw [ofDecimal, if_neg hdigits, if_neg (by omega), if_neg (by omega)]
  obtain ⟨D, e⟩ := d
  split
  · rename_i hpos
    obtain ⟨k, rfl⟩ := Int.eq_ofNat_of_zero_le hpos
    rw [Decimal.numerator_natCast, Decimal.denominator_natCast, Int.toNat_natCast]
  · rename_i hneg
    simp only at hneg
    rw [Decimal.numerator, Decimal.denominator, show e.toNat = 0 by omega, show Nat.pow 10 0 = 1 from rfl,
      Nat.mul_one]

/-! ## The grid with a number of digits -/

theorem length_digitsOf_le_iff {n k : Nat} (hk : 0 < k) : (digitsOf n).length ≤ k ↔ n < Nat.pow 10 k :=
  Nat.length_toDigits_le_iff (by decide) hk

theorem pow_length_digitsOf_le {n k : Nat} (hn : 0 < n) (hk : (digitsOf n).length = k + 1) :
    Nat.pow 10 k ≤ n := by
  rcases Nat.eq_zero_or_pos k with rfl | hpos
  · exact hn
  · refine Nat.not_lt.mp fun hlt => ?_
    have := (length_digitsOf_le_iff hpos).mpr hlt
    omega

theorem exists_length_digitsOf (n : Nat) : ∃ k, (digitsOf n).length = k + 1 :=
  Nat.exists_eq_succ_of_ne_zero (Nat.ne_of_gt Nat.length_toDigits_pos)

/-- A positive number of units reaches the power of ten that its point position announces; below one
the power is negative. -/
theorem pointPosition_cases (hunits : 0 < units) :
    (∃ k : Nat, pointPosition units = k + 1 ∧ oneUnits * Nat.pow 10 k ≤ units) ∨
      ∃ k : Nat, pointPosition units = 1 - k ∧ oneUnits ≤ units * Nat.pow 10 k := by
  have hone := oneUnits_pos
  unfold pointPosition
  generalize oneUnits = one at *
  simp only
  split
  · rename_i hle
    obtain ⟨k, hk⟩ := exists_length_digitsOf (units / one)
    refine Or.inl ⟨k, by omega, ?_⟩
    rw [Nat.mul_comm, ← Nat.le_div_iff_mul_le hone]
    exact pow_length_digitsOf_le (Nat.div_pos hle hone) hk
  · refine Or.inr ⟨_, rfl, ?_⟩
    -- the reciprocal rounded up is at most the power of ten
    have hceiling := (length_digitsOf_le_iff Nat.length_toDigits_pos).mp
      (Nat.le_refl (digitsOf ((one + units - 1) / units - 1)).length)
    have hdiv := Nat.div_add_mod (one + units - 1) units
    have hmod := Nat.mod_lt (one + units - 1) hunits
    calc one ≤ units * ((one + units - 1) / units) := by omega
      _ ≤ units * Nat.pow 10 (digitsOf ((one + units - 1) / units - 1)).length :=
        Nat.mul_le_mul_left _ (Nat.le_of_pred_lt hceiling)

/-- A point of a grid with `k + 1` digits is at most a `10^k`-th of the double. -/
theorem grid_mul_le (hunits : 0 < units) (k : Nat) :
    oneUnits * Nat.pow 10 (pointPosition units - (k + 1 : Nat)).toNat * Nat.pow 10 k ≤
      units * Nat.pow 10 (-(pointPosition units - (k + 1 : Nat))).toNat := by
  rcases pointPosition_cases hunits with ⟨j, hpoint, hle⟩ | ⟨j, hpoint, hle⟩
  · rw [hpoint]
    rcases Nat.le_total k j with hkj | hjk
    · obtain ⟨i, rfl⟩ := Nat.exists_eq_add_of_le' hkj
      rw [show (((i + k : Nat) : Int) + 1 - (k + 1 : Nat)).toNat = i by omega,
        show (-(((i + k : Nat) : Int) + 1 - (k + 1 : Nat))).toNat = 0 by omega]
      simpa only [Nat.pow_eq, Nat.pow_add, Nat.mul_assoc, Nat.pow_zero, Nat.mul_one] using hle
    · obtain ⟨i, rfl⟩ := Nat.exists_eq_add_of_le hjk
      rw [show ((j : Int) + 1 - (j + i + 1 : Nat)).toNat = 0 by omega,
        show (-((j : Int) + 1 - (j + i + 1 : Nat))).toNat = i by omega]
      have := Nat.mul_le_mul_right (Nat.pow 10 i) hle
      simpa only [Nat.pow_eq, Nat.pow_add, Nat.mul_assoc, Nat.pow_zero, Nat.one_mul] using this
  · rw [hpoint, show ((1 : Int) - j - (k + 1 : Nat)).toNat = 0 by omega,
      show (-((1 : Int) - j - (k + 1 : Nat))).toNat = j + k by omega]
    have := Nat.mul_le_mul_right (Nat.pow 10 k) hle
    simpa only [Nat.pow_eq, Nat.pow_add, Nat.mul_assoc, Nat.pow_zero, Nat.one_mul] using this

/-- The last point that is not above the double, on the grid with `count` digits. -/
def below (rank count : Nat) : Decimal :=
  let exponent := pointPosition (unitsOfRank rank) - count
  ⟨unitsOfRank rank * Nat.pow 10 (-exponent).toNat / (oneUnits * Nat.pow 10 exponent.toNat), exponent⟩

/-- The answer of a grid: one of the two neighbours of the double, if one reads back. -/
theorem withDigits?_cases (rank count : Nat) :
    (∃ d, withDigits? rank count = some d ∧ (d = below rank count ∨ d = (below rank count).next) ∧
        Surrounds rank d.numerator d.denominator) ∨
      withDigits? rank count = none ∧
        ¬ Surrounds rank (below rank count).numerator (below rank count).denominator ∧
        ¬ Surrounds rank (below rank count).next.numerator (below rank count).next.denominator := by
  -- the test of the search is whether the midpoints surround the point
  have htest : ∀ c grid scale : Nat, (if rank % 2 = 0 then
        decide ((unitsOfRank (rank - 1) + unitsOfRank rank) * scale ≤ 2 * c * grid) &&
          decide (2 * c * grid ≤ (unitsOfRank rank + unitsOfRank (rank + 1)) * scale)
      else decide ((unitsOfRank (rank - 1) + unitsOfRank rank) * scale < 2 * c * grid) &&
          decide (2 * c * grid < (unitsOfRank rank + unitsOfRank (rank + 1)) * scale)) = true ↔
      Surrounds rank (c * grid) scale := by
    intro c grid scale
    rw [Surrounds, ← Nat.mul_assoc]
    split <;> simp only [Bool.and_eq_true, decide_eq_true_eq]
  simp only [withDigits?]
  split
  · rename_i hlow hhigh
    rw [htest] at hlow hhigh
    refine Or.inl ?_
    split
    · exact ⟨_, rfl, Or.inl rfl, hlow⟩
    · exact ⟨_, rfl, Or.inr rfl, hhigh⟩
  · rename_i hlow hhigh
    rw [htest] at hlow
    exact Or.inl ⟨_, rfl, Or.inl rfl, hlow⟩
  · rename_i hlow hhigh
    rw [htest] at hhigh
    exact Or.inl ⟨_, rfl, Or.inr rfl, hhigh⟩
  · rename_i hlow hhigh
    rw [← Bool.not_eq_true, htest] at hlow hhigh
    exact Or.inr ⟨rfl, hlow, hhigh⟩

/-- **A fine grid has a point that reads back**: where the points are at most a `10^16`-th of the double
apart, one of its two neighbours lies between the midpoints. -/
theorem Surrounds.of_fine_grid {grid scale : Nat} (hrank : 0 < rank) (hgrid : 0 < grid)
    (hscale : 0 < scale) (hfine : grid * Nat.pow 10 16 ≤ unitsOfRank rank * scale) :
    Surrounds rank (unitsOfRank rank * scale / grid * grid) scale ∨
      Surrounds rank ((unitsOfRank rank * scale / grid + 1) * grid) scale := by
  have hbefore : unitsOfRank (rank - 1) < unitsOfRank rank := unitsOfRank_strictMono (by omega)
  have hafter := unitsOfRank_lt_succ rank
  have hmul := Nat.mul_lt_mul_of_pos_right hbefore hscale
  have hmul' := Nat.mul_lt_mul_of_pos_right hafter hscale
  have hdiv := Nat.div_add_mod (unitsOfRank rank * scale) grid
  have hmod := Nat.mod_lt (unitsOfRank rank * scale) hgrid
  rw [Nat.mul_comm] at hdiv
  by_contra hneither
  rw [not_or] at hneither
  -- both neighbours lie outside, so the grid is coarser than the distance of the midpoints
  have hlow : 2 * (unitsOfRank rank * scale / grid * grid) ≤
      (unitsOfRank (rank - 1) + unitsOfRank rank) * scale :=
    Nat.not_lt.mp fun h => hneither.1 (Surrounds.of_lt h (by rw [Nat.add_mul]; omega))
  have hhigh : (unitsOfRank rank + unitsOfRank (rank + 1)) * scale ≤
      2 * ((unitsOfRank rank * scale / grid + 1) * grid) :=
    Nat.not_lt.mp fun h => hneither.2 (Surrounds.of_lt (by rw [Nat.add_mul, Nat.add_mul]; omega) h)
  have hcoarse : (unitsOfRank (rank + 1) - unitsOfRank (rank - 1)) * scale ≤ 2 * grid := by
    rw [Nat.sub_mul]
    rw [Nat.add_mul] at hlow hhigh
    rw [Nat.add_mul] at hhigh
    omega
  -- but the two gaps around a double are not that small
  have hratio : (unitsOfRank (rank + 1) - unitsOfRank (rank - 1)) * Nat.pow 10 16 ≤
      2 * unitsOfRank rank := by
    refine Nat.le_of_mul_le_mul_right ?_ hscale
    calc (unitsOfRank (rank + 1) - unitsOfRank (rank - 1)) * Nat.pow 10 16 * scale
        = (unitsOfRank (rank + 1) - unitsOfRank (rank - 1)) * scale * Nat.pow 10 16 :=
          Nat.mul_right_comm _ _ _
      _ ≤ 2 * grid * Nat.pow 10 16 := Nat.mul_le_mul_right _ hcoarse
      _ = 2 * (grid * Nat.pow 10 16) := Nat.mul_assoc _ _ _
      _ ≤ 2 * (unitsOfRank rank * scale) := Nat.mul_le_mul_left _ hfine
      _ = 2 * unitsOfRank rank * scale := (Nat.mul_assoc _ _ _).symm
  have hgap := unitsOfRank_le_gap (rank - 1)
  have hgap' := unitsOfRank_le_gap rank
  rw [Nat.sub_add_cancel hrank] at hgap
  rw [show Nat.pow 10 16 = 10000000000000000 by decide] at hratio
  unfold binadeSize at hgap hgap'
  omega

/-- **Seventeen digits suffice.** -/
theorem withDigits?_seventeen (hrank : 0 < rank) : withDigits? rank 17 ≠ none := by
  have hunits : 0 < unitsOfRank rank := Nat.pos_of_ne_zero (mt unitsOfRank_eq_zero.mp (by omega))
  intro hnone
  rcases withDigits?_cases rank 17 with ⟨d, hd, -⟩ | ⟨-, hbelow, hnext⟩
  · rw [hnone] at hd
    cases hd
  · rcases Surrounds.of_fine_grid hrank (Nat.mul_pos oneUnits_pos (Decimal.pow_ten_pos _))
      (Decimal.pow_ten_pos _) (grid_mul_le hunits 16) with hread | hread
    · exact hbelow hread
    · exact hnext hread

/-! ## The search -/

/-- **The shortest decimal comes from the first grid with an answer**, its trailing zeros dropped. -/
theorem exists_first_grid (hrank : 0 < rank) : ∃ k d, withDigits? rank (k + 1) = some d ∧
    (∀ j < k, withDigits? rank (j + 1) = none) ∧ shortest rank = d.strip 20 := by
  unfold shortest
  split
  · rename_i d hd
    obtain ⟨before, k, after, hrange, hk, hnone⟩ := List.findSome?_eq_some_iff.mp hd
    refine ⟨k, d, hk, fun j hj => hnone j ?_, rfl⟩
    -- the numbers behind `k` in the range are greater
    have hsorted : (before ++ k :: after).Pairwise (· < ·) := hrange ▸ List.pairwise_lt_range
    have hbehind := (List.pairwise_cons.mp (List.pairwise_append.mp hsorted).2.1).1
    have hk17 : k < 17 := List.mem_range.mp (by rw [hrange]; simp)
    have hj17 : j ∈ before ++ k :: after := hrange ▸ List.mem_range.mpr (by omega)
    rcases List.mem_append.mp hj17 with hmem | hmem
    · exact hmem
    · rcases List.mem_cons.mp hmem with rfl | hmem
      · omega
      · have := hbehind j hmem
        omega
  · rename_i hnone
    rw [List.findSome?_eq_none_iff] at hnone
    exact absurd (hnone 16 (by decide)) (withDigits?_seventeen hrank)

/-- **The shortest decimal reads back as the double.** -/
theorem shortest_surrounds (hrank : 0 < rank) :
    Surrounds rank (shortest rank).numerator (shortest rank).denominator := by
  obtain ⟨k, d, hd, -, hshortest⟩ := exists_first_grid hrank
  rw [hshortest, Decimal.surrounds_strip]
  rcases withDigits?_cases rank (k + 1) with ⟨d', hd', -, hread⟩ | ⟨hnone, -⟩
  · rw [hd] at hd'
    cases hd'
    exact hread
  · rw [hd] at hnone
    cases hnone

end Double

end Descramble

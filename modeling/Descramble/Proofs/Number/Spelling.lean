import Descramble.Proofs.Number.Exact
import Descramble.Proofs.Value.BasicPlane

/-!
# The length of a number's text

A number is written with the digits of its double, an exponent and at most a few zeros.  The bounds
here are generous: what is needed of them is that the text of a number is far below the length that
static evaluation lets a text have.

* `Double.shortest_bounds` — the digits and the exponent of the shortest decimal.
* `Decimal.length_layout_le` — the length of a decimal written out.
* `Number.length_text_le` — no number has a text longer than the limit.
-/

set_option autoImplicit false

namespace Descramble

theorem length_digitsOf_le {n k : Nat} (hk : 0 < k) (h : n < Nat.pow 10 k) :
    (digitsOf n).length ≤ k :=
  (Nat.length_toDigits_le_iff (by decide) hk).mpr h

theorem length_digitsOf_le_succ (n : Nat) : (digitsOf n).length ≤ n + 1 :=
  length_digitsOf_le n.succ_pos
    (Nat.lt_trans n.lt_succ_self (Nat.lt_pow_self (by decide : 1 < 10)))

/-- A number with few binary digits has few decimal ones. -/
theorem length_digitsOf_le_of_lt_two_pow {n k : Nat} (hk : 0 < k) (h : n < Nat.pow 2 k) :
    (digitsOf n).length ≤ k :=
  length_digitsOf_le hk (Nat.lt_of_lt_of_le h (Nat.pow_le_pow_left (by decide) k))

namespace Double

/-- The number of binary digits that the units of a double can have. -/
def unitDigits : Nat := 2098

-- for any exponents, lest the powers be computed
theorem pow_le_pow {base j k : Nat} (hbase : 0 < base) (h : j ≤ k) :
    Nat.pow base j ≤ Nat.pow base k :=
  Nat.pow_le_pow_right hbase h

theorem pow_lt_pow {base j k : Nat} (hbase : 1 < base) (h : j < k) :
    Nat.pow base j < Nat.pow base k :=
  Nat.pow_lt_pow_right hbase h

theorem unitsOfRank_lt {rank : Nat} (h : rank < rankBound) :
    unitsOfRank rank < Nat.pow 2 unitDigits := by
  unfold unitsOfRank
  split
  · rename_i hlow
    exact Nat.lt_of_lt_of_le (show rank < Nat.pow 2 52 from hlow) (pow_le_pow (by decide) (by decide))
  · have hdiv : rank / binadeSize ≤ 2046 := by
      have := (Nat.div_lt_iff_lt_mul (by decide : 0 < binadeSize)).mpr h
      omega
    have hsum : binadeSize + rank % binadeSize < 2 ^ 53 := by
      have := Nat.mod_lt rank (by decide : 0 < binadeSize)
      have hpow : 2 ^ 53 = binadeSize + binadeSize := by decide
      omega
    calc (binadeSize + rank % binadeSize) * Nat.pow 2 (rank / binadeSize - 1)
        < 2 ^ 53 * 2 ^ (rank / binadeSize - 1) :=
          Nat.mul_lt_mul_of_pos_right hsum (two_pow_pos _)
      _ = Nat.pow 2 (53 + (rank / binadeSize - 1)) := (Nat.pow_add _ _ _).symm
      _ ≤ Nat.pow 2 unitDigits := pow_le_pow (by decide) (by unfold unitDigits; omega)

theorem natAbs_pointPosition_le {units : Nat} (h : units < Nat.pow 2 unitDigits) :
    (pointPosition units).natAbs ≤ unitDigits := by
  have hone : oneUnits < Nat.pow 2 unitDigits := by
    apply pow_lt_pow <;> decide
  unfold pointPosition
  generalize oneUnits = one at *
  simp only
  split
  · have := length_digitsOf_le_of_lt_two_pow (by decide)
      (Nat.lt_of_le_of_lt (Nat.div_le_self units one) h)
    omega
  · -- the ceiling of the reciprocal is not above the number of units in one
    have hceiling : (one + units - 1) / units - 1 < Nat.pow 2 unitDigits := by
      refine Nat.lt_of_le_of_lt ?_ hone
      rcases Nat.eq_zero_or_pos units with rfl | hpos
      · simp
      · have := Nat.div_le_of_le_mul (m := one + units - 1) (k := units) (n := one + 1)
          (by rw [Nat.mul_add, Nat.mul_one]; have := Nat.le_mul_of_pos_left one hpos; omega)
        omega
    have := length_digitsOf_le_of_lt_two_pow (by decide) hceiling
    have hpos : 0 < (digitsOf ((one + units - 1) / units - 1)).length :=
      Nat.length_toDigits_pos
    omega

theorem div_succ_le {n k grid : Nat} (h : n < Nat.pow 2 unitDigits) :
    n * Nat.pow 10 k / grid + 1 ≤ Nat.pow 10 (unitDigits + k) := by
  generalize unitDigits = m at *
  have hn : n < Nat.pow 10 m := Nat.lt_of_lt_of_le h (Nat.pow_le_pow_left (by decide) m)
  calc n * Nat.pow 10 k / grid + 1 ≤ n * Nat.pow 10 k + 1 :=
        Nat.succ_le_succ (Nat.div_le_self _ _)
    _ ≤ Nat.pow 10 m * Nat.pow 10 k := Nat.mul_lt_mul_of_pos_right hn (Nat.pow_pos (by decide))
    _ = Nat.pow 10 (m + k) := (Nat.pow_add _ _ _).symm

/-- The digits of a decimal that reads back as a double are those of its units, scaled. -/
theorem withDigits?_bounds {rank count : Nat} {d : Decimal} (hrank : rank < rankBound)
    (h : withDigits? rank count = some d) :
    d.digits ≤ Nat.pow 10 (unitDigits + (unitDigits + count)) ∧
      d.exponent.natAbs ≤ unitDigits + count := by
  have hunits := unitsOfRank_lt hrank
  have hpoint := natAbs_pointPosition_le hunits
  have hexponent : (pointPosition (unitsOfRank rank) - count).natAbs ≤ unitDigits + count := by omega
  have hdigits : ∀ grid, unitsOfRank rank *
      Nat.pow 10 (-(pointPosition (unitsOfRank rank) - count)).toNat / grid + 1 ≤
        Nat.pow 10 (unitDigits + (unitDigits + count)) :=
    fun grid => Nat.le_trans (div_succ_le hunits) (pow_le_pow (by decide) (by omega))
  simp only [withDigits?] at h
  generalize pointPosition (unitsOfRank rank) - count = exponent at *
  generalize oneUnits * Nat.pow 10 exponent.toNat = grid at *
  have hlow := hdigits grid
  generalize unitsOfRank rank * Nat.pow 10 (-exponent).toNat / grid = low at *
  split at h
  · split at h <;> cases h
    · exact ⟨Nat.le_of_succ_le hlow, hexponent⟩
    · exact ⟨hlow, hexponent⟩
  · cases h
    exact ⟨Nat.le_of_succ_le hlow, hexponent⟩
  · cases h
    exact ⟨hlow, hexponent⟩
  · cases h

end Double

/-- Dropping zeros moves the exponent by their number. -/
theorem Decimal.strip_bounds : ∀ (fuel : Nat) (d : Decimal),
    (d.strip fuel).digits ≤ d.digits ∧ (d.strip fuel).exponent.natAbs ≤ d.exponent.natAbs + fuel
  | 0, d => ⟨Nat.le_refl _, Nat.le_refl _⟩
  | fuel + 1, d => by
      rw [Decimal.strip]
      split
      · obtain ⟨hdigits, hexponent⟩ := Decimal.strip_bounds fuel ⟨d.digits / 10, d.exponent + 1⟩
        refine ⟨Nat.le_trans hdigits (Nat.div_le_self _ _), ?_⟩
        simp only at hexponent
        omega
      · exact ⟨Nat.le_refl _, by omega⟩

/-- **The shortest decimal of a double has a moderate number of digits and a moderate exponent.** -/
theorem Double.shortest_bounds {rank : Nat} (hrank : rank < rankBound) :
    (digitsOf (shortest rank).digits).length ≤ 2 * unitDigits + 18 ∧
      (shortest rank).exponent.natAbs ≤ unitDigits + 37 := by
  unfold shortest
  split
  · rename_i d hd
    obtain ⟨k, hk, hd⟩ := List.exists_of_findSome?_eq_some hd
    obtain ⟨hdigits, hexponent⟩ := withDigits?_bounds hrank hd
    obtain ⟨hdigits', hexponent'⟩ := Decimal.strip_bounds 20 d
    have hk : k < 17 := List.mem_range.mp hk
    refine ⟨length_digitsOf_le (by omega) ?_, by omega⟩
    calc (d.strip 20).digits ≤ Nat.pow 10 (unitDigits + (unitDigits + (k + 1))) :=
          Nat.le_trans hdigits' hdigits
      _ < Nat.pow 10 (2 * unitDigits + 18) := pow_lt_pow (by decide) (by omega)
  · exact ⟨Nat.le_trans (length_digitsOf_le_succ 0) (by omega), by simp⟩

/-! ## Decimals written out -/

namespace Decimal

theorem length_positional_le (keepPoint : Bool) (d : Decimal) :
    (d.positional keepPoint).length ≤ 2 * ((digitsOf d.digits).length + d.exponent.natAbs) + 2 := by
  simp only [positional]
  split
  · simp only [List.length_cons, List.length_append, List.length_replicate]
    omega
  · split
    · have : (if keepPoint = true then ['.', '0'] else []).length ≤ 2 := by split <;> decide
      simp only [List.length_append, List.length_replicate]
      omega
    · simp only [List.length_cons, List.length_append, List.length_take, List.length_drop]
      omega

theorem length_scientific_le (exponentDigits : Nat) (d : Decimal) :
    (d.scientific exponentDigits).length ≤
      2 * ((digitsOf d.digits).length + d.exponent.natAbs) + 5 + exponentDigits := by
  unfold scientific
  have hpower := length_digitsOf_le_succ
    ((digitsOf d.digits).length + d.exponent - 1 : Int).natAbs
  generalize digitsOf d.digits = digits at *
  simp only [List.length_cons, List.length_append, List.length_replicate]
  -- no digits, one, or one before the point
  split <;> simp only [List.length_cons, List.length_nil] at * <;> omega

theorem length_layout_le (style : DecimalStyle) (d : Decimal) :
    (d.layout style).length ≤
      2 * ((digitsOf d.digits).length + d.exponent.natAbs) + 5 + style.exponentDigits := by
  simp only [layout]
  split
  · exact Nat.le_trans (length_positional_le _ d) (by omega)
  · exact length_scientific_le _ d

end Decimal

/-! ## Numbers -/

theorem length_intText_le {n : Int} (h : Number.isSafe n = true) : (intText n).length ≤ 54 := by
  have hdigits : (digitsOf n.natAbs).length ≤ 53 :=
    length_digitsOf_le_of_lt_two_pow (by decide) (Number.isSafe_iff.mp h)
  unfold intText
  split <;> simp only [String.length_ofList, List.length_cons] <;> omega

namespace Number

theorem length_longText_lt {rank : Nat} (h : rank < Double.rankBound) :
    (longText rank).length < maxTextLength := by
  obtain ⟨hdigits, hexponent⟩ := Double.shortest_bounds h
  have hlayout : ∀ style : DecimalStyle, style.exponentDigits ≤ 2 →
      ((Double.shortest rank).layout style).length < maxTextLength := by
    intro style hstyle
    have := Decimal.length_layout_le style (Double.shortest rank)
    simp only [Double.unitDigits, maxTextLength] at *
    omega
  simp only [longText]
  split
  · exact hlayout _ (by decide)
  · exact hlayout _ (by decide)

theorem length_doubleText_le (d : Double) : (doubleText d).length ≤ maxTextLength := by
  cases d with
  | nan => decide
  | infinite negative => cases negative <;> decide
  | finite negative rank =>
      rw [doubleText]
      split
      · rename_i n hn
        exact Nat.le_trans (length_intText_le (ofDouble_eq_int hn).2.2.1) (by decide)
      · split
        · decide
        · have hlong := length_longText_lt rank.isLt
          rw [String.length_ofList]
          split
          · exact hlong
          · exact Nat.le_of_lt hlong

/-- **No number has a text longer than the limit.** -/
theorem length_text_le (n : Number) : Ensures (fun s => s.length ≤ maxTextLength) n.text := by
  cases n with
  | float d => exact Ensures.ok (length_doubleText_le d)
  | int i =>
      rw [text]
      split
      · rename_i hsafe
        exact Ensures.ok (Nat.le_trans (length_intText_le hsafe) (by decide))
      · exact Ensures.andThen fun d => Ensures.ok (length_doubleText_le d)

end Number

end Descramble

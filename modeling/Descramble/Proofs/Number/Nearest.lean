import Mathlib.Order.Monotone.Basic
import Descramble.Proofs.Number.Exact

/-!
# Rounding by midpoints

A ratio of units is rounded to the rank that it surrounds: the ratio lies between the midpoints to the
two neighbours of the rank, and a midpoint itself belongs to the even rank.

* `Double.exists_significand` — a rank is a significand in a binade.
* `Double.unitsOfRank_strictMono` — the units grow with the rank.
* `Double.unitsOfRank_le_gap` — a gap between neighbours is at least a `2^53`-th of what it leads to.
* `Double.Surrounds` — the ratio lies between the midpoints around the rank.
* `Double.nearestRank_eq_iff` — a ratio is rounded to a rank exactly if the midpoints surround it.
-/

set_option autoImplicit false

namespace Descramble.Double

/-! ## Neighbouring ranks -/

/-- A rank is a significand in a binade; only the first binade has small significands. -/
theorem exists_significand (rank : Nat) : ∃ m e, rank = m + e * binadeSize ∧ m < 2 * binadeSize ∧
    (e = 0 ∨ binadeSize ≤ m) := by
  by_cases hlow : rank < binadeSize
  · exact ⟨rank, 0, by omega, by omega, Or.inl rfl⟩
  · have hdiv := Nat.div_add_mod rank binadeSize
    have hmod := Nat.mod_lt rank (show 0 < binadeSize by decide)
    obtain ⟨q, hq⟩ : ∃ q, rank / binadeSize = q + 1 := by
      refine ⟨rank / binadeSize - 1, ?_⟩
      have : 1 ≤ rank / binadeSize := (Nat.le_div_iff_mul_le (by decide)).mpr (by omega)
      omega
    rw [hq, Nat.mul_add, Nat.mul_one, Nat.mul_comm] at hdiv
    exact ⟨binadeSize + rank % binadeSize, q, by omega, by omega, Or.inr (Nat.le_add_right _ _)⟩

variable {m e rank num den : Nat}

/-- The units of a significand in a binade; the significand past the last one begins the next binade. -/
theorem unitsOfRank_binade (hm : m ≤ 2 * binadeSize) (he : e = 0 ∨ binadeSize ≤ m) :
    unitsOfRank (m + e * binadeSize) = m * Nat.pow 2 e := by
  rcases Nat.lt_or_eq_of_le hm with hlt | rfl
  · by_cases hlow : binadeSize ≤ m
    · exact unitsOfRank_mul_pow hlow hlt
    · obtain rfl : e = 0 := by omega
      rw [Nat.zero_mul, Nat.add_zero, unitsOfRank_of_lt (by omega), Nat.pow_eq, Nat.pow_zero, Nat.mul_one]
  · have hnext : 2 * binadeSize + e * binadeSize = binadeSize + (e + 1) * binadeSize := by
      rw [Nat.add_mul]
      omega
    rw [hnext, unitsOfRank_mul_pow (Nat.le_refl _) (by decide), Nat.pow_eq, Nat.pow_succ, Nat.pow_eq,
      Nat.mul_comm (2 ^ e), ← Nat.mul_assoc, Nat.mul_comm binadeSize]

/-- The next rank is one significand further. -/
theorem unitsOfRank_binade_succ (hm : m < 2 * binadeSize) (he : e = 0 ∨ binadeSize ≤ m) :
    unitsOfRank (m + e * binadeSize + 1) = m * Nat.pow 2 e + Nat.pow 2 e := by
  rw [Nat.add_right_comm, unitsOfRank_binade hm (by omega), Nat.succ_mul]

theorem unitsOfRank_lt_succ (rank : Nat) : unitsOfRank rank < unitsOfRank (rank + 1) := by
  obtain ⟨m, e, rfl, hm, he⟩ := exists_significand rank
  rw [unitsOfRank_binade_succ hm he, unitsOfRank_binade (Nat.le_of_lt hm) he]
  exact Nat.lt_add_of_pos_right (two_pow_pos e)

/-- **The units grow with the rank.** -/
theorem unitsOfRank_strictMono : StrictMono unitsOfRank := strictMono_nat_of_lt_succ unitsOfRank_lt_succ

/-- **A gap is not too small**: at least a `2^53`-th of the units that it leads to. -/
theorem unitsOfRank_le_gap (rank : Nat) :
    unitsOfRank (rank + 1) ≤ 2 * binadeSize * (unitsOfRank (rank + 1) - unitsOfRank rank) := by
  obtain ⟨m, e, rfl, hm, he⟩ := exists_significand rank
  rw [unitsOfRank_binade_succ hm he, unitsOfRank_binade (Nat.le_of_lt hm) he, Nat.add_sub_cancel_left,
    ← Nat.succ_mul]
  exact Nat.mul_le_mul_right _ hm

/-- A higher binade multiplies the units by a power of two. -/
theorem unitsOfRank_add_binades (h : binadeSize ≤ rank) (e : Nat) :
    unitsOfRank (rank + e * binadeSize) = unitsOfRank rank * Nat.pow 2 e := by
  obtain ⟨m, e', rfl, hm, he⟩ := exists_significand rank
  have hlow : binadeSize ≤ m := by
    rcases he with rfl | he
    · omega
    · exact he
  rw [Nat.add_assoc, ← Nat.add_mul, unitsOfRank_mul_pow hlow hm, unitsOfRank_mul_pow hlow hm]
  simp only [Nat.pow_eq, Nat.pow_add, Nat.mul_assoc]

/-! ## Midpoints -/

/-- The ratio `num / den` lies between the midpoints to the neighbours of the rank; the midpoints
themselves belong to an even rank. -/
def Surrounds (rank num den : Nat) : Prop :=
  if rank % 2 = 0 then
    (unitsOfRank (rank - 1) + unitsOfRank rank) * den ≤ 2 * num ∧
      2 * num ≤ (unitsOfRank rank + unitsOfRank (rank + 1)) * den
  else
    (unitsOfRank (rank - 1) + unitsOfRank rank) * den < 2 * num ∧
      2 * num < (unitsOfRank rank + unitsOfRank (rank + 1)) * den

theorem Surrounds.bounds (h : Surrounds rank num den) :
    (unitsOfRank (rank - 1) + unitsOfRank rank) * den ≤ 2 * num ∧
      2 * num ≤ (unitsOfRank rank + unitsOfRank (rank + 1)) * den := by
  unfold Surrounds at h
  split at h
  · exact h
  · exact ⟨Nat.le_of_lt h.1, Nat.le_of_lt h.2⟩

/-- Strictly between the midpoints the parity of the rank does not count. -/
theorem Surrounds.of_lt (hlow : (unitsOfRank (rank - 1) + unitsOfRank rank) * den < 2 * num)
    (hhigh : 2 * num < (unitsOfRank rank + unitsOfRank (rank + 1)) * den) : Surrounds rank num den := by
  unfold Surrounds
  split
  · exact ⟨Nat.le_of_lt hlow, Nat.le_of_lt hhigh⟩
  · exact ⟨hlow, hhigh⟩

/-- A common factor of the two parts of a ratio does not count. -/
theorem surrounds_mul_left {k : Nat} (hk : 0 < k) :
    Surrounds rank (k * num) (k * den) ↔ Surrounds rank num den := by
  simp only [Surrounds, Nat.mul_left_comm _ k, Nat.mul_le_mul_left_iff hk, Nat.mul_lt_mul_left hk]

/-- What the midpoints of one rank surround, those of a higher rank do not. -/
theorem Surrounds.not_of_lt {a b : Nat} (hden : 0 < den) (hlt : a < b) (ha : Surrounds a num den) :
    ¬ Surrounds b num den := by
  intro hb
  have hmid : unitsOfRank (b - 1) + unitsOfRank b ≤ unitsOfRank a + unitsOfRank (a + 1) :=
    Nat.le_of_mul_le_mul_right (Nat.le_trans hb.bounds.1 ha.bounds.2) hden
  have hpred : unitsOfRank a ≤ unitsOfRank (b - 1) := unitsOfRank_strictMono.monotone (by omega)
  -- so the two ranks are neighbours, and their common midpoint cannot belong to both
  have hnext : b = a + 1 := by
    by_contra hne
    have : unitsOfRank (a + 1) < unitsOfRank b := unitsOfRank_strictMono (by omega)
    omega
  subst hnext
  rw [Nat.add_sub_cancel] at hmid
  unfold Surrounds at ha hb
  rw [Nat.add_sub_cancel] at hb
  split at ha <;> split at hb <;> omega

theorem Surrounds.unique {a b : Nat} (hden : 0 < den) (ha : Surrounds a num den)
    (hb : Surrounds b num den) : a = b := by
  rcases Nat.lt_trichotomy a b with hlt | heq | hlt
  · exact absurd hb (ha.not_of_lt hden hlt)
  · exact heq
  · exact absurd ha (hb.not_of_lt hden hlt)

/-- **What rounding does**: the significand is the quotient in a binade, or the next one when the rest
is more than half a gap, or half a gap and the quotient is odd. -/
theorem nearestRank_cases (num : Nat) (hden : 0 < den) : ∃ m e rest, m < 2 * binadeSize ∧
    (e = 0 ∨ binadeSize ≤ m) ∧ num = m * (Nat.pow 2 e * den) + rest ∧ rest < Nat.pow 2 e * den ∧
    nearestRank num den = (if Nat.pow 2 e * den < 2 * rest ∨ 2 * rest = Nat.pow 2 e * den ∧ m % 2 = 1
      then m + 1 else m) + e * binadeSize := by
  have hscale : 0 < Nat.pow 2 ((num / den).log2 - 52) * den := Nat.mul_pos (two_pow_pos _) hden
  have hquotient : num / (Nat.pow 2 ((num / den).log2 - 52) * den) =
      num / den / Nat.pow 2 ((num / den).log2 - 52) := by
    rw [Nat.mul_comm, Nat.div_div_eq_div_mul]
  refine ⟨num / (Nat.pow 2 ((num / den).log2 - 52) * den), (num / den).log2 - 52,
    num % (Nat.pow 2 ((num / den).log2 - 52) * den), ?_, ?_, ?_, Nat.mod_lt _ hscale, ?_⟩
  · rw [hquotient, Nat.div_lt_iff_lt_mul (two_pow_pos _), Nat.pow_eq]
    calc num / den < 2 ^ ((num / den).log2 + 1) := Nat.lt_log2_self
      _ ≤ 2 ^ (53 + ((num / den).log2 - 52)) := Nat.pow_le_pow_right (by decide) (by omega)
      _ = 2 * binadeSize * 2 ^ ((num / den).log2 - 52) := by
        rw [Nat.pow_add, show 2 ^ 53 = 2 * binadeSize by decide]
  · by_cases hlog : (num / den).log2 ≤ 52
    · exact Or.inl (by omega)
    · refine Or.inr ?_
      have hne : num / den ≠ 0 := by
        intro hzero
        rw [hzero] at hlog
        exact hlog (by decide)
      rw [hquotient, Nat.le_div_iff_mul_le (two_pow_pos _), Nat.pow_eq]
      calc binadeSize * 2 ^ ((num / den).log2 - 52) = 2 ^ (52 + ((num / den).log2 - 52)) := by
            rw [Nat.pow_add, show 2 ^ 52 = binadeSize by decide]
        _ = 2 ^ (num / den).log2 := by rw [show 52 + ((num / den).log2 - 52) = (num / den).log2 by omega]
        _ ≤ num / den := Nat.log2_self_le hne
  · rw [Nat.mul_comm]
    exact (Nat.div_add_mod _ _).symm
  · simp only [nearestRank, Nat.mul_comm den, Bool.or_eq_true, Bool.and_eq_true, decide_eq_true_eq,
      beq_iff_eq]
    split <;> rfl

/-- **Rounding surrounds**: the ratio lies between the midpoints of the rank that it is rounded to. -/
theorem surrounds_nearestRank (num : Nat) (hden : 0 < den) :
    Surrounds (nearestRank num den) num den := by
  obtain ⟨m, e, rest, hm, he, hnum, hrest, hrank⟩ := nearestRank_cases num hden
  have hunits : unitsOfRank (m + e * binadeSize) * den = m * (Nat.pow 2 e * den) := by
    rw [unitsOfRank_binade (Nat.le_of_lt hm) he, Nat.mul_assoc]
  have hnext : unitsOfRank (m + e * binadeSize + 1) * den =
      m * (Nat.pow 2 e * den) + Nat.pow 2 e * den := by
    rw [unitsOfRank_binade_succ hm he, Nat.add_mul, Nat.mul_assoc]
  have hodd : (m + e * binadeSize) % 2 = m % 2 := by
    unfold binadeSize
    omega
  have hmono : ∀ {a b : Nat}, a < b → unitsOfRank a * den < unitsOfRank b * den :=
    fun h => Nat.mul_lt_mul_of_pos_right (unitsOfRank_strictMono h) hden
  rw [hrank]
  split
  · -- rounded up: the rank before is the quotient
    rename_i hup
    have hafter := hmono (show m + e * binadeSize + 1 < m + e * binadeSize + 1 + 1 by omega)
    rw [Nat.add_right_comm]
    simp only [Surrounds, Nat.add_sub_cancel, Nat.add_mul, hunits, hnext]
    rw [hnext] at hafter
    split <;> omega
  · -- rounded down: the rank is the quotient
    rename_i hdown
    have hbefore : unitsOfRank (m + e * binadeSize - 1) * den ≤ m * (Nat.pow 2 e * den) :=
      hunits ▸ Nat.mul_le_mul_right den (unitsOfRank_strictMono.monotone (Nat.sub_le _ _))
    have hbefore' : (m + e * binadeSize) % 2 = 1 →
        unitsOfRank (m + e * binadeSize - 1) * den < m * (Nat.pow 2 e * den) :=
      fun h => hunits ▸ hmono (by omega)
    simp only [Surrounds, Nat.add_mul, hunits, hnext]
    split <;> omega

/-- **A ratio is rounded to a rank exactly if the midpoints around the rank surround it.** -/
theorem nearestRank_eq_iff (hden : 0 < den) : nearestRank num den = rank ↔ Surrounds rank num den := by
  constructor
  · rintro rfl
    exact surrounds_nearestRank num hden
  · exact (surrounds_nearestRank num hden).unique hden

end Descramble.Double

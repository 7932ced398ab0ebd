import Mathlib.Data.Nat.Factorization.Basic
import Descramble.Proofs.Number.Nearest
import Descramble.Proofs.Number.PowerLimit

/-!
# Powers of whole doubles

The power of a natural number to an integer has no finite double in two cases: it is a pole, or the
exact power reaches the limit of the doubles.  Neither the cut digits nor the early answers for large
exponents change that.

* `Double.toWide_of_whole` — a positive whole double as a wide number that is natural.
* `Double.isFinite_of_pow?` — a power of finite doubles that exists is finite.
* `Double.powPositive?_eq_none_iff` — the positive exponents that overflow.
* `Double.pow?_eq_none_iff` — the powers of natural numbers that have no finite double.
-/

set_option autoImplicit false

namespace Descramble

namespace Double

variable {n m t q rank : Nat}

/-! ## The lowest binary digit -/

/-- A number and its predecessor differ up to the lowest binary digit that is one. -/
theorem log2_xor_pred (q : Nat) : ∀ t : Nat,
    ((Nat.pow 2 t * (2 * q + 1)) ^^^ (Nat.pow 2 t * (2 * q + 1) - 1)).log2 = t
  | 0 => by
    have hhalf : ((2 * q + 1) ^^^ (2 * q)) / 2 = 0 := by
      rw [Nat.xor_div_two, show (2 * q + 1) / 2 = q by omega, Nat.mul_div_cancel_left q (by decide),
        Nat.xor_self]
    rw [Nat.pow_eq, Nat.pow_zero, Nat.one_mul, Nat.add_sub_cancel, Nat.log2_def, if_neg (by omega)]
  | t + 1 => by
    have ih := log2_xor_pred q t
    have hpos : 0 < Nat.pow 2 t * (2 * q + 1) := Nat.mul_pos (two_pow_pos t) (Nat.succ_pos _)
    have hsucc : Nat.pow 2 (t + 1) * (2 * q + 1) = 2 * (Nat.pow 2 t * (2 * q + 1)) := by
      rw [show Nat.pow 2 (t + 1) = 2 * Nat.pow 2 t from Nat.pow_succ', Nat.mul_assoc]
    rw [hsucc]
    generalize Nat.pow 2 t * (2 * q + 1) = x at ih hpos ⊢
    have hhalf : ((2 * x) ^^^ (2 * x - 1)) / 2 = x ^^^ (x - 1) := by
      rw [Nat.xor_div_two, Nat.mul_div_cancel_left x (by decide), show (2 * x - 1) / 2 = x - 1 by omega]
    have hne : x ^^^ (x - 1) ≠ 0 := by
      intro hzero
      have hpred : x ^^^ (x ^^^ (x - 1)) = x - 1 := by
        rw [← Nat.xor_assoc, Nat.xor_self, Nat.zero_xor]
      rw [hzero, Nat.xor_zero] at hpred
      omega
    rw [Nat.log2_def, if_pos (by omega), hhalf, ih]

theorem toWide_of_unitsOfRank (h : unitsOfRank rank = Nat.pow 2 t * (2 * q + 1)) :
    toWide rank = ⟨2 * q + 1, (t : Int) - 1074⟩ := by
  rw [toWide, h, log2_xor_pred, Nat.shiftRight_eq_div_pow, Nat.pow_eq,
    Nat.mul_div_cancel_left _ (Nat.two_pow_pos t)]

/-- The odd part of the units has 53 digits. -/
theorem odd_part_lt (h : unitsOfRank rank = Nat.pow 2 t * (2 * q + 1)) : 2 * q + 1 < Nat.pow 2 53 := by
  obtain ⟨m, e, rfl, hm, he⟩ := exists_significand rank
  rw [unitsOfRank_binade (Nat.le_of_lt hm) he] at h
  have hdvd : 2 * q + 1 ∣ m * 2 ^ e := Dvd.intro_left (Nat.pow 2 t) h.symm
  have hcoprime : (2 * q + 1).Coprime (2 ^ e) :=
    Nat.Coprime.pow_right e (Nat.coprime_two_right.mpr ⟨q, rfl⟩)
  have hpos : 0 < m := by
    have : 0 < m * Nat.pow 2 e := h ▸ Nat.mul_pos (two_pow_pos t) (Nat.succ_pos _)
    exact Nat.pos_of_mul_pos_right this
  have hle : 2 * q + 1 ≤ m := Nat.le_of_dvd hpos (hcoprime.dvd_of_dvd_mul_right hdvd)
  exact Nat.lt_of_le_of_lt hle hm

/-- **A positive whole double** as a wide number. -/
theorem toWide_of_whole (hn : 0 < n) (h : unitsOfRank rank = n * oneUnits) :
    ∃ w, toWide rank = w ∧ 0 < w.digits ∧ w.digits < Nat.pow 2 53 ∧ 0 ≤ w.exponent ∧ w.value = n := by
  obtain ⟨j, odd, ⟨q, rfl⟩, hodd⟩ := Nat.exists_eq_two_pow_mul_odd (Nat.ne_of_gt hn)
  have hunits : unitsOfRank rank = Nat.pow 2 (1074 + j) * (2 * q + 1) := by
    -- the exponent is named lest the power be computed
    obtain ⟨k, hk⟩ : ∃ k, 1074 = k := ⟨1074, rfl⟩
    simp only [oneUnits, hk] at h ⊢
    rw [h, hodd, Nat.pow_eq, Nat.pow_eq, pow_add]
    ring
  refine ⟨_, toWide_of_unitsOfRank hunits, Nat.succ_pos _, odd_part_lt hunits, ?_, ?_⟩
  · show (0 : Int) ≤ ((1074 + j : Nat) : Int) - 1074
    omega
  · rw [Wide.value, show (((1074 + j : Nat) : Int) - 1074).toNat = j by omega, hodd, Nat.mul_comm]
    rfl

/-! ## Rounding a wide number -/

theorem isFinite_ofRank {negative : Bool} {rank : Nat} :
    (ofRank negative rank).isFinite = true ↔ rank < rankBound := by
  unfold ofRank
  split
  · rename_i h
    exact iff_of_true rfl h
  · rename_i h
    exact iff_of_false (by simp [isFinite]) h

/-- What is at most one is not rounded to infinity. -/
theorem nearestRank_lt_of_le {num den k : Nat} (hden : 0 < den) (hk : k ≤ 1074)
    (h : num ≤ Nat.pow 2 k * den) : nearestRank num den < rankBound := by
  obtain ⟨m, e, rest, hm, he, hnum, -, hrank⟩ := nearestRank_cases num hden
  have hbinade : e ≤ 1074 := by
    rcases he with rfl | hlow
    · exact Nat.zero_le _
    · have hle : Nat.pow 2 e * den ≤ Nat.pow 2 k * den := by
        calc Nat.pow 2 e * den ≤ m * (Nat.pow 2 e * den) :=
              Nat.le_mul_of_pos_left _ (Nat.lt_of_lt_of_le (by decide) hlow)
          _ ≤ num := by rw [hnum]; exact Nat.le_add_right _ _
          _ ≤ Nat.pow 2 k * den := h
      have hpow : Nat.pow 2 e ≤ Nat.pow 2 k := Nat.le_of_mul_le_mul_right hle hden
      exact Nat.le_trans ((Nat.pow_le_pow_iff_right (by decide)).mp hpow) hk
  have hle : nearestRank num den ≤ 2 * binadeSize + e * binadeSize := by
    rw [hrank]
    refine Nat.add_le_add_right ?_ _
    split <;> omega
  calc nearestRank num den ≤ 2 * binadeSize + e * binadeSize := hle
    _ ≤ 2 * binadeSize + 1074 * binadeSize := Nat.add_le_add_left (Nat.mul_le_mul_right _ hbinade) _
    _ < rankBound := by decide

end Double

namespace Wide

open Double

variable {w : Wide} {negative : Bool}

/-- **A natural wide number has a finite double exactly if it is below the limit.** -/
theorem isFinite_toDouble_iff (negative : Bool) (he : 0 ≤ w.exponent) :
    (w.toDouble negative false).isFinite = true ↔ w.value < Number.integerLimit := by
  obtain ⟨e, hexponent⟩ := Int.eq_ofNat_of_zero_le he
  have hup : w.digits * Nat.pow 2 (w.exponent + 1074).toNat = w.value * oneUnits := by
    rw [value, show (w.exponent + 1074).toNat = w.exponent.toNat + 1074 by omega]
    -- the exponent is named lest the power be computed
    obtain ⟨k, hk⟩ : ∃ k, 1074 = k := ⟨1074, rfl⟩
    simp only [oneUnits, hk, Nat.pow_eq, Nat.pow_add, Nat.mul_assoc]
  have hdown : Nat.pow 2 (-(w.exponent + 1074)).toNat = 1 := by
    rw [show (-(w.exponent + 1074)).toNat = 0 by omega]
  simp only [toDouble, Bool.false_eq_true, if_false, hup, hdown]
  rw [ofRatio, isFinite_ofRank, Number.nearestRank_lt_rankBound_iff]

/-- The reciprocal of a positive natural wide number is at most one. -/
theorem isFinite_toDouble_reciprocal (hw : 0 < w.digits) (he : 0 ≤ w.exponent) :
    (w.toDouble negative true).isFinite = true := by
  have hden : 0 < w.digits * Nat.pow 2 (-(1074 - w.exponent)).toNat :=
    Nat.mul_pos hw (two_pow_pos _)
  simp only [toDouble, if_true]
  rw [ofRatio, isFinite_ofRank]
  exact nearestRank_lt_of_le hden (show (1074 - w.exponent).toNat ≤ 1074 by omega)
    (Nat.le_mul_of_pos_right _ hden)

end Wide

namespace Double

variable {n m : Nat} {x y : Fin rankBound} {negative t : Bool} {d : Double}

/-! ## Positive bases -/

/-- Without a fraction no roots are multiplied. -/
theorem fractional_zero (w : Wide) (den : Nat) : ∀ places, w.fractional den places 0 = .one
  | 0 => rfl
  | _ + 1 => if_pos rfl

/-- **A whole power of a positive whole base**: the early answers for a long power, and
otherwise the rounded wide power. -/
theorem powPositive?_whole {w : Wide} (hw : toWide x = w) (he : 0 ≤ w.exponent)
    (hy : unitsOfRank y = m * oneUnits) :
    powPositive? negative x t y =
      if 2000 < w.size * m then (if t then some (signedZero negative) else none)
      else if ((w.wholePower m).toDouble negative t).isFinite then
        some ((w.wholePower m).toDouble negative t)
      else none := by
  have hwhole : unitsOfRank y / oneUnits = m := by rw [hy, Nat.mul_div_cancel _ oneUnits_pos]
  have hfraction : unitsOfRank y % oneUnits = 0 := by rw [hy, Nat.mul_mod_left]
  have hsize : w.exponent + w.digits.log2 = (w.size : Nat) := by
    rw [Wide.size]
    omega
  simp only [powPositive?, hw, hsize, hwhole, hfraction, fractional_zero, Int.natCast_nonneg, if_true,
    Int.natAbs_natCast, decide_true]
  rw [← Wide.wholePower]
  split
  · cases t <;> rfl
  · cases (w.wholePower m).toDouble negative t <;> rfl

/-- The early answer agrees with the power: `size * m` digits and more overflow. -/
theorem integerLimit_le_of_long {size : Nat} (hsize : Nat.pow 2 size ≤ n) (hlong : 2000 < size * m) :
    Number.integerLimit ≤ Nat.pow n m := by
  -- the exponent is named lest the power be computed
  obtain ⟨k, hk, hpow⟩ : ∃ k, 1024 = k ∧ Number.integerLimit ≤ Nat.pow 2 k :=
    ⟨1024, rfl, Number.integerLimit_le_pow⟩
  calc Number.integerLimit ≤ Nat.pow 2 k := hpow
    _ ≤ Nat.pow 2 (size * m) := Nat.pow_le_pow_right (by decide) (by omega)
    _ = Nat.pow (Nat.pow 2 size) m := Nat.pow_mul ..
    _ ≤ Nat.pow n m := Nat.pow_le_pow_left hsize m

theorem isFinite_of_powPositive? (hn : 0 < n) (hx : unitsOfRank x = n * oneUnits)
    (hy : unitsOfRank y = m * oneUnits) (h : powPositive? negative x t y = some d) :
    d.isFinite = true := by
  obtain ⟨w, hw, -, -, he, -⟩ := toWide_of_whole hn hx
  rw [powPositive?_whole hw he hy] at h
  split at h
  · split at h
    · cases h
      rfl
    · cases h
  · split at h
    · rename_i hfinite
      cases h
      exact hfinite
    · cases h

/-- **The exponents that overflow** are positive, and the exact power reaches the limit. -/
theorem powPositive?_eq_none_iff (hn : 2 ≤ n) (hx : unitsOfRank x = n * oneUnits)
    (hy : unitsOfRank y = m * oneUnits) :
    powPositive? negative x t y = none ↔ t = false ∧ Number.integerLimit ≤ Nat.pow n m := by
  obtain ⟨w, hw, hdigits, hbound, he, rfl⟩ := toWide_of_whole (by omega) hx
  rw [powPositive?_whole hw he hy]
  by_cases hlong : 2000 < w.size * m
  · have hlimit := integerLimit_le_of_long (Wide.two_pow_size_le hdigits) hlong
    rw [if_pos hlong]
    cases t with
    | false => exact iff_of_true rfl ⟨rfl, hlimit⟩
    | true => simp
  · have hm : m < Nat.pow 2 11 := by
      have : m ≤ w.size * m := Nat.le_mul_of_pos_left m (Wide.size_pos hn)
      exact Nat.lt_of_le_of_lt (Nat.le_trans this (Nat.not_lt.mp hlong)) (by decide)
    have hpower := Wide.within_wholePower he hm
    rw [if_neg hlong]
    cases t with
    | false =>
      rw [← Wide.integerLimit_le_value_iff hdigits hbound he hm, ← Nat.not_lt,
        ← Wide.isFinite_toDouble_iff negative hpower.exponent_nonneg]
      simp
    | true =>
      have hpos : 0 < (w.wholePower m).digits :=
        hpower.digits_pos (Wide.two_pow_lt_leastLong (by decide)) (Nat.pow_pos (by omega))
      rw [if_pos (Wide.isFinite_toDouble_reciprocal hpos hpower.exponent_nonneg)]
      simp

/-! ## Powers of natural numbers -/

/-- Whole doubles have the same rank exactly if they have the same integral part. -/
theorem val_eq_iff {rank : Nat} (hx : unitsOfRank x = n * oneUnits)
    (hrank : unitsOfRank rank = m * oneUnits) : x.val = rank ↔ n = m := by
  constructor
  · rintro rfl
    exact Nat.eq_of_mul_eq_mul_right oneUnits_pos (hx.symm.trans hrank)
  · rintro rfl
    exact unitsOfRank_inj (hx.trans hrank.symm)

theorem exists_one : ∃ rank : Fin rankBound, one = .finite false rank ∧
    unitsOfRank rank = 1 * oneUnits := by
  obtain ⟨rank, hone, hunits⟩ := exists_ofInt (n := 1) (by decide)
  rw [Int.natAbs_one] at hunits
  exact ⟨rank, hone, hunits⟩

/-- **A whole power of a natural number**: zero and one are told apart first. -/
theorem pow?_whole (hx : unitsOfRank x = n * oneUnits) (hy : unitsOfRank y = m * oneUnits) :
    (finite false x).pow? (.finite t y) =
      if m = 0 ∨ n = 1 then some one
      else if n = 0 then (if t then none else some zero)
      else powPositive? false x t y := by
  obtain ⟨rank, hone, hunits⟩ := exists_one
  have hzero : unitsOfRank 0 = 0 * oneUnits := by
    rw [Nat.zero_mul, unitsOfRank_eq_zero]
  have hfirst : ((finite t y).isZero || (finite false x).eq one) = true ↔ m = 0 ∨ n = 1 := by
    rw [hone]
    simp only [isZero, eq, compareBy, place?, Bool.false_eq_true, if_false, Bool.or_eq_true, beq_iff_eq,
      decide_eq_true_eq, Int.natCast_inj, val_eq_iff hy hzero, val_eq_iff hx hunits]
  have hbits : x.val = one.toBits ↔ n = 1 := by
    rw [hone, toBits, if_neg (by decide), Nat.zero_add, val_eq_iff hx hunits]
  rw [pow?, if_congr hfirst rfl rfl]
  by_cases heasy : m = 0 ∨ n = 1
  · rw [if_pos heasy, if_pos heasy]
  · rw [if_neg heasy, if_neg heasy]
    have hne : ¬ n = 1 := fun h => heasy (Or.inr h)
    simp only [val_eq_iff hx hzero, hbits, hne, Bool.false_and, Bool.false_eq_true, if_false]
    rfl

theorem isFinite_of_pow? (hx : unitsOfRank x = n * oneUnits) (hy : unitsOfRank y = m * oneUnits)
    (h : (finite false x).pow? (.finite t y) = some d) : d.isFinite = true := by
  rw [pow?_whole hx hy] at h
  split at h
  · obtain ⟨rank, hone, -⟩ := exists_one
    rw [hone, Option.some.injEq] at h
    rw [← h]
    rfl
  · split at h
    · split at h
      · cases h
      · cases h
        rfl
    · rename_i hn
      exact isFinite_of_powPositive? (Nat.pos_of_ne_zero hn) hx hy h

/-- **The powers of natural numbers without a finite double** are the poles and the overflows. -/
theorem pow?_eq_none_iff (hx : unitsOfRank x = n * oneUnits) (hy : unitsOfRank y = m * oneUnits) :
    (finite false x).pow? (.finite t y) = none ↔
      n = 0 ∧ m ≠ 0 ∧ t = true ∨ t = false ∧ Number.integerLimit ≤ Nat.pow n m := by
  have hsmall : Nat.pow n m ≤ 1 → ¬ Number.integerLimit ≤ Nat.pow n m := fun hle =>
    Nat.not_le.mpr (Nat.lt_of_le_of_lt hle Number.one_lt_integerLimit)
  rw [pow?_whole hx hy]
  split
  · rename_i heasy
    have hone : Nat.pow n m = 1 := by
      rcases heasy with rfl | rfl
      · exact Nat.pow_zero n
      · exact Nat.one_pow m
    refine iff_of_false (by simp) ?_
    rintro (⟨hn, hm, -⟩ | ⟨-, hle⟩)
    · omega
    · exact hsmall (Nat.le_of_eq hone) hle
  · rename_i hhard
    split
    · rename_i hn
      subst hn
      have hm : m ≠ 0 := fun h => hhard (Or.inl h)
      have hzero : Nat.pow 0 m = 0 := Nat.zero_pow (Nat.pos_of_ne_zero hm)
      cases t with
      | false => simpa [hm] using hsmall (by omega)
      | true => simp [hm]
    · rename_i hn
      rw [powPositive?_eq_none_iff (by omega) hx hy]
      simp [hn]

/-- The same for the sign and the magnitude of an integral exponent. -/
theorem pow?_ofInt_eq_none_iff {e : Int} (hx : unitsOfRank x = n * oneUnits)
    (hy : unitsOfRank y = e.natAbs * oneUnits) :
    (finite false x).pow? (.finite (decide (e < 0)) y) = none ↔
      n = 0 ∧ e < 0 ∨ Number.integerLimit ≤ Nat.pow n e.toNat := by
  rw [pow?_eq_none_iff hx hy]
  by_cases hneg : e < 0
  · -- a negative exponent counts as zero in the power on the right, which is one
    have hone : Nat.pow n e.toNat = 1 := by
      rw [show e.toNat = 0 by omega]
      exact Nat.pow_zero n
    have hlarge : ¬ Number.integerLimit ≤ 1 := Nat.not_le.mpr Number.one_lt_integerLimit
    simp only [hneg, hone, hlarge, decide_true, and_true, reduceCtorEq, false_and, or_false,
      and_iff_left_iff_imp]
    omega
  · simp only [hneg, decide_false, and_false, reduceCtorEq, true_and, false_or,
      show e.natAbs = e.toNat by omega]

end Double

end Descramble

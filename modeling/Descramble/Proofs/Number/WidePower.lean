import Mathlib.Algebra.Order.Ring.Nat
import Mathlib.Tactic.Ring
import Descramble.Double.Power
import Descramble.Proofs.Number.Exact

/-!
# The error of wide powers

A wide number that is too long loses its last digits, so a power by repeated squaring may lie below
the exact one.  A cut loses less than one part in `2 ^ 319`, and the losses of the factors add up.

* `Wide.value` — the natural number that a wide number with no places behind the point is.
* `Wide.Within` — the number lies at most `k` parts in `2 ^ 319` below an exact value.
* `Wide.Within.mul` — one multiplication adds the losses of its factors and one of its own.
* `Wide.within_pow` — a power with an exponent of `bits` digits loses `2 ^ (bits + 1)` parts at most.
* `Wide.within_pow_of_lt` — a power whose digits fit is exact.
-/

set_option autoImplicit false

namespace Descramble.Wide

/-- The natural number that a wide number is when its exponent is not negative. -/
def value (w : Wide) : Nat := w.digits * Nat.pow 2 w.exponent.toNat

/-- The least number of 320 binary digits, `2 ^ 319`. -/
def leastLong : Nat := Nat.pow 2 (precision - 1)

theorem two_pow_lt_two_pow {j k : Nat} (h : j < k) : Nat.pow 2 j < Nat.pow 2 k :=
  Nat.pow_lt_pow_right (by decide) h

theorem two_pow_pow_lt_two_pow {i j k : Nat} (h : i * j < k) :
    Nat.pow (Nat.pow 2 i) j < Nat.pow 2 k := by
  calc Nat.pow (Nat.pow 2 i) j = Nat.pow 2 (i * j) := (Nat.pow_mul ..).symm
    _ < Nat.pow 2 k := two_pow_lt_two_pow h

theorem leastLong_pos : 0 < leastLong := by apply Double.two_pow_pos

theorem two_pow_lt_leastLong {j : Nat} (h : j < precision - 1) : Nat.pow 2 j < leastLong := by
  unfold leastLong
  generalize precision - 1 = k at h ⊢
  exact two_pow_lt_two_pow h

/-- The wide number is natural and lies at most `k` parts in `2 ^ 319` of `n` below `n`. -/
structure Within (k : Nat) (w : Wide) (n : Nat) : Prop where
  exponent_nonneg : 0 ≤ w.exponent
  value_le : w.value ≤ n
  le_value : leastLong * n ≤ leastLong * w.value + k * n

variable {k l m n : Nat} {a b w : Wide}

theorem within_value (h : 0 ≤ w.exponent) : Within 0 w w.value :=
  ⟨h, Nat.le_refl _, Nat.le_add_right _ _⟩

theorem within_one : Within 0 one 1 := within_value (Int.le_refl 0)

theorem Within.mono (h : Within k w n) (hkl : k ≤ l) : Within l w n :=
  ⟨h.exponent_nonneg, h.value_le,
    Nat.le_trans h.le_value (Nat.add_le_add_left (Nat.mul_le_mul_right n hkl) _)⟩

/-- Losses add up. -/
theorem Within.trans (ha : Within k a b.value) (hb : Within l b n) : Within (k + l) a n where
  exponent_nonneg := ha.exponent_nonneg
  value_le := Nat.le_trans ha.value_le hb.value_le
  le_value := by
    calc leastLong * n ≤ leastLong * b.value + l * n := hb.le_value
      _ ≤ leastLong * a.value + k * b.value + l * n := Nat.add_le_add_right ha.le_value _
      _ ≤ leastLong * a.value + k * n + l * n := by
        have := Nat.mul_le_mul_left k hb.value_le
        omega
      _ = leastLong * a.value + (k + l) * n := by rw [Nat.add_mul, Nat.add_assoc]

/-- What is not wholly lost has digits. -/
theorem Within.digits_pos (h : Within k w n) (hk : k < leastLong) (hn : 0 < n) : 0 < w.digits := by
  refine Nat.pos_of_ne_zero fun hzero => ?_
  have hle := h.le_value
  rw [value, hzero, Nat.zero_mul, Nat.mul_zero, Nat.zero_add] at hle
  exact absurd (Nat.le_of_mul_le_mul_right hle hn) (Nat.not_le.mpr hk)

/-- The digits of a natural wide number, those in front of the point included. -/
def size (w : Wide) : Nat := w.exponent.toNat + w.digits.log2

theorem two_pow_size_le (hw : 0 < w.digits) : Nat.pow 2 w.size ≤ w.value := by
  calc Nat.pow 2 w.size = Nat.pow 2 w.exponent.toNat * 2 ^ w.digits.log2 := Nat.pow_add ..
    _ ≤ Nat.pow 2 w.exponent.toNat * w.digits := Nat.mul_le_mul_left _ (Nat.log2_self_le (by omega))
    _ = w.value := Nat.mul_comm ..

/-- A number above one has more than one digit. -/
theorem size_pos (h : 1 < w.value) : 0 < w.size := by
  refine Nat.pos_of_ne_zero fun hzero => ?_
  obtain ⟨hexponent, hlog⟩ : w.exponent.toNat = 0 ∧ w.digits.log2 = 0 := Nat.add_eq_zero_iff.mp hzero
  have hdigits : w.digits < 2 ^ (0 + 1) := hlog ▸ Nat.lt_log2_self
  have hvalue : w.value = w.digits := by
    rw [value, hexponent]
    exact Nat.mul_one _
  omega

/-! ## Cutting -/

/-- What fits is not cut. -/
theorem cut_of_lt (h : w.digits < Nat.pow 2 precision) : w.cut = w := by
  have hfit : w.digits.log2 + 1 - precision = 0 := by
    by_cases hzero : w.digits = 0
    · rw [hzero, Nat.log2_zero]
      rfl
    · -- the precision is generalized lest the power be computed
      generalize precision = places at h ⊢
      have : w.digits.log2 < places := (Nat.log2_lt hzero).mpr h
      omega
  simp only [cut, hfit, Nat.shiftRight_zero, Int.natCast_zero, Int.add_zero]

/-- **A cut loses less than one part.** -/
theorem within_cut (h : 0 ≤ w.exponent) : Within 1 w.cut w.value := by
  by_cases hfit : w.digits < Nat.pow 2 precision
  · rw [cut_of_lt hfit]
    exact (within_value h).mono (Nat.zero_le 1)
  · have hne : w.digits ≠ 0 := by
      intro hzero
      rw [hzero] at hfit
      exact hfit (Double.two_pow_pos _)
    have hlog : precision ≤ w.digits.log2 := by
      generalize precision = places at hfit ⊢
      exact (Nat.le_log2 hne).mpr (Nat.not_lt.mp hfit)
    have hprecision : 1 ≤ precision := by decide
    obtain ⟨excess, hexcess⟩ : ∃ excess, w.digits.log2 + 1 - precision = excess := ⟨_, rfl⟩
    have hlong : leastLong * Nat.pow 2 excess ≤ w.digits := by
      have hplaces : precision - 1 + excess = w.digits.log2 := by omega
      unfold leastLong
      generalize precision - 1 = places at hplaces ⊢
      calc Nat.pow 2 places * Nat.pow 2 excess = 2 ^ (places + excess) := (Nat.pow_add ..).symm
        _ = 2 ^ w.digits.log2 := by rw [hplaces]
        _ ≤ w.digits := Nat.log2_self_le hne
    have hvalue : w.cut.value =
        w.digits / Nat.pow 2 excess * Nat.pow 2 excess * Nat.pow 2 w.exponent.toNat := by
      have hexponent : (w.exponent + (excess : Int)).toNat = excess + w.exponent.toNat := by omega
      simp only [value, cut, hexcess, hexponent, Nat.shiftRight_eq_div_pow, Nat.pow_eq, Nat.pow_add,
        Nat.mul_assoc]
    have hdiv := Nat.div_add_mod w.digits (Nat.pow 2 excess)
    have hmod := Nat.mod_lt w.digits (Double.two_pow_pos excess)
    refine ⟨?_, ?_, ?_⟩
    · simp only [cut, hexcess]
      omega
    · rw [hvalue]
      exact Nat.mul_le_mul_right _ (Nat.div_mul_le_self _ _)
    · -- the rest is below `2 ^ excess`, and the digits have 320 places in front of it
      have hrest : leastLong * (w.digits % Nat.pow 2 excess) ≤ w.digits :=
        Nat.le_trans (Nat.mul_le_mul_left _ (Nat.le_of_lt hmod)) hlong
      calc leastLong * w.value
          = leastLong * (Nat.pow 2 excess * (w.digits / Nat.pow 2 excess) +
              w.digits % Nat.pow 2 excess) * Nat.pow 2 w.exponent.toNat := by
            rw [hdiv, value, Nat.mul_assoc]
        _ = leastLong * w.cut.value +
              leastLong * (w.digits % Nat.pow 2 excess) * Nat.pow 2 w.exponent.toNat := by
            rw [hvalue]
            ring
        _ ≤ leastLong * w.cut.value + 1 * w.value := by
            rw [Nat.one_mul]
            exact Nat.add_le_add_left (Nat.mul_le_mul_right _ hrest) _

/-! ## Multiplying -/

/-- The product before it is cut. -/
def product (a b : Wide) : Wide := ⟨a.digits * b.digits, a.exponent + b.exponent⟩

theorem value_product (ha : 0 ≤ a.exponent) (hb : 0 ≤ b.exponent) :
    (product a b).value = a.value * b.value := by
  have hexponent : (a.exponent + b.exponent).toNat = a.exponent.toNat + b.exponent.toNat := by omega
  simp only [value, product, hexponent, Nat.pow_eq, Nat.pow_add]
  ring

theorem Within.product (ha : Within k a m) (hb : Within l b n) :
    Within (k + l) (product a b) (m * n) := by
  have hvalue := value_product ha.exponent_nonneg hb.exponent_nonneg
  refine ⟨Int.add_nonneg ha.exponent_nonneg hb.exponent_nonneg, ?_, ?_⟩
  · rw [hvalue]
    exact Nat.mul_le_mul ha.value_le hb.value_le
  · rw [hvalue]
    calc leastLong * (m * n) = leastLong * m * n := (Nat.mul_assoc ..).symm
      _ ≤ (leastLong * a.value + k * m) * n := Nat.mul_le_mul_right n ha.le_value
      _ = a.value * (leastLong * n) + k * (m * n) := by ring
      _ ≤ a.value * (leastLong * b.value + l * n) + k * (m * n) :=
          Nat.add_le_add_right (Nat.mul_le_mul_left _ hb.le_value) _
      _ = leastLong * (a.value * b.value) + l * (a.value * n) + k * (m * n) := by ring
      _ ≤ leastLong * (a.value * b.value) + l * (m * n) + k * (m * n) :=
          Nat.add_le_add_right (Nat.add_le_add_left
            (Nat.mul_le_mul_left l (Nat.mul_le_mul_right n ha.value_le)) _) _
      _ = leastLong * (a.value * b.value) + (k + l) * (m * n) := by ring

/-- **One multiplication** adds the losses of its factors and one part of its own. -/
theorem Within.mul (ha : Within k a m) (hb : Within l b n) :
    Within (1 + (k + l)) (mul a b) (m * n) :=
  (within_cut (Int.add_nonneg ha.exponent_nonneg hb.exponent_nonneg)).trans (ha.product hb)

theorem mul_of_lt {c d : Nat} {x y : Int} (h : c * d < Nat.pow 2 precision) :
    mul ⟨c, x⟩ ⟨d, y⟩ = ⟨c * d, x + y⟩ :=
  cut_of_lt h

/-! ## Powers -/

/-- The halves of an exponent, as the squaring takes them. -/
theorem pow_half_mul_half (v n : Nat) :
    Nat.pow v (n / 2) * Nat.pow v (n / 2) * (if n % 2 = 1 then v else 1) = Nat.pow v n := by
  have hn := Nat.div_add_mod n 2
  simp only [Nat.pow_eq, ← Nat.pow_add]
  split
  · rw [← Nat.pow_succ, show (n / 2 + n / 2).succ = n by omega]
  · rw [Nat.mul_one, show n / 2 + n / 2 = n by omega]

/-- **A power** by repeated squaring loses twice as many parts with each digit of its exponent. -/
theorem within_pow (hw : 0 ≤ w.exponent) : ∀ {bits n : Nat}, n < Nat.pow 2 bits →
    Within (Nat.pow 2 (bits + 1) - 2) (w.pow bits n) (Nat.pow w.value n)
  | 0, n, hn => by
    obtain rfl : n = 0 := Nat.lt_one_iff.mp hn
    exact within_one
  | bits + 1, n, hn => by
    have hpow : Nat.pow 2 (bits + 1 + 1) = 2 * Nat.pow 2 (bits + 1) := Nat.pow_succ'
    have hbits : Nat.pow 2 (bits + 1) = 2 * Nat.pow 2 bits := Nat.pow_succ'
    have hpos : 0 < Nat.pow 2 bits := Double.two_pow_pos bits
    have hhalf : Within (Nat.pow 2 (bits + 1) - 2) (w.pow bits (n / 2)) (Nat.pow w.value (n / 2)) :=
      within_pow hw (by omega)
    have hsquare := hhalf.mul hhalf
    have hexact := pow_half_mul_half w.value n
    rw [pow]
    split
    · rename_i hodd
      rw [if_pos hodd] at hexact
      rw [← hexact]
      exact (hsquare.mul (within_value hw)).mono (by omega)
    · rename_i heven
      rw [if_neg heven, Nat.mul_one] at hexact
      rw [← hexact]
      exact hsquare.mono (by omega)

/-- A power that fits is not cut on the way. -/
theorem pow_of_lt (hw : 0 < w.digits) : ∀ {bits n : Nat}, n < Nat.pow 2 bits →
    Nat.pow w.digits n < Nat.pow 2 precision → w.pow bits n = ⟨Nat.pow w.digits n, n * w.exponent⟩
  | 0, n, hn, _ => by
    obtain rfl : n = 0 := Nat.lt_one_iff.mp hn
    rw [pow, Int.natCast_zero, Int.zero_mul]
    rfl
  | bits + 1, n, hn, hfit => by
    have hbits : Nat.pow 2 (bits + 1) = 2 * Nat.pow 2 bits := Nat.pow_succ'
    have hexact := pow_half_mul_half w.digits n
    have hsquare : Nat.pow w.digits (n / 2) * Nat.pow w.digits (n / 2) ≤ Nat.pow w.digits n := by
      rw [← hexact]
      refine Nat.le_mul_of_pos_right _ ?_
      split <;> omega
    have hhalf : Nat.pow w.digits (n / 2) ≤ Nat.pow w.digits n :=
      Nat.pow_le_pow_right hw (Nat.div_le_self n 2)
    rw [pow, pow_of_lt hw (show n / 2 < Nat.pow 2 bits by omega) (Nat.lt_of_le_of_lt hhalf hfit),
      mul_of_lt (Nat.lt_of_le_of_lt hsquare hfit)]
    have hn := Nat.div_add_mod n 2
    split
    · rename_i hodd
      rw [if_pos hodd] at hexact
      rw [← hexact] at hfit
      rw [mul_of_lt hfit, hexact]
      simp only [mk.injEq, true_and]
      rw [show (n : Int) = (n / 2 : Nat) + (n / 2 : Nat) + 1 by omega]
      ring
    · rename_i heven
      rw [if_neg heven, Nat.mul_one] at hexact
      simp only [hexact, mk.injEq, true_and]
      rw [show (n : Int) = (n / 2 : Nat) + (n / 2 : Nat) by omega]
      ring

/-- **A power that fits is exact.** -/
theorem within_pow_of_lt (hw : 0 < w.digits) (he : 0 ≤ w.exponent) {bits n : Nat}
    (hn : n < Nat.pow 2 bits) (hfit : Nat.pow w.digits n < Nat.pow 2 precision) :
    Within 0 (w.pow bits n) (Nat.pow w.value n) := by
  obtain ⟨e, hexponent⟩ := Int.eq_ofNat_of_zero_le he
  have hvalue : (w.pow bits n).value = Nat.pow w.value n := by
    rw [pow_of_lt hw hn hfit]
    simp only [value, hexponent, ← Int.natCast_mul, Int.toNat_natCast, Nat.pow_eq, Nat.mul_pow,
      ← Nat.pow_mul, Nat.mul_comm n]
  rw [← hvalue]
  refine within_value ?_
  rw [pow_of_lt hw hn hfit]
  exact Int.mul_nonneg (Int.natCast_nonneg n) he

end Descramble.Wide

import Descramble.Proofs.Number.Limit
import Descramble.Proofs.Number.WidePower

/-!
# Powers near the limit of the doubles

A wide power lies a little below the exact one, so a power just above `2^1024 - 2^970` could come out
below it.  There is no such power: a power with an exponent of seven or more that reaches the limit
exceeds it by one part in `2^200` at least, which is far more than a wide power loses, and a power of
a 53-bit base with a lower exponent is exact.

* `Number.clear_of_integerLimit` — no power comes close to the limit from above.
* `Wide.integerLimit_le_value_iff` — a wide power reaches the limit exactly if the exact power does.
-/

set_option autoImplicit false

namespace Descramble

namespace Number

/-- The greatest number with a power below the limit, found one binary digit at a time. -/
def rootBelow (limit e : Nat) : (bits : Nat) → (root : Nat) → Nat
  | 0, root => root
  | bits + 1, root =>
    let next := root + Nat.pow 2 bits
    if Nat.pow next e < limit then rootBelow limit e bits next else rootBelow limit e bits root

/-- A power that reaches the limit exceeds it by one part in this many. -/
def clearance : Nat := Nat.pow 2 200

/-- The power of the root is below the limit, and that of the next number is clear of it. -/
def isLastBelow (limit e root : Nat) : Bool :=
  decide (Nat.pow root e < limit) &&
    decide ((clearance + 1) * limit ≤ clearance * Nat.pow (root + 1) e)

theorem isLastBelow_rootBelow : (List.range 1018).all (fun i => isLastBelow integerLimit (i + 7)
    (rootBelow integerLimit (i + 7) (1024 / (i + 7) + 1) 0)) = true := by
  decide +kernel

theorem clear_of_isLastBelow {limit e root d : Nat} (hroot : isLastBelow limit e root = true)
    (hd : limit ≤ Nat.pow d e) : (clearance + 1) * limit ≤ clearance * Nat.pow d e := by
  simp only [isLastBelow, Bool.and_eq_true, decide_eq_true_eq] at hroot
  have hlt : root < d := by
    by_contra hle
    have := Nat.pow_le_pow_left (Nat.not_lt.mp hle) e
    exact absurd (Nat.lt_of_le_of_lt this hroot.1) (Nat.not_lt.mpr hd)
  exact Nat.le_trans hroot.2 (Nat.mul_le_mul_left _ (Nat.pow_le_pow_left hlt e))

theorem integerLimit_le_pow : integerLimit ≤ Nat.pow 2 1024 := by
  -- the exponent is named lest the powers be computed
  obtain ⟨d, hd⟩ : ∃ d, 970 = d := ⟨970, rfl⟩
  rw [integerLimit, hd, show 1024 = d + 54 by omega]
  calc (4 * Double.binadeSize - 1) * Nat.pow 2 d ≤ 2 ^ 54 * 2 ^ d := Nat.mul_le_mul_right _ (by decide)
    _ = 2 ^ (d + 54) := by rw [Nat.pow_add, Nat.mul_comm]

/-- Two is the least base whose power can reach the limit. -/
theorem two_le_of_integerLimit {d e : Nat} (h : integerLimit ≤ Nat.pow d e) : 2 ≤ d := by
  by_contra hsmall
  have hone : Nat.pow d e ≤ 1 := by
    calc Nat.pow d e ≤ Nat.pow 1 e := Nat.pow_le_pow_left (by omega) e
      _ = 1 := Nat.one_pow e
  have := one_lt_integerLimit
  omega

theorem clear_of_exponent_le {d e : Nat} (hlow : 7 ≤ e) (hhigh : e ≤ 1024)
    (hd : integerLimit ≤ Nat.pow d e) : (clearance + 1) * integerLimit ≤ clearance * Nat.pow d e := by
  have hroot := List.all_eq_true.mp isLastBelow_rootBelow (e - 7) (List.mem_range.mpr (by omega))
  rw [Nat.sub_add_cancel hlow] at hroot
  exact clear_of_isLastBelow hroot hd

/-- **No power comes close to the limit from above.** -/
theorem clear_of_integerLimit {d e : Nat} (he : 7 ≤ e) (hd : integerLimit ≤ Nat.pow d e) :
    (clearance + 1) * integerLimit ≤ clearance * Nat.pow d e := by
  by_cases hhigh : e ≤ 1024
  · exact clear_of_exponent_le he hhigh hd
  · -- a higher exponent leads further up than `2 ^ 1024`, which is named lest it be computed
    obtain ⟨k, hk, hpow⟩ : ∃ k, 1024 = k ∧ integerLimit ≤ Nat.pow 2 k :=
      ⟨1024, rfl, integerLimit_le_pow⟩
    calc (clearance + 1) * integerLimit ≤ clearance * Nat.pow 2 k :=
          clear_of_exponent_le (by omega) (Nat.le_of_eq hk.symm) hpow
      _ ≤ clearance * Nat.pow 2 e :=
          Nat.mul_le_mul_left _ (Nat.pow_le_pow_right (by decide) (by omega))
      _ ≤ clearance * Nat.pow d e :=
          Nat.mul_le_mul_left _ (Nat.pow_le_pow_left (two_le_of_integerLimit hd) e)

end Number

namespace Wide

open Number (integerLimit clearance)

variable {k m n : Nat} {w : Wide}

/-- What twelve binary digits of parts lose is far less than the clearance. -/
theorem parts_mul_le : Nat.pow 2 12 * (clearance + 1) ≤ leastLong := by
  calc Nat.pow 2 12 * (clearance + 1) ≤ Nat.pow 2 12 * Nat.pow 2 201 :=
        Nat.mul_le_mul_left _ (two_pow_lt_two_pow (by decide))
    _ = Nat.pow 2 (12 + 201) := (Nat.pow_add ..).symm
    _ ≤ leastLong := Nat.le_of_lt (two_pow_lt_leastLong (by decide))

/-- What is lost in `k` parts does not lead below a limit that the exact value is clear of. -/
theorem Within.limit_le_value {limit : Nat} (h : Within k w n) (hk : k * (clearance + 1) ≤ leastLong)
    (hclear : (clearance + 1) * limit ≤ clearance * n) : limit ≤ w.value := by
  have hle : k ≤ leastLong := Nat.le_trans (Nat.le_mul_of_pos_right k (Nat.succ_pos clearance)) hk
  obtain ⟨kept, hkept⟩ : ∃ kept, leastLong = kept + k := ⟨leastLong - k, (Nat.sub_add_cancel hle).symm⟩
  have hvalue : kept * n ≤ leastLong * w.value := by
    have := h.le_value
    rw [hkept, Nat.add_mul] at this
    rw [hkept]
    omega
  have hloss : clearance * leastLong ≤ (clearance + 1) * kept := by
    rw [hkept, Nat.mul_add, Nat.mul_one, Nat.mul_comm] at hk
    rw [hkept, Nat.mul_add, Nat.add_mul, Nat.one_mul]
    omega
  have hpos : 0 < clearance * leastLong := Nat.mul_pos (Double.two_pow_pos _) leastLong_pos
  refine Nat.le_of_mul_le_mul_left ?_ hpos
  calc clearance * leastLong * limit ≤ (clearance + 1) * kept * limit := Nat.mul_le_mul_right _ hloss
    _ = kept * ((clearance + 1) * limit) := by ring
    _ ≤ kept * (clearance * n) := Nat.mul_le_mul_left _ hclear
    _ = clearance * (kept * n) := by ring
    _ ≤ clearance * (leastLong * w.value) := Nat.mul_le_mul_left _ hvalue
    _ = clearance * leastLong * w.value := (Nat.mul_assoc ..).symm

/-- The power as it is computed for a whole exponent. -/
def wholePower (w : Wide) (n : Nat) : Wide := mul (w.pow (n.log2 + 1) n) one

theorem within_wholePower (he : 0 ≤ w.exponent) (hn : n < Nat.pow 2 11) :
    Within (Nat.pow 2 12) (w.wholePower n) (Nat.pow w.value n) := by
  have hlog : n.log2 + 2 ≤ 12 := by
    by_cases hzero : n = 0
    · rw [hzero, Nat.log2_zero]
      decide
    · have : n.log2 < 11 := (Nat.log2_lt hzero).mpr hn
      omega
  have hparts : Nat.pow 2 (n.log2 + 1 + 1) ≤ Nat.pow 2 12 := Nat.pow_le_pow_right (by decide) hlog
  have hpos : 0 < Nat.pow 2 12 := Double.two_pow_pos 12
  have hbits : n < Nat.pow 2 (n.log2 + 1) := Nat.lt_log2_self
  have hpower := (within_pow he hbits).mul within_one
  rw [Nat.mul_one] at hpower
  exact hpower.mono (by omega)

/-- The sixth power of 53 digits fits. -/
theorem within_wholePower_of_le (hw : 0 < w.digits) (hbound : w.digits < Nat.pow 2 53)
    (he : 0 ≤ w.exponent) (hn : n ≤ 6) : Within 0 (w.wholePower n) (Nat.pow w.value n) := by
  have hfit : Nat.pow w.digits n < Nat.pow 2 precision := by
    calc Nat.pow w.digits n ≤ Nat.pow w.digits 6 := Nat.pow_le_pow_right hw hn
      _ ≤ Nat.pow (Nat.pow 2 53) 6 := Nat.pow_le_pow_left (Nat.le_of_lt hbound) 6
      _ < Nat.pow 2 precision := two_pow_pow_lt_two_pow (by decide)
  have hbits : n < Nat.pow 2 (n.log2 + 1) := Nat.lt_log2_self
  have hmul : w.wholePower n = w.pow (n.log2 + 1) n := by
    rw [wholePower, pow_of_lt hw hbits hfit, one]
    rw [← Nat.mul_one (Nat.pow w.digits n)] at hfit
    rw [mul_of_lt hfit, Nat.mul_one, Int.add_zero]
  rw [hmul]
  exact within_pow_of_lt hw he hbits hfit

/-- **A wide power reaches the limit exactly if the exact power does.** -/
theorem integerLimit_le_value_iff (hw : 0 < w.digits) (hbound : w.digits < Nat.pow 2 53)
    (he : 0 ≤ w.exponent) (hn : n < Nat.pow 2 11) :
    integerLimit ≤ (w.wholePower n).value ↔ integerLimit ≤ Nat.pow w.value n := by
  constructor
  · intro h
    exact Nat.le_trans h (within_wholePower he hn).value_le
  · intro h
    by_cases hlow : n ≤ 6
    · have hexact := (within_wholePower_of_le hw hbound he hlow).le_value
      rw [Nat.zero_mul, Nat.add_zero] at hexact
      exact Nat.le_trans h (Nat.le_of_mul_le_mul_left hexact leastLong_pos)
    · refine (within_wholePower he hn).limit_le_value parts_mul_le ?_
      exact Number.clear_of_integerLimit (by omega) h

end Wide

end Descramble

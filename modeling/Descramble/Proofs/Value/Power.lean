import Descramble.Proofs.Number.WholePower
import Descramble.Proofs.Value.Arithmetic

/-!
# Powers of natural numbers

A power without a finite double is NaN, be it a pole or an overflow, where a division by zero and the
reading of too long a number give an infinity.

* `Double.exists_ofInt_of_nonneg` — a natural number below the limit has a whole double.
* `Value.power_eq_pow?` — within the greatest exponent the answer is the power of the doubles.
* `Value.power_isNaN_iff` — the powers of natural numbers to integers that are NaN.
-/

set_option autoImplicit false

namespace Descramble

namespace Double

variable {b e : Int}

/-- What is rounded to zero is at most half a unit. -/
theorem eq_zero_of_nearestRank {k : Nat} (h : nearestRank (k * oneUnits) 1 = 0) : k = 0 := by
  have hbound := (surrounds_nearestRank (k * oneUnits) Nat.one_pos).bounds.2
  rw [h, unitsOfRank_of_lt (by decide), unitsOfRank_of_lt (by decide)] at hbound
  have hzero : k * oneUnits = 0 := by omega
  exact (Nat.mul_eq_zero.mp hzero).resolve_right (Nat.ne_of_gt oneUnits_pos)

/-- A natural number below the limit has a whole double. -/
theorem exists_ofInt_of_nonneg (hb : 0 ≤ b) (hlimit : b.natAbs < Number.integerLimit) :
    ∃ (rank : Fin rankBound) (n : Nat), ofInt b = .finite false rank ∧
      (Number.int b).toDouble = .ok (.finite false rank) ∧ unitsOfRank rank = n * oneUnits ∧
      (n = 0 ↔ b = 0) ∧ (b.natAbs < Number.safeBound → n = b.natAbs) := by
  have hrank := Number.nearestRank_lt_rankBound_iff.mpr hlimit
  have hdouble : ofInt b = .finite false ⟨_, hrank⟩ := by
    rw [ofInt_eq_ofRank, decide_eq_false (Int.not_lt.mpr hb), ofRank, dif_pos hrank]
  have htoDouble : (Number.int b).toDouble = .ok (.finite false ⟨_, hrank⟩) := by
    rw [Number.toDouble, hdouble, Number.withinRange]
  have hwhole := Number.isInteger_of_toDouble htoDouble
  rw [isInteger, beq_iff_eq] at hwhole
  obtain ⟨n, hn⟩ := Nat.dvd_of_mod_eq_zero hwhole
  replace hn := hn.trans (Nat.mul_comm oneUnits n)
  have hsafe : b.natAbs < Number.safeBound → n = b.natAbs := by
    intro hsafe
    obtain ⟨rank, hsame, hunits⟩ := exists_ofInt (Number.isSafe_iff.mpr hsafe)
    rw [hdouble, finite.injEq] at hsame
    rw [← hsame.2] at hunits
    exact Nat.eq_of_mul_eq_mul_right oneUnits_pos (hn.symm.trans hunits)
  have hzero : n = 0 ↔ b = 0 := by
    constructor
    · rintro rfl
      rw [Nat.zero_mul, unitsOfRank_eq_zero] at hn
      exact Int.natAbs_eq_zero.mp (eq_zero_of_nearestRank hn)
    · rintro rfl
      exact hsafe (by decide)
  exact ⟨_, n, hdouble, htoDouble, hn, hzero, hsafe⟩

/-- An exponent that is not beyond the greatest one is not refused. -/
theorem maxPower_lt_abs {y : Fin rankBound} {t : Bool} {m : Nat} (hy : unitsOfRank y = m * oneUnits)
    (hm : m ≤ maxPower) : (ofInt maxPower).lt (finite t y).abs = false := by
  obtain ⟨rank, hrank, hunits⟩ := exists_ofInt (n := maxPower) (by decide)
  have hle : y.val ≤ rank.val := by
    refine unitsOfRank_strictMono.le_iff_le.mp ?_
    rw [hy, hunits, Int.natAbs_natCast]
    exact Nat.mul_le_mul_right _ hm
  rw [hrank, decide_eq_false (by decide)]
  simp only [abs, lt, compareBy, place?, Bool.false_eq_true, if_false, decide_eq_false_iff_not]
  omega

end Double

/-- A finite double is not NaN, and its normal form has this double. -/
theorem Number.ofDouble_ne_nan {d : Double} (h : d.isFinite = true) :
    ofDouble d ≠ .nan ∧ (ofDouble d).toDouble = .ok d := by
  refine ⟨fun hnan => ?_, toDouble_normalize (.float d)⟩
  have hd := (toDouble_normalize (.float d)).symm.trans (congrArg toDouble hnan)
  cases hd
  cases h

namespace Value

open Number (integerLimit safeBound)

variable {b e : Int}

/-- **Within the greatest exponent** the answer is the power of the doubles, or NaN. -/
theorem power_eq_pow? {x y : Fin Double.rankBound} {s t : Bool} {m : Nat} {left right : Value}
    (hleft : left.toDouble = .ok (.finite s x)) (hright : right.toDouble = .ok (.finite t y))
    (hy : Double.unitsOfRank y = m * Double.oneUnits) (hm : m ≤ maxPower) :
    left.power right =
      .ok (.number (match (Double.finite s x).pow? (.finite t y) with
        | some d => .ofDouble d
        | none => .nan)) := by
  simp only [power, hleft, hright, bind, Except.bind, Double.maxPower_lt_abs hy hm, Bool.false_eq_true,
    if_false]
  cases (Double.finite s x).pow? (.finite t y) <;> rfl

/-- **The powers of natural numbers that are NaN** are the poles and the overflows: zero with a negative
exponent, and the exact powers from `2^1024 - 2^970` on.  All others are finite.  The base counts as it
is rounded to a double, which changes only bases of `2^53` and more; a base without a double is a
fault. -/
theorem power_isNaN_iff (hb : 0 ≤ b) (he : e.natAbs ≤ maxPower) :
    (integerLimit ≤ b.natAbs → (ofInt b).power (ofInt e) = .error .integerTooLarge) ∧
    (b.natAbs < integerLimit → ∃ (n : Nat) (p : Number), (Double.ofInt b).truncate? = some (n : Int) ∧
      (b.natAbs < safeBound → n = b.natAbs) ∧ (ofInt b).power (ofInt e) = .ok (.number p) ∧
      (p = .nan ↔ b = 0 ∧ e < 0 ∨ integerLimit ≤ Nat.pow n e.toNat) ∧
      (p ≠ .nan → ∃ d, p.toDouble = .ok d ∧ d.isFinite = true)) := by
  constructor
  · intro hlimit
    have hfault : (ofInt b).toDouble = .error .integerTooLarge := by
      rw [ofInt, toDouble_number, Number.toDouble_int_eq_error_iff]
      exact ⟨rfl, hlimit⟩
    rw [power, hfault]
    rfl
  · intro hlimit
    obtain ⟨x, n, hdouble, hbase, hx, hzero, hsafe⟩ := Double.exists_ofInt_of_nonneg hb hlimit
    have hsafeExponent : Number.isSafe e = true :=
      Number.isSafe_iff.mpr (Nat.lt_of_le_of_lt he (by decide))
    obtain ⟨y, hexponent, hy⟩ := Double.exists_ofInt hsafeExponent
    have hleft : (ofInt b).toDouble = .ok (.finite false x) := (toDouble_number _).trans hbase
    have hright : (ofInt e).toDouble = .ok (.finite (decide (e < 0)) y) := by
      rw [ofInt, toDouble_number, Number.toDouble_int hsafeExponent, hexponent]
    have htrunc : (Double.ofInt b).truncate? = some (n : Int) := by
      rw [hdouble, Double.truncate?_finite hx]
      rfl
    have hnone := Double.pow?_ofInt_eq_none_iff hx hy
    rw [hzero] at hnone
    refine ⟨n, _, htrunc, hsafe, power_eq_pow? hleft hright hy he, ?_⟩
    cases hpow : (Double.finite false x).pow? (.finite (decide (e < 0)) y) with
    | none => exact ⟨iff_of_true rfl (hnone.mp hpow), fun h => absurd rfl h⟩
    | some d =>
        have hfinite := Double.isFinite_of_pow? hx hy hpow
        obtain ⟨hne, hd⟩ := Number.ofDouble_ne_nan hfinite
        refine ⟨iff_of_false hne fun hreached => ?_, fun _ => ⟨d, hd, hfinite⟩⟩
        rw [hnone.mpr hreached] at hpow
        cases hpow

/-- `10 ** 400` and `0 ** -1` are NaN, where both are infinite. -/
theorem power_isNaN_iff_overflow_pole :
    (0 ≤ (10 : Int) ∧ (400 : Int).natAbs ≤ maxPower ∧ (ofInt 10).power (ofInt 400) = .ok nan) ∧
    (0 ≤ (0 : Int) ∧ (-1 : Int).natAbs ≤ maxPower ∧ (ofInt 0).power (ofInt (-1)) = .ok nan) := by
  have hten : 0 ≤ (10 : Int) := by decide
  have hzero : 0 ≤ (0 : Int) := by decide
  have hlarge : (400 : Int).natAbs ≤ maxPower := by decide
  have hnegative : (-1 : Int).natAbs ≤ maxPower := by decide
  obtain ⟨n, p, -, hn, hoverflow, hp, -⟩ :=
    (power_isNaN_iff hten hlarge).2 (Number.lt_integerLimit (by decide))
  obtain ⟨_, q, -, -, hpole, hq, -⟩ :=
    (power_isNaN_iff hzero hnegative).2 (Number.lt_integerLimit (by decide))
  have hnan : p = .nan := by
    rw [hn (by decide)] at hp
    exact hp.mpr (Or.inr (by decide +kernel))
  have hnan' : q = .nan := hq.mpr (Or.inl ⟨rfl, by decide⟩)
  rw [hnan] at hoverflow
  rw [hnan'] at hpole
  exact ⟨⟨hten, hlarge, hoverflow⟩, hzero, hnegative, hpole⟩

end Value

end Descramble

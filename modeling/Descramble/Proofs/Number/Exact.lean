import Descramble.Tree.Literal

/-!
# Integers that are doubles

A whole double and the integer that it stands for are one number: rounding gives a double back that
needs no rounding, and every integer below `2^53` is such a double.

* `Double.nearestRank_unitsOfRank` — what needs no rounding is not rounded.
* `Double.ofInt_of_truncate?` — the integral part of a whole double rounds to the double.
* `Double.ofInt_eq_ofRank` — the double of an integer by its sign and magnitude.
* `Double.exists_ofInt` — an integer below `2^53` is a double.
* `Number.toDouble_normalize` — a number and its normal form have the same double.
* `Number.exists_toDouble` — an integer below `2^54` has a double, perhaps after rounding.
-/

set_option autoImplicit false

namespace Descramble

namespace Double

/-! ## Rounding what needs no rounding -/

theorem log2_mul_pow {m e : Nat} (hlow : binadeSize ≤ m) (hhigh : m < 2 * binadeSize) :
    (m * Nat.pow 2 e).log2 = e + 52 := by
  rw [Nat.pow_eq]
  have hpos : 0 < 2 ^ e := Nat.two_pow_pos e
  have hne : m * 2 ^ e ≠ 0 := Nat.mul_ne_zero (by unfold binadeSize at hlow; omega) (by omega)
  rw [Nat.log2_eq_iff hne]
  constructor
  · calc 2 ^ (e + 52) = binadeSize * 2 ^ e := by rw [Nat.pow_add, Nat.mul_comm]
      _ ≤ m * 2 ^ e := Nat.mul_le_mul_right _ hlow
  · calc m * 2 ^ e < 2 * binadeSize * 2 ^ e := Nat.mul_lt_mul_of_pos_right hhigh hpos
      _ = 2 ^ (e + 52 + 1) := by
        rw [Nat.pow_add, Nat.pow_add, Nat.mul_comm, Nat.mul_assoc]
        rfl

theorem nearestRank_of_lt {n : Nat} (h : n < binadeSize) : nearestRank n 1 = n := by
  have hlog : n.log2 - 52 = 0 := by
    by_cases hn : n = 0
    · rw [hn, Nat.log2_zero]
    · have : n.log2 < 52 := (Nat.log2_lt hn).mpr h
      omega
  simp only [nearestRank, Nat.div_one, hlog]
  simp [Nat.mod_one]

theorem nearestRank_mul_pow {m e : Nat} (hlow : binadeSize ≤ m) (hhigh : m < 2 * binadeSize) :
    nearestRank (m * Nat.pow 2 e) 1 = m + e * binadeSize := by
  have hpos : 0 < Nat.pow 2 e := Nat.two_pow_pos e
  have hlog : (m * Nat.pow 2 e).log2 - 52 = e := by
    rw [log2_mul_pow hlow hhigh]
    omega
  have hdiv : m * Nat.pow 2 e / Nat.pow 2 e = m := Nat.mul_div_cancel m hpos
  have hmod : m * Nat.pow 2 e % Nat.pow 2 e = 0 := Nat.mul_mod_left m (Nat.pow 2 e)
  have hne : (0 == Nat.pow 2 e) = false := by
    rw [beq_eq_false_iff_ne]
    omega
  simp only [nearestRank, Nat.div_one, hlog, Nat.one_mul, hdiv, hmod, Nat.mul_zero, hne,
    Bool.false_and, Bool.or_false, Nat.not_lt_zero, decide_false, Bool.false_eq_true, if_false,
    Nat.add_zero]

/-- **What needs no rounding is not rounded.** -/
theorem nearestRank_unitsOfRank (rank : Nat) : nearestRank (unitsOfRank rank) 1 = rank := by
  unfold unitsOfRank
  split
  · rename_i h
    exact nearestRank_of_lt h
  · rename_i h
    have hdiv := Nat.div_add_mod rank binadeSize
    have hmod := Nat.mod_lt rank (show 0 < binadeSize by decide)
    have hone : 1 ≤ rank / binadeSize := by
      rw [Nat.le_div_iff_mul_le (by decide)]
      omega
    rw [nearestRank_mul_pow (by omega) (by omega)]
    obtain ⟨q, hq⟩ : ∃ q, rank / binadeSize = q + 1 := ⟨rank / binadeSize - 1, by omega⟩
    rw [hq] at hdiv ⊢
    rw [Nat.mul_add, Nat.mul_one] at hdiv
    rw [Nat.add_sub_cancel, Nat.mul_comm q]
    omega

theorem unitsOfRank_inj {a b : Nat} (h : unitsOfRank a = unitsOfRank b) : a = b := by
  rw [← nearestRank_unitsOfRank a, h, nearestRank_unitsOfRank]

theorem unitsOfRank_eq_zero {rank : Nat} : unitsOfRank rank = 0 ↔ rank = 0 := by
  constructor
  · intro h
    exact unitsOfRank_inj (h.trans (unitsOfRank_of_lt (by decide)).symm)
  · rintro rfl
    exact unitsOfRank_of_lt (by decide)

/-! ## Integers -/

theorem two_pow_pos (n : Nat) : 0 < Nat.pow 2 n := Nat.two_pow_pos n

theorem oneUnits_pos : 0 < oneUnits := by apply two_pow_pos

theorem ofUnits_signedUnits {negative : Bool} {rank : Fin rankBound}
    (h : negative = true → rank.val ≠ 0) :
    ofUnits (signedUnits negative rank) = .finite negative rank := by
  have habs : (signedUnits negative rank).natAbs = unitsOfRank rank := by
    unfold signedUnits
    split <;> simp
  have hsign : decide (signedUnits negative rank < 0) = negative := by
    unfold signedUnits
    cases negative with
    | false => simp
    | true =>
        have := mt unitsOfRank_eq_zero.mp (h rfl)
        simp
        omega
  rw [ofUnits, ofRatio, habs, hsign, nearestRank_unitsOfRank, ofRank, dif_pos rank.isLt]

/-- **The integral part of a whole double rounds to the double**, negative zero apart. -/
theorem ofInt_of_truncate? {d : Double} {n : Int} (htrunc : d.truncate? = some n)
    (hwhole : d.isInteger = true) (hzero : d.isNegZero = false) : ofInt n = d := by
  cases d with
  | nan => cases htrunc
  | infinite negative => cases htrunc
  | finite negative rank =>
      have hmul : unitsOfRank rank = unitsOfRank rank / oneUnits * oneUnits := by
        simp only [isInteger, beq_iff_eq] at hwhole
        exact (Nat.div_mul_cancel (Nat.dvd_of_mod_eq_zero hwhole)).symm
      have hunits : n * (oneUnits : Nat) = signedUnits negative rank := by
        simp only [truncate?, Option.some.injEq] at htrunc
        rw [← htrunc, signedUnits]
        cases negative with
        | false =>
            simp only [Bool.false_eq_true, if_false]
            rw [← Int.natCast_mul, ← hmul]
        | true =>
            simp only [if_true]
            rw [Int.neg_mul, ← Int.natCast_mul, ← hmul]
      rw [ofInt, hunits]
      refine ofUnits_signedUnits ?_
      rintro rfl hrank
      simp [isNegZero, isZero, isNegative, hrank] at hzero

theorem unitsOfRank_mul_pow {m e : Nat} (hlow : binadeSize ≤ m) (hhigh : m < 2 * binadeSize) :
    unitsOfRank (m + e * binadeSize) = m * Nat.pow 2 e := by
  have hpos : 0 < binadeSize := by decide
  have hdiv : (m + e * binadeSize) / binadeSize = e + 1 := by
    rw [Nat.add_mul_div_right _ _ hpos]
    have : m / binadeSize = 1 := Nat.div_eq_of_lt_le (by omega) (by omega)
    omega
  have hmod : (m + e * binadeSize) % binadeSize = m - binadeSize := by
    rw [Nat.add_mul_mod_self_right, Nat.mod_eq_sub_mod hlow, Nat.mod_eq_of_lt (by omega)]
  unfold unitsOfRank
  rw [if_neg (by omega), hdiv, hmod, Nat.add_sub_cancel, Nat.add_sub_cancel' hlow]

/-- An integer is rounded by its sign and its magnitude. -/
theorem ofInt_eq_ofRank (n : Int) :
    ofInt n = ofRank (decide (n < 0)) (nearestRank (n.natAbs * oneUnits) 1) := by
  have hmul : (n * (oneUnits : Nat)).natAbs = n.natAbs * oneUnits := by
    rw [Int.natAbs_mul, Int.natAbs_natCast]
  have hsign : decide (n * (oneUnits : Nat) < 0) = decide (n < 0) := by
    have hpos : (0 : Int) < (oneUnits : Nat) := Int.natCast_pos.mpr oneUnits_pos
    rw [decide_eq_decide]
    constructor
    · intro hlt
      exact Int.lt_of_not_ge fun hge => by
        have := Int.mul_nonneg hge (Int.le_of_lt hpos)
        omega
    · intro hlt
      exact Int.mul_neg_of_neg_of_pos hlt hpos
  rw [ofInt, ofUnits, ofRatio, hmul, hsign]

/-- The units of one are a power of two, whose exponent has a name lest the power is evaluated. -/
theorem exists_oneUnits : ∃ e, e = 1074 ∧ oneUnits = Nat.pow 2 e := by
  simp only [oneUnits, exists_eq_left]

/-- **An integer below `2^53` is a double.** -/
theorem exists_ofInt {n : Int} (h : Number.isSafe n = true) :
    ∃ rank : Fin rankBound, ofInt n = .finite (decide (n < 0)) rank ∧
      unitsOfRank rank = n.natAbs * oneUnits := by
  have hsafe : n.natAbs < 2 * binadeSize := of_decide_eq_true h
  -- the rank whose units are those of the integer
  obtain ⟨rank, hrank, hunits⟩ : ∃ rank, rank < rankBound ∧
      unitsOfRank rank = n.natAbs * oneUnits := by
    by_cases hzero : n.natAbs = 0
    · exact ⟨0, by decide, by rw [hzero, Nat.zero_mul, unitsOfRank_eq_zero]⟩
    · have hlog : n.natAbs.log2 ≤ 52 := Nat.le_of_lt_succ ((Nat.log2_lt hzero).mpr hsafe)
      obtain ⟨k, hk⟩ : ∃ k, n.natAbs.log2 + k = 52 := ⟨52 - n.natAbs.log2, by omega⟩
      have hlow : binadeSize ≤ n.natAbs * 2 ^ k := by
        calc binadeSize = 2 ^ n.natAbs.log2 * 2 ^ k := by rw [← Nat.pow_add, hk]
          _ ≤ n.natAbs * 2 ^ k := Nat.mul_le_mul_right _ (Nat.log2_self_le hzero)
      have hhigh : n.natAbs * 2 ^ k < 2 * binadeSize := by
        calc n.natAbs * 2 ^ k < 2 ^ (n.natAbs.log2 + 1) * 2 ^ k :=
              Nat.mul_lt_mul_of_pos_right Nat.lt_log2_self (Nat.two_pow_pos k)
          _ = 2 ^ 53 := by rw [← Nat.pow_add, show n.natAbs.log2 + 1 + k = 53 by omega]
          _ = 2 * binadeSize := by decide
      refine ⟨n.natAbs * 2 ^ k + (n.natAbs.log2 + 1022) * binadeSize, ?_, ?_⟩
      · unfold rankBound
        have : (n.natAbs.log2 + 1022) * binadeSize ≤ 1074 * binadeSize :=
          Nat.mul_le_mul_right _ (by omega)
        unfold binadeSize at *
        omega
      · obtain ⟨e, he, hone⟩ := exists_oneUnits
        rw [unitsOfRank_mul_pow hlow hhigh, hone, Nat.pow_eq, Nat.mul_assoc, ← Nat.pow_add,
          show k + (n.natAbs.log2 + 1022) = e by omega, Nat.pow_eq]
  refine ⟨⟨rank, hrank⟩, ?_, hunits⟩
  rw [ofInt_eq_ofRank, ← hunits, nearestRank_unitsOfRank, ofRank, dif_pos hrank]

end Double

namespace Number

/-! ## Normal forms -/

theorem ofDouble_eq_int {d : Double} {n : Int} (h : ofDouble d = .int n) :
    d.truncate? = some n ∧ d.isInteger = true ∧ isSafe n = true ∧ d.isNegZero = false := by
  unfold ofDouble at h
  split at h
  · rename_i m hm
    split at h
    · rename_i hcond
      cases h
      simp only [Bool.and_eq_true, Bool.not_eq_true'] at hcond
      exact ⟨hm, hcond.1.1, hcond.1.2, hcond.2⟩
    · cases h
  · cases h

theorem ofDouble_cases (d : Double) :
    ofDouble d = .float d ∨ ∃ n, ofDouble d = .int n ∧ Double.ofInt n = d ∧ d.truncate? = some n ∧
      d.isInteger = true ∧ isSafe n = true ∧ d.isNegZero = false := by
  cases h : ofDouble d with
  | float d' =>
      unfold ofDouble at h
      split at h
      · split at h
        · cases h
        · cases h
          exact Or.inl rfl
      · cases h
        exact Or.inl rfl
  | int n =>
      obtain ⟨htrunc, hwhole, hsafe, hzero⟩ := ofDouble_eq_int h
      exact Or.inr ⟨n, rfl, Double.ofInt_of_truncate? htrunc hwhole hzero, htrunc, hwhole, hsafe,
        hzero⟩

theorem isSafe_iff {n : Int} : isSafe n = true ↔ n.natAbs < safeBound := decide_eq_true_iff

theorem toDouble_int {n : Int} (h : isSafe n = true) : (int n).toDouble = .ok (Double.ofInt n) := by
  obtain ⟨rank, hrank, -⟩ := Double.exists_ofInt h
  rw [toDouble, hrank, withinRange]

/-- **A number and its normal form have the same double.** -/
@[simp] theorem toDouble_normalize (n : Number) : n.normalize.toDouble = n.toDouble := by
  cases n with
  | int i => rfl
  | float d =>
      rcases ofDouble_cases d with h | ⟨i, h, hd, -, -, hsafe, -⟩
      · rw [normalize, h]
      · rw [normalize, h, toDouble_int hsafe, hd]
        rfl

@[simp] theorem truncate?_normalize (n : Number) : n.normalize.truncate? = n.truncate? := by
  cases n with
  | int i => rfl
  | float d =>
      rcases ofDouble_cases d with h | ⟨i, h, -, htrunc, -⟩
      · rw [normalize, h]
      · rw [normalize, h]
        exact htrunc.symm

@[simp] theorem text_normalize (n : Number) : n.normalize.text = n.text := by
  cases n with
  | int i => rfl
  | float d =>
      rcases ofDouble_cases d with h | ⟨i, h, -, htrunc, -, hsafe, -⟩
      · rw [normalize, h]
      · rw [normalize, h]
        cases d with
        | nan => cases htrunc
        | infinite negative => cases htrunc
        | finite negative rank => simp only [text, hsafe, if_true, doubleText, h]

@[simp] theorem normalize_normalize (n : Number) : n.normalize.normalize = n.normalize := by
  cases n with
  | int i => rfl
  | float d =>
      rcases ofDouble_cases d with h | ⟨i, h, -⟩
      · rw [normalize, h, normalize, h]
      · rw [normalize, h, normalize]

/-- Is the magnitude of the number below `2^53`? -/
def isSmall (n : Number) : Bool :=
  match n.truncate? with
  | some i => isSafe i
  | none => false

end Number

namespace Double

theorem isInteger_finite {negative : Bool} {rank : Fin rankBound} {k : Nat}
    (h : unitsOfRank rank = k * oneUnits) : (finite negative rank).isInteger = true := by
  simp only [isInteger, h, Nat.mul_mod_left, beq_self_eq_true]

theorem isInteger_ofInt {i : Int} (h : Number.isSafe i = true) : (ofInt i).isInteger = true := by
  obtain ⟨rank, hrank, hunits⟩ := exists_ofInt h
  rw [hrank]
  exact isInteger_finite hunits

theorem truncate?_finite {negative : Bool} {rank : Fin rankBound} {k : Nat}
    (h : unitsOfRank rank = k * oneUnits) :
    (finite negative rank).truncate? = some (if negative then -(k : Int) else k) := by
  simp only [truncate?, h, Nat.mul_div_cancel _ oneUnits_pos]

theorem isNegZero_finite {negative : Bool} {rank : Fin rankBound} {k : Nat}
    (h : unitsOfRank rank = k * oneUnits) (hk : k ≠ 0) :
    (finite negative rank).isNegZero = false := by
  have hne : rank.val ≠ 0 := by
    intro hzero
    rw [unitsOfRank_eq_zero.mpr hzero] at h
    exact Nat.mul_ne_zero hk (Nat.ne_of_gt oneUnits_pos) h.symm
  simp [isNegZero, isZero, hne]

@[simp] theorem neg_neg (d : Double) : d.neg.neg = d := by
  cases d <;> simp [neg]

/-- The negation of a positive integer below `2^53`. -/
theorem ofDouble_neg_ofInt {n : Int} (hpos : 0 < n) (hsafe : Number.isSafe n = true) :
    Number.ofDouble (ofInt n).neg = .int (-n) := by
  obtain ⟨rank, hrank, hunits⟩ := exists_ofInt hsafe
  have hk : n.natAbs ≠ 0 := by omega
  have htrunc : (finite true rank).truncate? = some (-n) := by
    rw [truncate?_finite hunits, if_pos rfl]
    congr 1
    omega
  have hneg : (ofInt n).neg = finite true rank := by
    rw [hrank, decide_eq_false (by omega)]
    rfl
  have hsafe' : Number.isSafe (-n) = true := by
    simpa only [Number.isSafe, Int.natAbs_neg] using hsafe
  rw [hneg, Number.ofDouble, htrunc]
  simp only [isInteger_finite hunits, hsafe', isNegZero_finite hunits hk, Bool.not_false,
    Bool.and_self, if_true]

/-! ## Integers that are rounded -/

theorem log2_mul_pow_le {a j k : Nat} (h : a < Nat.pow 2 (j + 1)) :
    (a * Nat.pow 2 k).log2 ≤ j + k := by
  by_cases hzero : a * Nat.pow 2 k = 0
  · rw [hzero, Nat.log2_zero]
    exact Nat.zero_le _
  · refine Nat.le_of_lt_succ ((Nat.log2_lt hzero).mpr ?_)
    calc a * Nat.pow 2 k < 2 ^ (j + 1) * Nat.pow 2 k :=
          Nat.mul_lt_mul_of_pos_right h (two_pow_pos k)
      _ = 2 ^ (j + k + 1) := by rw [Nat.pow_eq, ← Nat.pow_add, Nat.add_right_comm]

/-- Rounding leaves a value in the binade it is in, or leads to the start of the next one. -/
theorem nearestRank_le (num : Nat) : nearestRank num 1 ≤ (num.log2 - 52 + 2) * binadeSize := by
  have hlow : num / Nat.pow 2 (num.log2 - 52) < 2 * binadeSize := by
    rw [Nat.div_lt_iff_lt_mul (two_pow_pos _), Nat.pow_eq]
    calc num < 2 ^ (num.log2 + 1) := Nat.lt_log2_self
      _ ≤ 2 ^ (53 + (num.log2 - 52)) := Nat.pow_le_pow_right (by decide) (by omega)
      _ = 2 * binadeSize * 2 ^ (num.log2 - 52) := by
        rw [Nat.pow_add, show 2 ^ 53 = 2 * binadeSize by decide]
  have hup : nearestRank num 1 ≤
      num / Nat.pow 2 (num.log2 - 52) + 1 + (num.log2 - 52) * binadeSize := by
    simp only [nearestRank, Nat.div_one, Nat.one_mul]
    split <;> omega
  calc nearestRank num 1
      ≤ num / Nat.pow 2 (num.log2 - 52) + 1 + (num.log2 - 52) * binadeSize := hup
    _ ≤ 2 * binadeSize + (num.log2 - 52) * binadeSize := Nat.add_le_add_right hlow _
    _ = (num.log2 - 52 + 2) * binadeSize := by rw [Nat.add_mul, Nat.add_comm]

theorem nearestRank_lt {a k : Nat} (ha : a < 2 * Number.safeBound) (hk : k ≤ 1074) :
    nearestRank (a * Nat.pow 2 k) 1 < rankBound := by
  have hlog : (a * Nat.pow 2 k).log2 ≤ 53 + k := log2_mul_pow_le ha
  calc nearestRank (a * Nat.pow 2 k) 1 ≤ ((a * Nat.pow 2 k).log2 - 52 + 2) * binadeSize :=
        nearestRank_le _
    _ ≤ 1077 * binadeSize := Nat.mul_le_mul_right _ (by omega)
    _ < 2047 * binadeSize := Nat.mul_lt_mul_of_pos_right (by decide) (by decide)

end Double

/-- Integers below `2^54` in magnitude have a double. -/
theorem Number.exists_toDouble {n : Int} (h : n.natAbs < 2 * safeBound) :
    ∃ d, (Number.int n).toDouble = .ok d := by
  obtain ⟨e, he, hunits⟩ := Double.exists_oneUnits
  have hrank := Double.nearestRank_lt h (Nat.le_of_eq he)
  rw [Number.toDouble, Double.ofInt_eq_ofRank, hunits, Double.ofRank, dif_pos hrank]
  exact ⟨_, rfl⟩

end Descramble

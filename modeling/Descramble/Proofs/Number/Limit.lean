import Descramble.Proofs.Number.Exact

/-!
# Integers that have no double

An exact integer is rounded to a double.  Half-way between the greatest double, `2^1024 - 2^971`, and
`2^1024` the rounding goes up, and there is nothing to round to.

* `Double.nearestRank_lt_iff` — what is rounded to a rank below a binade.
* `Number.integerLimit` — the least magnitude without a double, `2^1024 - 2^970`.
* `Number.toDouble_int_eq_error_iff` — the integers without a double.
* `Number.isInteger_of_toDouble` — the double of an integer is integral.
* `Number.IsModerate` — a double, or an exact integer below the limit; `isModerate_ofDouble` says that
  all normal forms of doubles are moderate.
* `Number.natAbs_floor?_lt`, `natAbs_ceil?_lt`, `natAbs_truncate?_lt` — rounding stays below the limit.
-/

set_option autoImplicit false

namespace Descramble

namespace Double

variable {num e : Nat}

/-- What lies below the last binade is rounded into it at most. -/
theorem nearestRank_lt_of_log2 (h : num.log2 ≤ e + 52) :
    nearestRank num 1 < (e + 3) * binadeSize := by
  calc nearestRank num 1 ≤ (num.log2 - 52 + 2) * binadeSize := nearestRank_le num
    _ ≤ (e + 2) * binadeSize := Nat.mul_le_mul_right _ (by omega)
    _ < (e + 3) * binadeSize := Nat.mul_lt_mul_of_pos_right (by omega) (by decide)

/-- What lies behind the last binade keeps behind it. -/
theorem le_nearestRank_of_log2 (h : e + 54 ≤ num.log2) :
    (e + 3) * binadeSize ≤ nearestRank num 1 := by
  have hne : num ≠ 0 := by
    rintro rfl
    simp at h
  have hlow : binadeSize ≤ num / Nat.pow 2 (num.log2 - 52) := by
    rw [Nat.le_div_iff_mul_le (two_pow_pos _), Nat.pow_eq]
    calc binadeSize * 2 ^ (num.log2 - 52) = 2 ^ (52 + (num.log2 - 52)) := by
          rw [Nat.pow_add, show 2 ^ 52 = binadeSize by decide]
      _ = 2 ^ num.log2 := by rw [show 52 + (num.log2 - 52) = num.log2 by omega]
      _ ≤ num := Nat.log2_self_le hne
  calc (e + 3) * binadeSize = binadeSize + (e + 2) * binadeSize := by
        rw [show e + 3 = 1 + (e + 2) by omega, Nat.add_mul, Nat.one_mul]
    _ ≤ num / Nat.pow 2 (num.log2 - 52) + (num.log2 - 52) * binadeSize :=
        Nat.add_le_add hlow (Nat.mul_le_mul_right _ (by omega))
    _ ≤ nearestRank num 1 := by
        simp only [nearestRank, Nat.div_one, Nat.one_mul]
        split <;> omega

/-- In the last binade only the second half of the last gap is rounded up to its end. -/
theorem nearestRank_lt_iff_of_log2 (h : num.log2 = e + 53) :
    nearestRank num 1 < (e + 3) * binadeSize ↔ num < (4 * binadeSize - 1) * Nat.pow 2 e := by
  have hpos : 0 < Nat.pow 2 e := two_pow_pos e
  have hscale : Nat.pow 2 (e + 1) = 2 * Nat.pow 2 e := by
    rw [Nat.pow_eq, Nat.pow_eq, Nat.pow_succ, Nat.mul_comm]
  have hhigh : num / (2 * Nat.pow 2 e) < 2 * binadeSize := by
    rw [Nat.div_lt_iff_lt_mul (by omega), ← hscale, Nat.pow_eq]
    calc num < 2 ^ (num.log2 + 1) := Nat.lt_log2_self
      _ = 2 ^ (53 + (e + 1)) := by rw [h, show e + 53 + 1 = 53 + (e + 1) by omega]
      _ = 2 * binadeSize * 2 ^ (e + 1) := by
        rw [Nat.pow_add, show 2 ^ 53 = 2 * binadeSize by decide]
  have hshift : num.log2 - 52 = e + 1 := by omega
  have hbinades : (e + 3) * binadeSize = 2 * binadeSize + (e + 1) * binadeSize := by
    rw [show e + 3 = 2 + (e + 1) by omega, Nat.add_mul]
  simp only [nearestRank, Nat.div_one, Nat.one_mul, hshift, hscale, hbinades]
  generalize Nat.pow 2 e = half at hpos hhigh ⊢
  have hdiv := Nat.div_add_mod num (2 * half)
  have hmod := Nat.mod_lt num (show 0 < 2 * half by omega)
  generalize num / (2 * half) = low at hhigh hdiv ⊢
  generalize num % (2 * half) = rest at hdiv hmod ⊢
  by_cases hlast : low + 1 < 2 * binadeSize
  · -- below the last gap the rounding stays in the binade
    have hnum : 2 * half * (low + 1) ≤ 2 * half * (2 * binadeSize - 1) :=
      Nat.mul_le_mul_left _ (by omega)
    rw [Nat.mul_add, Nat.mul_one] at hnum
    have hlimit : 2 * half * (2 * binadeSize - 1) + half = (4 * binadeSize - 1) * half := by
      unfold binadeSize
      omega
    refine iff_of_true ?_ (by omega)
    split <;> omega
  · have hlow : low = 2 * binadeSize - 1 := by omega
    have hodd : (low % 2 == 1) = true := by
      rw [hlow]
      decide
    have hlimit : 2 * half * low + half = (4 * binadeSize - 1) * half := by
      rw [hlow]
      unfold binadeSize
      omega
    simp only [hodd, Bool.and_true, Bool.or_eq_true, decide_eq_true_eq, beq_iff_eq]
    split <;> omega

/-- **What is rounded to a rank below a binade**: what lies before the middle of the last gap. -/
theorem nearestRank_lt_iff :
    nearestRank num 1 < (e + 3) * binadeSize ↔ num < (4 * binadeSize - 1) * Nat.pow 2 e := by
  have hpow : 2 ^ (e + 53) = 2 * binadeSize * 2 ^ e := by
    rw [Nat.add_comm, Nat.pow_add, show 2 ^ 53 = 2 * binadeSize by decide]
  have hpos : 0 < 2 ^ e := Nat.two_pow_pos e
  rw [Nat.pow_eq]
  rcases Nat.lt_trichotomy num.log2 (e + 53) with hlog | hlog | hlog
  · refine iff_of_true (nearestRank_lt_of_log2 (by omega)) ?_
    have hnum : num < 2 ^ (e + 53) := by
      calc num < 2 ^ (num.log2 + 1) := Nat.lt_log2_self
        _ ≤ 2 ^ (e + 53) := Nat.pow_le_pow_right (by decide) hlog
    rw [hpow] at hnum
    exact Nat.lt_of_lt_of_le hnum (Nat.mul_le_mul_right _ (by decide))
  · exact nearestRank_lt_iff_of_log2 hlog
  · refine iff_of_false (Nat.not_lt.mpr (le_nearestRank_of_log2 hlog)) ?_
    have hne : num ≠ 0 := by
      rintro rfl
      simp at hlog
    have hnum : 2 ^ (e + 54) ≤ num := by
      calc 2 ^ (e + 54) ≤ 2 ^ num.log2 := Nat.pow_le_pow_right (by decide) hlog
        _ ≤ num := Nat.log2_self_le hne
    rw [show e + 54 = e + 53 + 1 by omega, Nat.pow_succ, hpow] at hnum
    unfold binadeSize at hnum ⊢
    omega

/-- The same for a multiple of a power of two. -/
theorem nearestRank_mul_lt_iff {a d k unit : Nat} (hunit : unit = Nat.pow 2 k) :
    nearestRank (a * unit) 1 < (d + k + 3) * binadeSize ↔
      a < (4 * binadeSize - 1) * Nat.pow 2 d := by
  have hpow : (4 * binadeSize - 1) * Nat.pow 2 (d + k) =
      (4 * binadeSize - 1) * Nat.pow 2 d * unit := by
    rw [hunit]
    simp only [Nat.pow_eq, Nat.pow_add, Nat.mul_assoc]
  have hpos : 0 < unit := hunit ▸ two_pow_pos k
  rw [nearestRank_lt_iff, hpow]
  exact Nat.mul_lt_mul_right hpos

/-- The units of a rank below a binade end one gap before the middle of its last gap. -/
theorem unitsOfRank_le {rank : Nat} (h : rank < (e + 3) * binadeSize) :
    unitsOfRank rank ≤ (4 * binadeSize - 2) * Nat.pow 2 e := by
  have hscale : Nat.pow 2 (e + 1) = 2 * Nat.pow 2 e := by
    rw [Nat.pow_eq, Nat.pow_eq, Nat.pow_succ, Nat.mul_comm]
  have hpos : 0 < Nat.pow 2 e := two_pow_pos e
  unfold unitsOfRank
  split
  · rename_i hlow
    calc rank ≤ (4 * binadeSize - 2) * 1 := by
          unfold binadeSize at hlow ⊢
          omega
      _ ≤ (4 * binadeSize - 2) * Nat.pow 2 e := Nat.mul_le_mul_left _ hpos
  · have hmod := Nat.mod_lt rank (show 0 < binadeSize by decide)
    have hdiv : rank / binadeSize < e + 3 := Nat.div_lt_of_lt_mul (by rwa [Nat.mul_comm])
    calc (binadeSize + rank % binadeSize) * Nat.pow 2 (rank / binadeSize - 1)
        ≤ (2 * binadeSize - 1) * Nat.pow 2 (e + 1) :=
          Nat.mul_le_mul (by omega) (Nat.pow_le_pow_right (by decide) (by omega))
      _ = (4 * binadeSize - 2) * Nat.pow 2 e := by
          rw [hscale, ← Nat.mul_assoc]
          rfl

/-- From some binade on, the gaps are multiples of a power of two. -/
theorem pow_dvd_unitsOfRank {rank : Nat} (h : (e + 1) * binadeSize ≤ rank) :
    Nat.pow 2 e ∣ unitsOfRank rank := by
  have hdiv : e + 1 ≤ rank / binadeSize := (Nat.le_div_iff_mul_le (by decide)).mpr h
  have hhigh : ¬ rank < binadeSize := fun hlow => by
    rw [Nat.div_eq_of_lt hlow] at hdiv
    omega
  rw [unitsOfRank, if_neg hhigh]
  exact Nat.dvd_trans (Nat.pow_dvd_pow 2 (by omega)) (Nat.dvd_mul_left _ _)

/-- What has `2^53` times a power of two or more is rounded to a multiple of that power. -/
theorem pow_dvd_unitsOfRank_nearestRank {a k : Nat} (ha : Number.safeBound ≤ a) (hk : 1 ≤ k) :
    Nat.pow 2 k ∣ unitsOfRank (nearestRank (a * Nat.pow 2 k) 1) := by
  have hpos : a * Nat.pow 2 k ≠ 0 :=
    Nat.mul_ne_zero (Nat.ne_of_gt (Nat.lt_of_lt_of_le (by decide) ha)) (Nat.ne_of_gt (two_pow_pos k))
  have hlog : 53 + k ≤ (a * Nat.pow 2 k).log2 := by
    rw [Nat.le_log2 hpos, Nat.pow_add, show 2 ^ 53 = Number.safeBound by decide]
    exact Nat.mul_le_mul_right _ ha
  obtain ⟨e, rfl⟩ : ∃ e, k = e + 1 := ⟨k - 1, by omega⟩
  refine pow_dvd_unitsOfRank ?_
  calc (e + 1 + 1) * binadeSize ≤ (e + 3) * binadeSize := Nat.mul_le_mul_right _ (by omega)
    _ ≤ nearestRank (a * Nat.pow 2 (e + 1)) 1 := le_nearestRank_of_log2 (by omega)

end Double

namespace Number

/-- The least magnitude of an exact integer that has no double: `2^1024 - 2^970`. -/
def integerLimit : Nat := (4 * Double.binadeSize - 1) * Nat.pow 2 970

/-- The exponents behind the limit, named lest the powers be computed. -/
theorem exists_exponents : ∃ d k, Double.oneUnits = Nat.pow 2 k ∧
    integerLimit = (4 * Double.binadeSize - 1) * Nat.pow 2 d ∧
    Double.rankBound = (d + k + 3) * Double.binadeSize := by
  obtain ⟨k, hk⟩ : ∃ k, 1074 = k := ⟨1074, rfl⟩
  obtain ⟨d, hd⟩ : ∃ d, 970 = d := ⟨970, rfl⟩
  refine ⟨d, k, ?_, ?_, ?_⟩
  · simp only [Double.oneUnits, hk]
  · simp only [integerLimit, hd]
  · rw [← hk, ← hd]

/-- The natural numbers that are rounded to a finite rank. -/
theorem nearestRank_lt_rankBound_iff {n : Nat} :
    Double.nearestRank (n * Double.oneUnits) 1 < Double.rankBound ↔ n < integerLimit := by
  obtain ⟨d, k, hunit, hlimit, hbound⟩ := exists_exponents
  rw [hbound, Double.nearestRank_mul_lt_iff hunit, hlimit]

/-- **The integers without a double** are those of at least the limit, and the fault says so. -/
theorem toDouble_int_eq_error_iff {n : Int} {fault : Fault} :
    (int n).toDouble = .error fault ↔ fault = .integerTooLarge ∧ integerLimit ≤ n.natAbs := by
  rw [toDouble, Double.ofInt_eq_ofRank, Double.ofRank]
  split
  · rename_i hlt
    have := nearestRank_lt_rankBound_iff.mp hlt
    simp only [withinRange, reduceCtorEq, false_iff, not_and, Nat.not_le]
    exact fun _ => this
  · rename_i hlt
    have := mt nearestRank_lt_rankBound_iff.mpr hlt
    simp only [withinRange, Except.error.injEq]
    constructor
    · rintro rfl
      exact ⟨rfl, Nat.not_lt.mp this⟩
    · rintro ⟨rfl, -⟩
      rfl

/-- **The double of an integer is integral.** -/
theorem isInteger_of_toDouble {n : Int} {d : Double} (h : (int n).toDouble = .ok d) :
    d.isInteger = true := by
  by_cases hsafe : isSafe n = true
  · rw [toDouble_int hsafe] at h
    cases h
    exact Double.isInteger_ofInt hsafe
  · have hunits : Double.oneUnits ∣
        Double.unitsOfRank (Double.nearestRank (n.natAbs * Double.oneUnits) 1) := by
      -- the exponent is named lest the power be computed
      obtain ⟨k, hk⟩ : ∃ k, 1074 = k := ⟨1074, rfl⟩
      simp only [Double.oneUnits, hk]
      refine Double.pow_dvd_unitsOfRank_nearestRank (Nat.not_lt.mp fun hlt => hsafe ?_) (by omega)
      exact isSafe_iff.mpr hlt
    rw [toDouble, Double.ofInt_eq_ofRank, Double.ofRank] at h
    split at h
    · cases h
      rw [Double.isInteger, Nat.mod_eq_zero_of_dvd hunits, beq_self_eq_true]
    · cases h

/-! ## Numbers below the limit -/

/-- The number is a double, or an exact integer below the limit. -/
def IsModerate (n : Number) : Prop := ∀ i, n = .int i → i.natAbs < integerLimit

theorem isModerate_int {i : Int} : (int i).IsModerate ↔ i.natAbs < integerLimit := by
  simp [IsModerate]

theorem isModerate_float (d : Double) : (float d).IsModerate := by simp [IsModerate]

theorem safeBound_le_integerLimit : safeBound ≤ integerLimit := by
  obtain ⟨d, -, -, hlimit, -⟩ := exists_exponents
  rw [hlimit]
  calc safeBound ≤ (4 * Double.binadeSize - 1) * 1 := by decide
    _ ≤ (4 * Double.binadeSize - 1) * Nat.pow 2 d := Nat.mul_le_mul_left _ (Double.two_pow_pos d)

theorem lt_integerLimit {n : Nat} (h : n < safeBound) : n < integerLimit :=
  Nat.lt_of_lt_of_le h safeBound_le_integerLimit

theorem one_lt_integerLimit : 1 < integerLimit := lt_integerLimit (by decide)

theorem isModerate_ofDouble (d : Double) : (ofDouble d).IsModerate := by
  rcases ofDouble_cases d with h | ⟨i, h, -, -, -, hsafe, -⟩
  · rw [h]
    exact isModerate_float d
  · rw [h, isModerate_int]
    exact Nat.lt_of_lt_of_le (isSafe_iff.mp hsafe) safeBound_le_integerLimit

/-! ## Rounding a double to an integer -/

/-- A finite double lies at least one below the limit. -/
theorem unitsOfRank_add_le (rank : Fin Double.rankBound) :
    Double.unitsOfRank rank + Double.oneUnits ≤ integerLimit * Double.oneUnits := by
  obtain ⟨d, k, hunit, hlimit, hbound⟩ := exists_exponents
  have hunits : Double.unitsOfRank rank ≤ (4 * Double.binadeSize - 2) * Nat.pow 2 (d + k) :=
    Double.unitsOfRank_le (hbound ▸ rank.isLt)
  have hpow : Nat.pow 2 (d + k) = Nat.pow 2 d * Double.oneUnits := by
    rw [hunit]
    simp only [Nat.pow_eq, Nat.pow_add]
  have hone : Double.oneUnits ≤ Nat.pow 2 d * Double.oneUnits :=
    Nat.le_mul_of_pos_left _ (Double.two_pow_pos d)
  rw [hlimit, Nat.mul_assoc, ← hpow]
  rw [← hpow] at hone
  unfold Double.binadeSize at hunits ⊢
  omega

/-- The quotient of signed units lies below the limit. -/
theorem natAbs_fdiv_lt {x : Int} (h : x.natAbs + Double.oneUnits ≤ integerLimit * Double.oneUnits) :
    (x.fdiv Double.oneUnits).natAbs < integerLimit := by
  have hpos : (0 : Int) < (Double.oneUnits : Nat) := Int.natCast_pos.mpr Double.oneUnits_pos
  generalize Double.oneUnits = unit at h hpos ⊢
  generalize integerLimit = limit at h ⊢
  have hbound : (x.natAbs : Int) ≤ ((limit : Int) - 1) * unit := by
    rw [Int.sub_mul, Int.one_mul, ← Int.natCast_mul]
    omega
  rw [Int.fdiv_eq_ediv_of_nonneg _ (Int.le_of_lt hpos)]
  have hlow : -((limit : Int) - 1) ≤ x / unit := by
    rw [Int.le_ediv_iff_mul_le hpos, Int.neg_mul]
    omega
  have hhigh : x / unit < (limit : Int) := by
    rw [Int.ediv_lt_iff_lt_mul hpos]
    rw [Int.sub_mul, Int.one_mul] at hbound
    omega
  omega

theorem natAbs_signedUnits (negative : Bool) (rank : Nat) :
    (Double.signedUnits negative rank).natAbs = Double.unitsOfRank rank := by
  unfold Double.signedUnits
  split <;> simp

/-- **What rounding makes of a double is below the limit.** -/
theorem natAbs_floor?_lt {d : Double} {n : Int} (h : d.floor? = some n) : n.natAbs < integerLimit := by
  cases d with
  | nan => cases h
  | infinite negative => cases h
  | finite negative rank =>
      cases h
      refine natAbs_fdiv_lt ?_
      rw [natAbs_signedUnits]
      exact unitsOfRank_add_le rank

theorem natAbs_ceil?_lt {d : Double} {n : Int} (h : d.ceil? = some n) : n.natAbs < integerLimit := by
  cases d with
  | nan => cases h
  | infinite negative => cases h
  | finite negative rank =>
      cases h
      rw [Int.natAbs_neg]
      refine natAbs_fdiv_lt ?_
      rw [Int.natAbs_neg, natAbs_signedUnits]
      exact unitsOfRank_add_le rank

theorem natAbs_truncate?_lt {d : Double} {n : Int} (h : d.truncate? = some n) :
    n.natAbs < integerLimit := by
  cases d with
  | nan => cases h
  | infinite negative => cases h
  | finite negative rank =>
      have hlt : Double.unitsOfRank rank / Double.oneUnits < integerLimit := by
        rw [Nat.div_lt_iff_lt_mul Double.oneUnits_pos]
        have := unitsOfRank_add_le rank
        have := Double.oneUnits_pos
        omega
      simp only [Double.truncate?, Option.some.injEq] at h
      subst h
      split
      · rwa [Int.natAbs_neg, Int.natAbs_natCast]
      · rwa [Int.natAbs_natCast]

end Number

end Descramble

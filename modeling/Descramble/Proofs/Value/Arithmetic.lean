import Mathlib.Data.Nat.Basic
import Mathlib.Data.Int.Order.Basic
import Descramble.Proofs.Number.Exact
import Descramble.Value.Operator

/-!
# Arithmetic on safe integers

Arithmetic goes through doubles.  An integer below `2^53` is a double, so as long as the result stays
below `2^53` nothing is rounded on the way, and only a zero can remember a sign.

* `Double.HoldsInt` — a finite double with the sign and the magnitude of an integer.
* `Double.nearestRank_mul_den` — a quotient that comes out even is the rounding of an integer.
* `HoldsInt.add`, `HoldsInt.mul`, `HoldsInt.fmod` — the operations on such doubles.
* `Value.IsWhole` — a value that is an integer, exactly or as a double.
* `arithmetic_exact` — sums, differences, products and remainders of safe integers.
-/

set_option autoImplicit false

namespace Descramble

namespace Double

/-! ## Doubles that are integers -/

/-- The double is the integer `n` with a sign; only a zero may have the other sign. -/
structure HoldsInt (d : Double) (negative : Bool) (n : Int) : Prop where
  exists_rank : ∃ rank : Fin rankBound, d = .finite negative rank ∧
    unitsOfRank rank = n.natAbs * oneUnits
  sign : n ≠ 0 → negative = decide (n < 0)

variable {d e : Double} {s s' : Bool} {m n : Int}

theorem holdsInt_ofInt (h : Number.isSafe n = true) : HoldsInt (ofInt n) (decide (n < 0)) n :=
  ⟨exists_ofInt h, fun _ => rfl⟩

theorem HoldsInt.neg (h : HoldsInt d s n) : HoldsInt d.neg (!s) (-n) := by
  obtain ⟨rank, rfl, hunits⟩ := h.exists_rank
  refine ⟨⟨rank, rfl, by rw [Int.natAbs_neg, hunits]⟩, fun hn => ?_⟩
  rw [h.sign (by omega)]
  by_cases hneg : n < 0
  · simp [hneg, show ¬ 0 < n by omega]
  · simp [hneg, show 0 < n by omega]

/-- The sign and the integer determine the double. -/
theorem HoldsInt.unique (hd : HoldsInt d s n) (he : HoldsInt e s n) : d = e := by
  obtain ⟨rank, rfl, hrank⟩ := hd.exists_rank
  obtain ⟨rank', rfl, hrank'⟩ := he.exists_rank
  rw [Fin.ext (unitsOfRank_inj (hrank.trans hrank'.symm))]

theorem holdsInt_signedZero (s : Bool) : HoldsInt (signedZero s) s 0 :=
  ⟨⟨_, rfl, by rw [Int.natAbs_zero, Nat.zero_mul, unitsOfRank_eq_zero]⟩, fun h => absurd rfl h⟩

/-- The magnitude with the sign is the integer. -/
theorem HoldsInt.signed_natAbs (h : HoldsInt d s n) :
    (if s = true then -(n.natAbs : Int) else n.natAbs) = n := by
  by_cases hn : n = 0
  · simp [hn]
  · rw [h.sign hn]
    by_cases hneg : n < 0
    · simp only [hneg, decide_true, if_true]
      omega
    · simp only [hneg, decide_false, Bool.false_eq_true, if_false]
      omega

theorem HoldsInt.signedUnits_eq {rank : Fin rankBound} (h : HoldsInt (.finite s rank) s n) :
    signedUnits s rank = n * (oneUnits : Nat) := by
  obtain ⟨rank', he, hunits⟩ := h.exists_rank
  cases he
  have hsigned := h.signed_natAbs
  rw [signedUnits, hunits, Int.natCast_mul]
  cases s with
  | true =>
      simp only [if_true] at hsigned ⊢
      rw [← Int.neg_mul, hsigned]
  | false =>
      simp only [Bool.false_eq_true, if_false] at hsigned ⊢
      rw [hsigned]

/-- The double with the sign and the magnitude of a safe integer needs no rounding. -/
theorem holdsInt_ofRatio {num den : Nat} (hsafe : Number.isSafe n = true)
    (hrank : nearestRank num den = nearestRank (n.natAbs * oneUnits) 1)
    (hsign : n ≠ 0 → s = decide (n < 0)) : HoldsInt (ofRatio s num den) s n := by
  obtain ⟨rank, -, hunits⟩ := exists_ofInt hsafe
  refine ⟨⟨rank, ?_, hunits⟩, hsign⟩
  rw [ofRatio, hrank, ← hunits, nearestRank_unitsOfRank, ofRank, dif_pos rank.isLt]

/-- **A quotient that comes out even** is rounded like the integer that it is. -/
theorem nearestRank_mul_den {k den : Nat} (hden : 0 < den) :
    nearestRank (k * den) den = nearestRank k 1 := by
  have hpow : 0 < Nat.pow 2 (k.log2 - 52) := two_pow_pos _
  have hlow : k * den / (den * Nat.pow 2 (k.log2 - 52)) = k / Nat.pow 2 (k.log2 - 52) := by
    rw [Nat.mul_comm k, Nat.mul_div_mul_left _ _ hden]
  have hrest : k * den % (den * Nat.pow 2 (k.log2 - 52)) = den * (k % Nat.pow 2 (k.log2 - 52)) := by
    rw [Nat.mul_comm k, Nat.mul_mod_mul_left]
  have hlt : den * Nat.pow 2 (k.log2 - 52) < 2 * (den * (k % Nat.pow 2 (k.log2 - 52))) ↔
      Nat.pow 2 (k.log2 - 52) < 2 * (k % Nat.pow 2 (k.log2 - 52)) := by
    rw [Nat.mul_left_comm]
    exact Nat.mul_lt_mul_left hden
  have heq : 2 * (den * (k % Nat.pow 2 (k.log2 - 52))) = den * Nat.pow 2 (k.log2 - 52) ↔
      2 * (k % Nat.pow 2 (k.log2 - 52)) = Nat.pow 2 (k.log2 - 52) := by
    rw [Nat.mul_left_comm]
    exact Nat.mul_right_inj (Nat.ne_of_gt hden)
  simp only [nearestRank, Nat.mul_div_cancel _ hden, Nat.div_one, Nat.one_mul, hlow, hrest,
    decide_eq_decide.mpr hlt, Bool.beq_eq_decide_eq, decide_eq_decide.mpr heq]

/-! ## The operations -/

/-- **The sum of two integers** is not rounded.  When it is zero, the two must not both be negative
zeros. -/
theorem HoldsInt.add (hd : HoldsInt d s m) (he : HoldsInt e s' n)
    (hzero : m + n = 0 → (s && s') = false) : d.add e = ofInt (m + n) := by
  obtain ⟨rank, rfl, -⟩ := hd.exists_rank
  obtain ⟨rank', rfl, -⟩ := he.exists_rank
  have hunits : signedUnits s rank + signedUnits s' rank' = (m + n) * (oneUnits : Nat) := by
    rw [hd.signedUnits_eq, he.signedUnits_eq, Int.add_mul]
  have hone : ((oneUnits : Nat) : Int) ≠ 0 := Int.natCast_ne_zero.mpr (Nat.ne_of_gt oneUnits_pos)
  rw [Double.add, hunits]
  by_cases hsum : m + n = 0
  · rw [if_pos (by rw [hsum, Int.zero_mul]), hzero hsum, hsum]
    exact (holdsInt_signedZero false).unique (holdsInt_ofInt (by decide))
  · rw [if_neg (Int.mul_ne_zero hsum hone), ofInt]

/-- **The product of two integers** is not rounded; its sign is that of the factors, zeros included. -/
theorem HoldsInt.mul (hd : HoldsInt d s m) (he : HoldsInt e s' n)
    (hsafe : Number.isSafe (m * n) = true) : HoldsInt (d.mul e) (s != s') (m * n) := by
  obtain ⟨rank, rfl, hm⟩ := hd.exists_rank
  obtain ⟨rank', rfl, hn⟩ := he.exists_rank
  have hunits : unitsOfRank rank * unitsOfRank rank' = (m * n).natAbs * oneUnits * oneUnits := by
    rw [hm, hn, Int.natAbs_mul, Nat.mul_assoc, Nat.mul_left_comm oneUnits, Nat.mul_assoc,
      Nat.mul_assoc]
  rw [Double.mul, hunits]
  refine holdsInt_ofRatio hsafe (nearestRank_mul_den oneUnits_pos) fun hne => ?_
  have hm0 : m ≠ 0 := fun h => hne (by rw [h, Int.zero_mul])
  have hn0 : n ≠ 0 := fun h => hne (by rw [h, Int.mul_zero])
  rw [hd.sign hm0, he.sign hn0, Bool.eq_iff_iff, decide_eq_true_iff, Int.mul_neg_iff]
  by_cases hmneg : m < 0 <;> by_cases hnneg : n < 0 <;> simp [hmneg, hnneg] <;> omega

theorem isSafe_tmod (h : Number.isSafe m = true) : Number.isSafe (m.tmod n) = true := by
  rw [Number.isSafe_iff, Int.natAbs_tmod]
  exact Nat.lt_of_le_of_lt (Nat.mod_le _ _) (Number.isSafe_iff.mp h)

/-- **The remainder of two integers** keeps the sign of the dividend, also when it is zero. -/
theorem HoldsInt.fmod (hd : HoldsInt d s m) (he : HoldsInt e s' n) (hn : n ≠ 0)
    (hsafe : Number.isSafe m = true) : HoldsInt (d.fmod e) s (m.tmod n) := by
  obtain ⟨rank, rfl, hm⟩ := hd.exists_rank
  obtain ⟨rank', rfl, hn'⟩ := he.exists_rank
  have hpos : 0 < n.natAbs := Int.natAbs_pos.mpr hn
  have hrank : rank'.val ≠ 0 := by
    rw [Ne, ← unitsOfRank_eq_zero, hn']
    exact Nat.mul_ne_zero (Nat.ne_of_gt hpos) (Nat.ne_of_gt oneUnits_pos)
  have hunits : unitsOfRank rank % unitsOfRank rank' = (m.tmod n).natAbs * oneUnits := by
    rw [hm, hn', Nat.mul_mod_mul_right, Int.natAbs_tmod]
  rw [Double.fmod, if_neg hrank, hunits]
  refine holdsInt_ofRatio (isSafe_tmod hsafe) rfl fun hne => ?_
  have hm0 : m ≠ 0 := by
    rintro rfl
    exact hne (Int.zero_tmod n)
  rw [hd.sign hm0, decide_eq_decide]
  rcases Int.lt_or_le m 0 with hneg | hnonneg
  · have : 0 ≤ (-m).tmod n := Int.tmod_nonneg n (by omega)
    rw [Int.neg_tmod] at this
    omega
  · have : 0 ≤ m.tmod n := Int.tmod_nonneg n hnonneg
    omega

/-! ## The normal forms -/

/-- The normal form is the integer, unless it is the negative zero. -/
theorem HoldsInt.ofDouble_eq_int (h : HoldsInt d s n) (hsafe : Number.isSafe n = true)
    (hzero : n = 0 → s = false) : Number.ofDouble d = .int n := by
  obtain ⟨rank, rfl, hunits⟩ := h.exists_rank
  have hnz : (finite s rank).isNegZero = false := by
    by_cases hn : n = 0
    · simp [isNegZero, isNegative, hzero hn]
    · exact isNegZero_finite hunits (Int.natAbs_ne_zero.mpr hn)
  rw [Number.ofDouble, truncate?_finite hunits, h.signed_natAbs]
  simp only [isInteger_finite hunits, hsafe, hnz, Bool.not_false, Bool.and_self, if_true]

theorem ofDouble_ofInt (h : Number.isSafe n = true) : Number.ofDouble (ofInt n) = .int n :=
  (holdsInt_ofInt h).ofDouble_eq_int h fun hn => by simp [hn]

/-- The negative zero is its own normal form. -/
theorem HoldsInt.ofDouble_negZero (h : HoldsInt d true 0) : Number.ofDouble d = .float negZero := by
  rw [h.unique (holdsInt_signedZero true)]
  decide +kernel

theorem HoldsInt.ofDouble_eq_negZero_iff (h : HoldsInt d s n) (hsafe : Number.isSafe n = true) :
    Number.ofDouble d = .float negZero ↔ n = 0 ∧ s = true := by
  by_cases hzero : n = 0 ∧ s = true
  · obtain ⟨rfl, rfl⟩ := hzero
    exact iff_of_true h.ofDouble_negZero ⟨rfl, rfl⟩
  · rw [h.ofDouble_eq_int hsafe fun hn => by simpa [hn] using hzero]
    simp [hzero]

end Double

namespace Value

/-- The value is the integer `n`, exactly or as a double. -/
def IsWhole (v : Value) (n : Int) : Prop :=
  v = .ofInt n ∨ ∃ d : Double, v = .number (.float d) ∧ d.isInteger = true ∧ d.truncate? = some n

theorem isWhole_ofInt (n : Int) : (ofInt n).IsWhole n := Or.inl rfl

theorem isWhole_ofDouble {d : Double} {s : Bool} {n : Int} (h : d.HoldsInt s n)
    (hsafe : Number.isSafe n = true) : IsWhole (.number (.ofDouble d)) n := by
  by_cases hzero : n = 0 ∧ s = true
  · obtain ⟨rfl, rfl⟩ := hzero
    rw [h.ofDouble_negZero]
    exact Or.inr ⟨.negZero, rfl, by decide +kernel, by decide +kernel⟩
  · rw [h.ofDouble_eq_int hsafe fun hn => by simpa [hn] using hzero]
    exact isWhole_ofInt n

theorem toDouble_number (n : Number) : (number n).toDouble = n.toDouble := by
  simp [toDouble, toNumber, bind, Except.bind]

theorem arithmetic_eq_ok {left right : Value} {d e : Double} (hd : left.toDouble = .ok d)
    (he : right.toDouble = .ok e) (op : Double → Double → Double) :
    arithmetic op left right = .ok (.number (.ofDouble (op d e))) := by
  simp [arithmetic, hd, he, bind, Except.bind, pure, Except.pure]

/-- Arithmetic on safe integers is the operation on their doubles. -/
theorem arithmetic_ofInt {a b : Int} (ha : Number.isSafe a = true) (hb : Number.isSafe b = true)
    (op : Double → Double → Double) : arithmetic op (ofInt a) (ofInt b) =
      .ok (.number (.ofDouble (op (Double.ofInt a) (Double.ofInt b)))) := by
  refine arithmetic_eq_ok ?_ ?_ op <;> rw [ofInt, toDouble_number]
  · exact Number.toDouble_int ha
  · exact Number.toDouble_int hb

/-- Numbers are neither texts nor arrays, so they are added. -/
theorem add_number (m n : Number) :
    (number m).add (number n) = arithmetic Double.add (number m) (number n) := by
  simp [add, flattened, isText, bind, Except.bind]

/-! ### Each operation -/

section Safe

variable {a b : Int}

theorem ofInt_add_ofInt (ha : Number.isSafe a = true) (hb : Number.isSafe b = true)
    (hsafe : Number.isSafe (a + b) = true) : (ofInt a).add (ofInt b) = .ok (ofInt (a + b)) := by
  have hsum := (Double.holdsInt_ofInt ha).add (Double.holdsInt_ofInt hb) fun h => by
    simp only [Bool.and_eq_false_iff, decide_eq_false_iff_not]
    omega
  rw [ofInt, ofInt, add_number]
  rw [← ofInt, ← ofInt, arithmetic_ofInt ha hb, hsum, Double.ofDouble_ofInt hsafe, ofInt]

theorem ofInt_sub_ofInt (ha : Number.isSafe a = true) (hb : Number.isSafe b = true)
    (hsafe : Number.isSafe (a - b) = true) : (ofInt a).sub (ofInt b) = .ok (ofInt (a - b)) := by
  have hdiff := (Double.holdsInt_ofInt ha).add (Double.holdsInt_ofInt hb).neg fun h => by
    simp only [Bool.and_eq_false_iff, decide_eq_false_iff_not, Bool.not_eq_false', decide_eq_true_eq]
    omega
  rw [sub, arithmetic_ofInt ha hb, Double.sub, hdiff, ← Int.sub_eq_add_neg,
    Double.ofDouble_ofInt hsafe, ofInt]

theorem exists_mul_ofInt (ha : Number.isSafe a = true) (hb : Number.isSafe b = true)
    (hsafe : Number.isSafe (a * b) = true) : ∃ v, (ofInt a).mul (ofInt b) = .ok v ∧
      v.IsWhole (a * b) ∧ (v = .number (.float .negZero) ↔ a * b = 0 ∧ (a < 0 ↔ ¬ b < 0)) := by
  have hprod := (Double.holdsInt_ofInt ha).mul (Double.holdsInt_ofInt hb) hsafe
  refine ⟨_, arithmetic_ofInt ha hb _, isWhole_ofDouble hprod hsafe, ?_⟩
  rw [number.injEq, hprod.ofDouble_eq_negZero_iff hsafe]
  by_cases hneg : b < 0 <;> simp [hneg]

theorem exists_mod_ofInt (ha : Number.isSafe a = true) (hb : Number.isSafe b = true) (hb0 : b ≠ 0) :
    ∃ v, (ofInt a).mod (ofInt b) = .ok v ∧ v.IsWhole (a.tmod b) ∧
      (v = .number (.float .negZero) ↔ a < 0 ∧ b ∣ a) := by
  have hrem := (Double.holdsInt_ofInt ha).fmod (Double.holdsInt_ofInt hb) hb0 ha
  have hsafe := Double.isSafe_tmod ha (n := b)
  refine ⟨_, arithmetic_ofInt ha hb _, isWhole_ofDouble hrem hsafe, ?_⟩
  rw [number.injEq, hrem.ofDouble_eq_negZero_iff hsafe, ← Int.dvd_iff_tmod_eq_zero,
    decide_eq_true_iff, and_comm]

end Safe

/-- **Arithmetic on safe integers is exact**: a safe sum or difference is that integer; a safe product
and a remainder are that integer too, and the negative zero remembers the sign of a zero. -/
theorem arithmetic_exact {a b : Int} (ha : a.natAbs < Number.safeBound)
    (hb : b.natAbs < Number.safeBound) :
    ((a + b).natAbs < Number.safeBound → (ofInt a).add (ofInt b) = .ok (ofInt (a + b))) ∧
    ((a - b).natAbs < Number.safeBound → (ofInt a).sub (ofInt b) = .ok (ofInt (a - b))) ∧
    ((a * b).natAbs < Number.safeBound → ∃ v, (ofInt a).mul (ofInt b) = .ok v ∧ v.IsWhole (a * b) ∧
      (v = .number (.float .negZero) ↔ a * b = 0 ∧ (a < 0 ↔ ¬ b < 0))) ∧
    (b ≠ 0 → ∃ v, (ofInt a).mod (ofInt b) = .ok v ∧ v.IsWhole (a.tmod b) ∧
      (v = .number (.float .negZero) ↔ a < 0 ∧ b ∣ a)) := by
  simp only [← Number.isSafe_iff] at ha hb ⊢
  exact ⟨ofInt_add_ofInt ha hb, ofInt_sub_ofInt ha hb, exists_mul_ofInt ha hb, exists_mod_ofInt ha hb⟩

/-- A zero product and a zero remainder remember the sign. -/
theorem arithmetic_exact_signedZero :
    (-6 : Int).natAbs < Number.safeBound ∧ (3 : Int).natAbs < Number.safeBound ∧
    (ofInt (-6)).add (ofInt 3) = .ok (ofInt (-3)) ∧ (ofInt (-6)).sub (ofInt 3) = .ok (ofInt (-9)) ∧
    (ofInt (-6)).mul (ofInt 0) = .ok (.number (.float .negZero)) ∧
    (ofInt (-6)).mod (ofInt 3) = .ok (.number (.float .negZero)) := by
  obtain ⟨hadd, hsub, -, hmod⟩ := arithmetic_exact (a := -6) (b := 3) (by decide) (by decide)
  obtain ⟨-, -, hmul, -⟩ := arithmetic_exact (a := -6) (b := 0) (by decide) (by decide)
  obtain ⟨v, hv, -, hproduct⟩ := hmul (by decide)
  obtain ⟨w, hw, -, hremainder⟩ := hmod (by decide)
  refine ⟨by decide, by decide, hadd (by decide), hsub (by decide), ?_, ?_⟩
  · rw [hv, hproduct.mpr (by decide)]
  · rw [hw, hremainder.mpr (by decide)]

end Value

end Descramble

import Descramble.Proofs.Number.Limit
import Descramble.Proofs.Value.Arithmetic

/-!
# Bit operations as operations on machine words

The bit operations work on signed integers without bounds, of which they read the low 32 bits.  Here
they are compared with the operations on words of 32 bits.

* `word` — the 32 bits that an integer leaves.
* `low32_eq_toNat`, `wrap32_eq_toInt` — the two readings of a word are those of the conversions.
* `IsSigned32` — a signed integer of 32 bits with the same remainder.
* `word_intAnd`, `word_intOr`, `word_intXor`, `word_shiftLeft` — the operations on integers leave what
  those on words give.
* `Value.bitwise_eq_word` — one law for all operations that read two words and give a signed one.
* `bit_operations_on_words` — the conversions and all bit operations.
-/

set_option autoImplicit false

namespace Descramble

/-- The low 32 bits of an integer. -/
def word (n : Int) : BitVec 32 := BitVec.ofInt 32 n

/-- The distance of a shift. -/
def shiftCount (n : Int) : Nat := (n % 32).toNat

/-- The signed integer of 32 bits that leaves the same remainder modulo `2^32`. -/
structure IsSigned32 (n r : Int) : Prop where
  lower : -0x80000000 ≤ r
  upper : r < 0x80000000
  congruent : r % 0x100000000 = n % 0x100000000

variable {a b n r : Int}

/-! ## The readings of a word -/

theorem toNat_word (n : Int) : ((word n).toNat : Int) = n % 0x100000000 := by
  rw [word, BitVec.toNat_ofInt]
  exact Int.toNat_of_nonneg (Int.emod_nonneg _ (by decide))

theorem low32_eq_toNat (n : Int) : Value.low32 n = (word n).toNat := by
  rw [word, BitVec.toNat_ofInt]
  rfl

theorem signed32_toNat (w : BitVec 32) : Value.signed32 w.toNat = w.toInt := by
  have hlt : w.toNat < 0x100000000 := w.isLt
  rw [BitVec.toInt_eq_toNat_cond, Value.signed32]
  split <;> split <;> omega

theorem wrap32_eq_toInt (n : Int) : Value.wrap32 n = (word n).toInt := by
  rw [Value.wrap32, low32_eq_toNat, signed32_toNat]

/-- A word is left by its signed reading. -/
theorem word_toInt (w : BitVec 32) : word w.toInt = w := BitVec.ofInt_toInt

theorem isSigned32_word (n : Int) : IsSigned32 n (word n).toInt := by
  have hlt : (word n).toNat < 0x100000000 := (word n).isLt
  have hmod := toNat_word n
  rw [← signed32_toNat, Value.signed32]
  split <;> constructor <;> omega

theorem IsSigned32.unique (h : IsSigned32 n a) (h' : IsSigned32 n b) : a = b := by
  obtain ⟨_, _, _⟩ := h
  obtain ⟨_, _, _⟩ := h'
  omega

/-- The low five bits of the right operand are the distance. -/
theorem toNat_word_and (n : Int) : (word n).toNat &&& 31 = shiftCount n := by
  have := toNat_word n
  rw [shiftCount, show 31 = 2 ^ 5 - 1 from rfl, Nat.and_two_pow_sub_one_eq_mod]
  omega

/-! ## What the operations on integers leave -/

theorem word_ofNat (m : Nat) : word (.ofNat m) = BitVec.ofNat 32 m := BitVec.ofInt_natCast 32 m

theorem word_negSucc (m : Nat) : word (.negSucc m) = ~~~BitVec.ofNat 32 m :=
  BitVec.ofInt_negSucc_eq_not_ofNat

theorem word_not : ∀ a : Int, word (~~~a) = ~~~word a
  | .ofNat m => by
      rw [word_ofNat]
      exact word_negSucc m
  | .negSucc m => by
      rw [word_negSucc, BitVec.not_not]
      exact word_ofNat m

/-- The digits of one word that another one has not. -/
theorem xor_and_eq (v w : BitVec 32) : v ^^^ (v &&& w) = v &&& ~~~w := by
  ext i hi
  simp only [BitVec.getElem_xor, BitVec.getElem_and, BitVec.getElem_not]
  cases v[i] <;> cases w[i] <;> rfl

theorem word_intAnd : ∀ a b : Int, word (Value.intAnd a b) = word a &&& word b
  | .ofNat m, .ofNat n => by
      simp only [Value.intAnd, word_ofNat, BitVec.ofNat_and]
  | .ofNat m, .negSucc n => by
      simp only [Value.intAnd, word_ofNat, word_negSucc, BitVec.ofNat_xor, BitVec.ofNat_and,
        xor_and_eq]
  | .negSucc m, .ofNat n => by
      simp only [Value.intAnd, word_ofNat, word_negSucc, BitVec.ofNat_xor, BitVec.ofNat_and,
        xor_and_eq]
      exact BitVec.and_comm ..
  | .negSucc m, .negSucc n => by
      simp only [Value.intAnd, word_negSucc, BitVec.ofNat_or, BitVec.not_or]

theorem word_intOr (a b : Int) : word (Value.intOr a b) = word a ||| word b := by
  rw [Value.intOr, word_not, word_intAnd, word_not, word_not, BitVec.not_and, BitVec.not_not,
    BitVec.not_not]

theorem word_intXor : ∀ a b : Int, word (Value.intXor a b) = word a ^^^ word b
  | .ofNat m, .ofNat n => by
      simp only [Value.intXor, word_ofNat, BitVec.ofNat_xor]
  | .ofNat m, .negSucc n => by
      simp only [Value.intXor, word_ofNat, word_negSucc, BitVec.ofNat_xor, BitVec.not_xor_right]
  | .negSucc m, .ofNat n => by
      simp only [Value.intXor, word_ofNat, word_negSucc, BitVec.ofNat_xor, BitVec.not_xor_left]
  | .negSucc m, .negSucc n => by
      rw [Value.intXor, word_ofNat, word_negSucc, word_negSucc, BitVec.ofNat_xor,
        ← BitVec.not_xor_left, ← BitVec.not_xor_right, BitVec.not_not]

/-- A shift is a multiplication by a power of two. -/
theorem word_shiftLeft (a : Int) (k : Nat) : word (a <<< k) = word a <<< k := by
  have hpow : BitVec.ofInt 32 (2 ^ k) = BitVec.twoPow 32 k := by
    rw [show (2 ^ k : Int) = (2 ^ k : Nat) from (Int.natCast_pow 2 k).symm, BitVec.ofInt_natCast]
    exact BitVec.eq_of_toNat_eq (by rw [BitVec.toNat_ofNat, BitVec.toNat_twoPow])
  rw [Int.shiftLeft_eq, word, BitVec.ofInt_mul, hpow, ← BitVec.shiftLeft_eq_mul_twoPow, word]

/-! ## Integers with a double -/

theorem pow_add_le (d : Nat) : Nat.pow 2 (d + 53) ≤ (4 * Double.binadeSize - 1) * Nat.pow 2 d := by
  calc Nat.pow 2 (d + 53) = Nat.pow 2 53 * Nat.pow 2 d := by
        rw [Nat.pow_eq, Nat.pow_add, Nat.mul_comm]
        rfl
    _ ≤ (4 * Double.binadeSize - 1) * Nat.pow 2 d := Nat.mul_le_mul_right _ (by decide)

theorem pow_le_integerLimit : Nat.pow 2 1023 ≤ Number.integerLimit := by
  -- the exponent is named lest the powers be computed
  obtain ⟨d, hd⟩ : ∃ d, 970 = d := ⟨970, rfl⟩
  rw [Number.integerLimit, hd, show 1023 = d + 53 by omega]
  exact pow_add_le d

theorem natAbs_lt_pow {e : Nat} (h : n.natAbs ≤ e) : n.natAbs < Nat.pow 2 e :=
  Nat.lt_of_le_of_lt h Nat.lt_two_pow_self

theorem Number.exists_toDouble_of_lt (h : n.natAbs < Nat.pow 2 1023) :
    ∃ d, (Number.int n).toDouble = .ok d := by
  cases hd : (Number.int n).toDouble with
  | ok d => exact ⟨d, rfl⟩
  | error fault =>
      have hlimit := (Number.toDouble_int_eq_error_iff.mp hd).2
      have := pow_le_integerLimit
      omega

namespace Value

variable {x y : Value}

theorem toInteger_number {k : Number} {d : Double} (h : k.toDouble = .ok d) :
    (number k).toInteger = .ok (k.truncate?.getD 0) := by
  simp [toInteger, toNumber, h, bind, Except.bind, pure, Except.pure]

/-- **The integral part of an integer is the integer**, also when it is rounded on the way. -/
theorem IsWhole.toInteger (h : x.IsWhole n) (hn : n.natAbs < Nat.pow 2 1023) :
    x.toInteger = .ok n := by
  rcases h with rfl | ⟨d, rfl, -, htrunc⟩
  · obtain ⟨d, hd⟩ := Number.exists_toDouble_of_lt hn
    rw [ofInt, toInteger_number hd, Number.truncate?, Option.getD_some]
  · rw [toInteger_number rfl, Number.truncate?, htrunc, Option.getD_some]

theorem toInt32_of_toInteger (h : x.toInteger = .ok n) : x.toInt32 = .ok (word n).toInt := by
  simp only [toInt32, h, wrap32_eq_toInt, bind, Except.bind, pure, Except.pure]

theorem toUint32_of_toInteger (h : x.toInteger = .ok n) : x.toUint32 = .ok (word n).toNat := by
  simp only [toUint32, toInt32_of_toInteger h, low32_eq_toNat, word_toInt, bind, Except.bind, pure,
    Except.pure]

/-! ## The operations -/

/-- **Two words to a signed word**: what is left of the integers is the operation on words. -/
theorem bitwise_eq_word {op : Int → Int → Int} {f : BitVec 32 → BitVec 32 → BitVec 32}
    (hop : ∀ a b, word (op a b) = f (word a) (word b)) (hx : x.toInteger = .ok a)
    (hy : y.toInteger = .ok b) : bitwise op x y = .ok (ofInt (f (word a) (word b)).toInt) := by
  simp only [bitwise, toInt32_of_toInteger hx, toInt32_of_toInteger hy, wrap32_eq_toInt, hop,
    word_toInt, bind, Except.bind, pure, Except.pure]

theorem bitNot_eq_word (hx : x.toInteger = .ok a) : x.bitNot = .ok (ofInt (~~~ word a).toInt) := by
  simp only [bitNot, toInt32_of_toInteger hx, wrap32_eq_toInt, word_not, word_toInt, bind,
    Except.bind, pure, Except.pure]

theorem shiftLeft_eq_word (hx : x.toInteger = .ok a) (hy : y.toInteger = .ok b) :
    x.shiftLeft y = .ok (ofInt (word a <<< shiftCount b).toInt) := by
  simp only [shiftLeft, toInt32_of_toInteger hx, toUint32_of_toInteger hy, toNat_word_and,
    wrap32_eq_toInt, word_shiftLeft, word_toInt, bind, Except.bind, pure, Except.pure]

theorem shiftRight_eq_word (hx : x.toInteger = .ok a) (hy : y.toInteger = .ok b) :
    x.shiftRight y = .ok (ofInt ((word a).sshiftRight (shiftCount b)).toInt) := by
  simp only [shiftRight, toInt32_of_toInteger hx, toUint32_of_toInteger hy, toNat_word_and,
    BitVec.toInt_sshiftRight, bind, Except.bind, pure, Except.pure]

theorem shiftRightUnsigned_eq_word (hx : x.toInteger = .ok a) (hy : y.toInteger = .ok b) :
    x.shiftRightUnsigned y = .ok (ofInt (word a >>> shiftCount b).toNat) := by
  simp only [shiftRightUnsigned, toUint32_of_toInteger hx, toUint32_of_toInteger hy, toNat_word_and,
    BitVec.toNat_ushiftRight, bind, Except.bind, pure, Except.pure]

/-- **The bit operations are the operations on words of 32 bits**, for all integers that have a double:
the conversions read the low word, and the right operand of a shift counts modulo 32. -/
theorem bit_operations_on_words (hx : x.IsWhole a) (hy : y.IsWhole b)
    (ha : a.natAbs < Nat.pow 2 1023) (hb : b.natAbs < Nat.pow 2 1023) :
    (∃ r, x.toInt32 = .ok r ∧ IsSigned32 a r ∧ ∀ r', IsSigned32 a r' → r' = r) ∧
    (∃ u : Nat, x.toUint32 = .ok u ∧ (u : Int) = a % 0x100000000) ∧
    x.bitAnd y = .ok (ofInt (word a &&& word b).toInt) ∧
    x.bitOr y = .ok (ofInt (word a ||| word b).toInt) ∧
    x.bitXor y = .ok (ofInt (word a ^^^ word b).toInt) ∧
    x.bitNot = .ok (ofInt (~~~ word a).toInt) ∧
    x.shiftLeft y = .ok (ofInt (word a <<< shiftCount b).toInt) ∧
    x.shiftRight y = .ok (ofInt ((word a).sshiftRight (shiftCount b)).toInt) ∧
    x.shiftRightUnsigned y = .ok (ofInt (word a >>> shiftCount b).toNat) := by
  have hx := hx.toInteger ha
  have hy := hy.toInteger hb
  exact ⟨⟨_, toInt32_of_toInteger hx, isSigned32_word a, fun r' h => h.unique (isSigned32_word a)⟩,
    ⟨_, toUint32_of_toInteger hx, toNat_word a⟩, bitwise_eq_word word_intAnd hx hy,
    bitwise_eq_word word_intOr hx hy, bitwise_eq_word word_intXor hx hy, bitNot_eq_word hx,
    shiftLeft_eq_word hx hy, shiftRight_eq_word hx hy, shiftRightUnsigned_eq_word hx hy⟩

/-- A negative operand, and a count past the width. -/
theorem bit_operations_on_words_negative :
    (ofInt (-5)).IsWhole (-5) ∧ (ofInt 33).IsWhole 33 ∧
    (-5 : Int).natAbs < Nat.pow 2 1023 ∧ (33 : Int).natAbs < Nat.pow 2 1023 ∧
    (∃ r, (ofInt (-5)).toInt32 = .ok r ∧ IsSigned32 (-5) r) ∧
    (ofInt (-5)).shiftLeft (ofInt 33) = .ok (ofInt (-10)) ∧
    (ofInt (-5)).shiftRight (ofInt 33) = .ok (ofInt (-3)) ∧
    (ofInt (-5)).shiftRightUnsigned (ofInt 33) = .ok (ofInt 0x7FFFFFFD) := by
  have hleft := isWhole_ofInt (-5)
  have hright := isWhole_ofInt 33
  have hsmall : (-5 : Int).natAbs < Nat.pow 2 1023 := by
    apply natAbs_lt_pow
    decide
  have hsmall' : (33 : Int).natAbs < Nat.pow 2 1023 := by
    apply natAbs_lt_pow
    decide
  obtain ⟨⟨r, hr, hsigned, -⟩, -, -, -, -, -, hshl, hshr, hushr⟩ :=
    bit_operations_on_words (a := -5) (b := 33) hleft hright hsmall hsmall'
  exact ⟨hleft, hright, hsmall, hsmall', ⟨r, hr, hsigned⟩, hshl, hshr, hushr⟩

end Value

end Descramble

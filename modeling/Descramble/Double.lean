/-!
# Binary64 numbers

The finite non-negative doubles, listed in increasing order, are numbered from zero; the number
of a double is its *rank*.  Every finite double is an integral multiple of the *unit* `2^-1074`, so
all arithmetic here is exact arithmetic on natural numbers of units followed by one rounding.

* `Double` — a NaN, a signed infinity, or a signed rank.
* `Double.unitsOfRank` — the size of a rank in units.
* `Double.nearestRank` — the rank nearest to a ratio of units, a tie going to the even rank.
* `Double.ofRatio` — rounding to a double; ranks past the last finite one become infinite.
* `add`, `mul`, `div`, `fmod`, `sqrt`, `lt`, `le`, `eq` — the arithmetic and the comparisons.

Principal results: `unitsOfRank_of_lt`, `ofBits_toBits_finite`.
-/

set_option autoImplicit false

namespace Descramble

/-- The number of doubles between two powers of two, `2^52`. -/
abbrev Double.binadeSize : Nat := 0x10000000000000

/-- The number of finite non-negative doubles. -/
abbrev Double.rankBound : Nat := 2047 * Double.binadeSize

/-- A binary64 number.  The payload and the sign of a NaN are not kept. -/
inductive Double where
  | nan
  | infinite (negative : Bool)
  | finite (negative : Bool) (rank : Fin Double.rankBound)
  deriving DecidableEq, Repr

namespace Double

/-! ## Ranks and units -/

/-- Units in the number one: `2^1074`. -/
abbrev oneUnits : Nat := Nat.pow 2 1074

/-- The size, in units, of the double with a given rank. -/
def unitsOfRank (rank : Nat) : Nat :=
  if rank < binadeSize then rank
  else (binadeSize + rank % binadeSize) * Nat.pow 2 (rank / binadeSize - 1)

theorem unitsOfRank_of_lt {rank : Nat} (h : rank < binadeSize) : unitsOfRank rank = rank :=
  if_pos h

/-- The rank nearest to `num / den` units; a value half-way between two ranks goes to the even one.
The answer may lie at or past `rankBound`. -/
def nearestRank (num den : Nat) : Nat :=
  let shift := (num / den).log2 - 52
  let scale := den * Nat.pow 2 shift
  let low := num / scale
  let rest := num % scale
  let up := if scale < 2 * rest || (2 * rest == scale && low % 2 == 1) then 1 else 0
  low + up + shift * binadeSize

/-- The double with a sign and a rank, infinite when the rank is too high. -/
def ofRank (negative : Bool) (rank : Nat) : Double :=
  if h : rank < rankBound then .finite negative ⟨rank, h⟩ else .infinite negative

/-- The double nearest to `num / den` units with the given sign. -/
def ofRatio (negative : Bool) (num den : Nat) : Double :=
  ofRank negative (nearestRank num den)

/-- The double nearest to an integral number of units; a zero is positive. -/
def ofUnits (units : Int) : Double :=
  ofRatio (decide (units < 0)) units.natAbs 1

/-- The double nearest to an integer. -/
def ofInt (n : Int) : Double :=
  ofUnits (n * oneUnits)

/-- The zero with a sign. -/
def signedZero (negative : Bool) : Double := .finite negative ⟨0, by decide⟩

def zero : Double := signedZero false

def negZero : Double := signedZero true

def one : Double := ofInt 1

/-- The value of a finite double as a signed number of units. -/
def signedUnits (negative : Bool) (rank : Nat) : Int :=
  if negative then -(unitsOfRank rank : Int) else unitsOfRank rank

/-! ## Classification -/

def isNaN : Double → Bool
  | .nan => true
  | _ => false

def isFinite : Double → Bool
  | .finite _ _ => true
  | _ => false

/-- Positive and negative zero. -/
def isZero : Double → Bool
  | .finite _ rank => rank.val == 0
  | _ => false

/-- The sign bit; a NaN counts as positive. -/
def isNegative : Double → Bool
  | .nan => false
  | .infinite negative => negative
  | .finite negative _ => negative

def isNegZero (d : Double) : Bool := d.isZero && d.isNegative

/-- The integral part of a finite double, rounded toward zero. -/
def truncate? : Double → Option Int
  | .finite negative rank =>
    let whole : Int := (unitsOfRank rank / oneUnits : Nat)
    some (if negative then -whole else whole)
  | _ => none

/-- The greatest integer that is not above a finite double. -/
def floor? : Double → Option Int
  | .finite negative rank => some ((signedUnits negative rank).fdiv oneUnits)
  | _ => none

/-- The least integer that is not below a finite double. -/
def ceil? : Double → Option Int
  | .finite negative rank => some (-((-(signedUnits negative rank)).fdiv oneUnits))
  | _ => none

/-- Does a finite double have no fractional part? -/
def isInteger : Double → Bool
  | .finite _ rank => unitsOfRank rank % oneUnits == 0
  | _ => false

/-! ## Bit patterns -/

/-- The bit of the sign, `2^63`. -/
abbrev signBit : Nat := 0x8000000000000000

/-- The 64-bit pattern; a NaN has its quiet form. -/
def toBits : Double → Nat
  | .nan => 0x7ff8000000000000
  | .infinite negative => (if negative then signBit else 0) + rankBound
  | .finite negative rank => (if negative then signBit else 0) + rank

/-- The double with a 64-bit pattern. -/
def ofBits (bits : Nat) : Double :=
  let negative := decide (signBit ≤ bits % (2 * signBit))
  let rank := bits % signBit
  if rankBound < rank then .nan else ofRank negative rank

theorem ofBits_toBits_finite (negative : Bool) (rank : Fin rankBound) :
    ofBits (toBits (.finite negative rank)) = .finite negative rank := by
  obtain ⟨r, h⟩ := rank
  have hs : signBit = 9223372036854775808 := rfl
  have hb : rankBound = 9218868437227405312 := rfl
  have h4 : ¬ rankBound < r := by omega
  cases negative with
  | false =>
    have h1 : r % signBit = r := Nat.mod_eq_of_lt (by omega)
    have h2 : r % (2 * signBit) = r := Nat.mod_eq_of_lt (by omega)
    have h3 : ¬ signBit ≤ r := by omega
    simp only [ofBits, toBits, ofRank, Nat.zero_add, h1, h2, h3, h4, h, if_false, dite_true,
      decide_false, Bool.false_eq_true]
  | true =>
    have h1 : (signBit + r) % signBit = r := by
      rw [Nat.add_mod_left, Nat.mod_eq_of_lt (by omega)]
    have h2 : signBit ≤ (signBit + r) % (2 * signBit) := by
      rw [Nat.mod_eq_of_lt (by omega)]
      omega
    simp only [ofBits, toBits, ofRank, h1, h2, h4, h, if_true, if_false, dite_true, decide_true]

/-! ## Arithmetic -/

def neg : Double → Double
  | .nan => .nan
  | .infinite negative => .infinite (!negative)
  | .finite negative rank => .finite (!negative) rank

def abs : Double → Double
  | .nan => .nan
  | .infinite _ => .infinite false
  | .finite _ rank => .finite false rank

/-- Addition.  A sum of zeros is negative only if both are. -/
def add : Double → Double → Double
  | .nan, _ => .nan
  | _, .nan => .nan
  | .infinite s, .infinite t => if s = t then .infinite s else .nan
  | .infinite s, .finite _ _ => .infinite s
  | .finite _ _, .infinite t => .infinite t
  | .finite s a, .finite t b =>
    let sum := signedUnits s a + signedUnits t b
    if sum = 0 then signedZero (s && t) else ofUnits sum

def sub (a b : Double) : Double := add a (neg b)

def mul : Double → Double → Double
  | .nan, _ => .nan
  | _, .nan => .nan
  | .infinite s, .infinite t => .infinite (s != t)
  | .infinite s, .finite t b => if b.val = 0 then .nan else .infinite (s != t)
  | .finite s a, .infinite t => if a.val = 0 then .nan else .infinite (s != t)
  | .finite s a, .finite t b => ofRatio (s != t) (unitsOfRank a * unitsOfRank b) oneUnits

def div : Double → Double → Double
  | .nan, _ => .nan
  | _, .nan => .nan
  | .infinite _, .infinite _ => .nan
  | .infinite s, .finite t _ => .infinite (s != t)
  | .finite s _, .infinite t => signedZero (s != t)
  | .finite s a, .finite t b =>
    if b.val = 0 then (if a.val = 0 then .nan else .infinite (s != t))
    else ofRatio (s != t) (unitsOfRank a * oneUnits) (unitsOfRank b)

/-- The remainder of truncated division; it has the sign of the dividend. -/
def fmod : Double → Double → Double
  | .nan, _ => .nan
  | _, .nan => .nan
  | .infinite _, _ => .nan
  | .finite s a, .infinite _ => .finite s a
  | .finite s a, .finite _ b =>
    if b.val = 0 then .nan else ofRatio s (unitsOfRank a % unitsOfRank b) 1

/-! ## Comparison -/

/-- The place of a double in the numeric order; a NaN has none. -/
def place? : Double → Option Int
  | .nan => none
  | .infinite negative => some (if negative then -(rankBound : Int) else rankBound)
  | .finite negative rank => some (if negative then -(rank.val : Int) else rank.val)

/-- Compares places; every comparison with a NaN fails. -/
def compareBy (test : Int → Int → Bool) (a b : Double) : Bool :=
  match a.place?, b.place? with
  | some x, some y => test x y
  | _, _ => false

def lt (a b : Double) : Bool := compareBy (fun x y => decide (x < y)) a b

def le (a b : Double) : Bool := compareBy (fun x y => decide (x ≤ y)) a b

/-- Numeric equality: the two zeros are equal, and a NaN equals nothing. -/
def eq (a b : Double) : Bool := compareBy (fun x y => decide (x = y)) a b

/-! ## Square roots -/

/-- The integral square root of `n`, for `n < 4^digits`, found one base-four digit at a time. -/
def rootOfDigits : Nat → Nat → Nat
  | 0, _ => 0
  | digits + 1, n =>
    let root := 2 * rootOfDigits digits (n / 4)
    if (root + 1) * (root + 1) ≤ n then root + 1 else root

/-- The greatest `r` with `r * r ≤ n`. -/
def isqrt (n : Nat) : Nat := rootOfDigits (n.log2 / 2 + 1) n

/-- The correctly rounded square root; a negative number other than zero has none. -/
def sqrt : Double → Double
  | .nan => .nan
  | .infinite negative => if negative then .nan else .infinite false
  | .finite negative rank =>
    if rank.val = 0 then .finite negative rank
    else if negative then .nan
    else
      -- 64 more binary places than the unit, and one sticky place that breaks false ties
      let scaled := unitsOfRank rank * Nat.pow 2 (1074 + 128)
      let root := isqrt scaled
      let sticky := if root * root = scaled then 0 else 1
      ofRatio false (2 * root + sticky) (Nat.pow 2 65)

end Double

end Descramble

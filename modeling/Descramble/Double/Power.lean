import Descramble.Double

/-!
# Powers of doubles

A power is computed with numbers of 320 significant bits and rounded once at the end.  An exponent
with a fractional part is handled through repeated square roots: the binary digits of the fraction
select which roots are multiplied.  A result that is a double, or lies half-way between two, is
computed without loss, so that the last rounding sees it exactly.

* `Wide` — a natural number scaled by a power of two, cut to 320 bits.
* `Double.pow?` — the power, or `none` where it has no finite value: a pole, an overflow, or a
  fractional power of a negative number.
-/

set_option autoImplicit false

namespace Descramble

/-- The number `digits * 2 ^ exponent`. -/
structure Wide where
  digits : Nat
  exponent : Int
  deriving DecidableEq, Repr

namespace Wide

/-- Significant bits that are kept. -/
def precision : Nat := 320

/-- Drops the bits past the precision. -/
def cut (w : Wide) : Wide :=
  let excess := w.digits.log2 + 1 - precision
  ⟨w.digits >>> excess, w.exponent + excess⟩

def one : Wide := ⟨1, 0⟩

def mul (a b : Wide) : Wide := cut ⟨a.digits * b.digits, a.exponent + b.exponent⟩

/-- The square root, cut to the precision. -/
def sqrt (w : Wide) : Wide :=
  -- widen to twice the precision, with an even exponent
  let widening := 2 * precision - (w.digits.log2 + 1)
  let shift := if (w.exponent - widening) % 2 = 0 then widening else widening + 1
  cut ⟨Double.isqrt (w.digits <<< shift), (w.exponent - shift) / 2⟩

/-- The number to a natural power, by repeated squaring; `bits` bounds the length of `n`. -/
def pow (w : Wide) : (bits : Nat) → (n : Nat) → Wide
  | 0, _ => one
  | bits + 1, n =>
    let half := pow w bits (n / 2)
    let square := mul half half
    if n % 2 = 1 then mul square w else square

/-- The product of the roots `w^(1/2)`, `w^(1/4)`, … selected by the first `places` binary digits
of the fraction `num / den`. -/
def fractional (w : Wide) (den : Nat) : (places : Nat) → (num : Nat) → Wide
  | 0, _ => one
  | places + 1, num =>
    if num = 0 then one
    else
      let root := sqrt w
      if den ≤ 2 * num then mul root (fractional root den places (2 * num - den))
      else fractional root den places (2 * num)

/-- The double nearest to the number, or to its reciprocal. -/
def toDouble (negative reciprocal : Bool) (w : Wide) : Double :=
  let exponent : Int := if reciprocal then 1074 - w.exponent else w.exponent + 1074
  let up := Nat.pow 2 exponent.toNat
  let down := Nat.pow 2 (-exponent).toNat
  if reciprocal then Double.ofRatio negative up (w.digits * down)
  else Double.ofRatio negative (w.digits * up) down

end Wide

namespace Double

/-- A positive finite double as a wide number with an odd significand. -/
def toWide (rank : Nat) : Wide :=
  let units := unitsOfRank rank
  let twos := (units ^^^ (units - 1)).log2
  ⟨units >>> twos, twos - 1074⟩

/-- Is the double an odd integer? -/
def isOddInteger (d : Double) : Bool :=
  d.isInteger && (match d.truncate? with
    | some n => n % 2 == 1
    | none => false)

/-- The power of a positive finite base other than one to a finite non-zero exponent, where
`none` is an overflow.  Exponents of a magnitude that certainly overflows or vanishes are settled
first. -/
def powPositive? (negative : Bool) (base : Nat) (exponentNegative : Bool) (exponent : Nat) :
    Option Double :=
  let w := toWide base
  let units := unitsOfRank exponent
  let whole := units / oneUnits
  let fraction := units % oneUnits
  -- the base lies between 2^size and 2^(size + 1)
  let size : Int := w.exponent + w.digits.log2
  let growing : Bool := decide (0 ≤ size) != exponentNegative
  let leastSize : Nat := if 0 ≤ size then size.natAbs else (size + 1).natAbs
  if 2000 < leastSize * whole then
    if growing then none else some (signedZero negative)
  else
    let power := Wide.mul (w.pow (whole.log2 + 1) whole) (w.fractional oneUnits 140 fraction)
    match power.toDouble negative exponentNegative with
    | .finite s r => some (.finite s r)
    | _ => none

/-- The power of two doubles; `none` at a pole, on overflow and for a fractional power of a
negative number.  It is the double nearest to the power.  The power function of a platform need not
round so, and may differ from it in the last place, as it can at `3 ^ 34`. -/
def pow? (base exponent : Double) : Option Double :=
  if exponent.isZero || base.eq one then some one
  else
    match base, exponent with
    | .nan, _ => some .nan
    | _, .nan => some .nan
    | .infinite s, .finite t y =>
      let negative := s && isOddInteger (.finite t y)
      some (if t then signedZero negative else .infinite negative)
    | .infinite _, .infinite t =>
      some (if t then zero else .infinite false)
    | .finite _ x, .infinite t =>
      if x.val = one.toBits then some one
      else if (decide (x.val < one.toBits)) = t then some (.infinite false) else some zero
    | .finite s x, .finite t y =>
      let odd := isOddInteger (.finite t y)
      if x.val = 0 then
        if t then none else some (signedZero (s && odd))
      else if s && !isInteger (.finite t y) then none
      else if x.val = one.toBits then some (.finite (s && odd) x)
      else powPositive? (s && odd) x t y

end Double

end Descramble

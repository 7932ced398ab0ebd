import Descramble.Double

/-!
# Decimal digits of a double

* `Decimal` — a natural number scaled by a power of ten.
* `Double.ofDecimal` — the double nearest to a decimal.
* `Double.shortest` — the decimal with the fewest digits that reads back as the double, the nearest
  such decimal when there are two, the even one when they are equally near.
* `Decimal.layout` — the digits written out, positionally or with an exponent, as a `DecimalStyle`
  says.
* `Double.text` — the default text of a double: `0.1`, `1e-07`, `12.0`, `inf`.
-/

set_option autoImplicit false

namespace Descramble

/-- The number `digits * 10 ^ exponent`. -/
structure Decimal where
  digits : Nat
  exponent : Int
  deriving DecidableEq, Repr

/-- The decimal spelling of a natural number, without leading zeros. -/
def digitsOf (n : Nat) : List Char := Nat.toDigits 10 n

/-- The decimal spelling of an integer. -/
def intText (n : Int) : String :=
  if n < 0 then String.ofList ('-' :: digitsOf n.natAbs) else String.ofList (digitsOf n.natAbs)

/-- Drops trailing zeros from the digits; `fuel` bounds the number of zeros dropped. -/
def Decimal.strip : Nat → Decimal → Decimal
  | 0, d => d
  | fuel + 1, d =>
    if d.digits ≠ 0 ∧ d.digits % 10 = 0 then
      Decimal.strip fuel ⟨d.digits / 10, d.exponent + 1⟩
    else d

namespace Double

/-! ## Reading -/

/-- The double nearest to a decimal.  Exponents that are far outside the range of doubles are
settled without computing the power of ten. -/
def ofDecimal (negative : Bool) (d : Decimal) : Double :=
  if d.digits = 0 then signedZero negative
  else if 400 < d.exponent then .infinite negative
  else if d.exponent + (digitsOf d.digits).length < -400 then signedZero negative
  else if 0 ≤ d.exponent then
    ofRatio negative (d.digits * Nat.pow 10 d.exponent.toNat * oneUnits) 1
  else ofRatio negative (d.digits * oneUnits) (Nat.pow 10 (-d.exponent).toNat)

/-! ## Shortest digits -/

/-- The number of digits before the decimal point of `units`; at most zero for numbers below
`1/10`. -/
def pointPosition (units : Nat) : Int :=
  if oneUnits ≤ units then (digitsOf (units / oneUnits)).length
  else
    let ceiling := (oneUnits + units - 1) / units
    1 - (digitsOf (ceiling - 1)).length

/-- The decimal with `count` digits that reads back as the double of the given rank, if there is
one: of the two neighbours on the decimal grid the one that does, or the nearer of both. -/
def withDigits? (rank : Nat) (count : Nat) : Option Decimal :=
  let units := unitsOfRank rank
  let exponent := pointPosition units - count
  let scale := Nat.pow 10 (-exponent).toNat
  let grid := oneUnits * Nat.pow 10 exponent.toNat
  let low := units * scale / grid
  let rest := units * scale % grid
  let lower := (unitsOfRank (rank - 1) + units) * scale
  let upper := (units + unitsOfRank (rank + 1)) * scale
  let readsBack (c : Nat) : Bool :=
    if rank % 2 = 0 then decide (lower ≤ 2 * c * grid) && decide (2 * c * grid ≤ upper)
    else decide (lower < 2 * c * grid) && decide (2 * c * grid < upper)
  match readsBack low, readsBack (low + 1) with
  | true, true =>
    if 2 * rest < grid || (2 * rest == grid && low % 2 == 0) then some ⟨low, exponent⟩
    else some ⟨low + 1, exponent⟩
  | true, false => some ⟨low, exponent⟩
  | false, true => some ⟨low + 1, exponent⟩
  | false, false => none

/-- The shortest decimal that reads back as the double of a positive rank.  Seventeen digits always
suffice. -/
def shortest (rank : Nat) : Decimal :=
  match (List.range 17).findSome? (fun k => withDigits? rank (k + 1)) with
  | some d => d.strip 20
  | none => ⟨0, 0⟩

end Double

/-! ## Writing -/

/-- How a decimal is spelled: the range of point positions that are written positionally, whether
a whole number keeps `.0`, and the least number of exponent digits. -/
structure DecimalStyle where
  leastPoint : Int
  greatestPoint : Int
  keepPoint : Bool
  exponentDigits : Nat
  deriving DecidableEq, Repr

/-- The digits with the point put at its position. -/
def Decimal.positional (keepPoint : Bool) (d : Decimal) : List Char :=
  let digits := digitsOf d.digits
  let point : Int := digits.length + d.exponent
  if point ≤ 0 then '0' :: '.' :: (List.replicate (-point).toNat '0' ++ digits)
  else if 0 ≤ d.exponent then
    digits ++ List.replicate d.exponent.toNat '0' ++ (if keepPoint then ['.', '0'] else [])
  else digits.take point.toNat ++ '.' :: digits.drop point.toNat

/-- One digit, the point, the other digits, and the exponent with its sign. -/
def Decimal.scientific (exponentDigits : Nat) (d : Decimal) : List Char :=
  let digits := digitsOf d.digits
  let power : Int := digits.length + d.exponent - 1
  let mantissa := match digits with
    | [] => []
    | [c] => [c]
    | c :: rest => c :: '.' :: rest
  let powerDigits := digitsOf power.natAbs
  let padding := List.replicate (exponentDigits - powerDigits.length) '0'
  mantissa ++ 'e' :: (if power < 0 then '-' else '+') :: (padding ++ powerDigits)

/-- The text of a decimal in a style. -/
def Decimal.layout (style : DecimalStyle) (d : Decimal) : List Char :=
  let point : Int := (digitsOf d.digits).length + d.exponent
  if style.leastPoint ≤ point ∧ point ≤ style.greatestPoint then d.positional style.keepPoint
  else d.scientific style.exponentDigits

/-- Numbers are positional from `0.0001` up to sixteen digits before the point, whole numbers end
in `.0`, and an exponent has two digits at least. -/
def Double.plainStyle : DecimalStyle := ⟨-3, 16, true, 2⟩

/-- The text of a double. -/
def Double.text : Double → String
  | .nan => "nan"
  | .infinite negative => if negative then "-inf" else "inf"
  | .finite negative rank =>
    let body := if rank.val = 0 then ['0', '.', '0'] else (shortest rank).layout plainStyle
    String.ofList (if negative then '-' :: body else body)

end Descramble

import Descramble.Unicode.Ranges

/-!
# Digits and blanks

* `Unicode.decimalValue?` — the value of a decimal digit of any script.
* `Unicode.isDigit` — decimal digits and the digits that have no place value, such as superscripts.
* `Unicode.isSpace` — blanks.
-/

set_option autoImplicit false

namespace Descramble.Unicode

/-- The zeros of the decimal systems; the other nine digits follow each zero. -/
def decimalZeros : List Nat := [
  48, 1632, 1776, 1984, 2406, 2534, 2662, 2790, 2918, 3046, 3174, 3302, 3430, 3558, 3664, 3792,
  3872, 4160, 4240, 6112, 6160, 6470, 6608, 6784, 6800, 6992, 7088, 7232, 7248, 42528, 43216,
  43264, 43472, 43504, 43600, 44016, 65296, 66720, 68912, 69734, 69872, 69942, 70096, 70384, 70736,
  70864, 71248, 71360, 71472, 71904, 72016, 72784, 73040, 73120, 92768, 92864, 93008, 120782,
  120792, 120802, 120812, 120822, 123200, 123632, 125264, 130032]

/-- The value of a decimal digit. -/
def decimalValue? (c : Char) : Option Nat :=
  (decimalZeros.find? (fun z => z ≤ c.toNat && c.toNat < z + 10)).map (c.toNat - ·)

def isDecimal (c : Char) : Bool := (decimalValue? c).isSome

/-- Digits that are not part of a decimal system. -/
def placelessDigits : List Nat := [
  178, 180, 185, 186, 4969, 4978, 6618, 6619, 8304, 8305, 8308, 8314, 8320, 8330, 9312, 9321, 9332,
  9341, 9352, 9361, 9450, 9451, 9461, 9470, 9471, 9472, 10102, 10111, 10112, 10121, 10122, 10131,
  68160, 68164, 69216, 69225, 69714, 69723, 127232, 127243]

def isDigit (c : Char) : Bool := isDecimal c || inRanges placelessDigits c.toNat

/-- Blanks: white space and the four information separators. -/
def spaceBoundaries : List Nat := [
  9, 14, 28, 33, 133, 134, 160, 161, 5760, 5761, 8192, 8203, 8232, 8234, 8239, 8240, 8287, 8288,
  12288, 12289]

def isSpace (c : Char) : Bool := inRanges spaceBoundaries c.toNat

end Descramble.Unicode

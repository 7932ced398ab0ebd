import Descramble.Unicode.Digit
import Descramble.Unicode.Identifier

/-!
# Letters and numbers

* `Unicode.isAlphanumeric` — letters and numbers of any script, and the underscore.
-/

set_option autoImplicit false

namespace Descramble.Unicode

/-- Numbers that are neither letters nor digits of a decimal system, such as fractions. -/
def furtherNumbers : List Nat := [
  178, 180, 185, 186, 188, 191, 2548, 2554, 2930, 2936, 3056, 3059, 3192, 3199, 3416, 3423, 3440,
  3449, 3882, 3892, 4969, 4989, 6128, 6138, 6618, 6619, 8304, 8305, 8308, 8314, 8320, 8330, 8528,
  8544, 8585, 8586, 9312, 9372, 9450, 9472, 10102, 10132, 11517, 11518, 12690, 12694, 12832, 12842,
  12872, 12880, 12881, 12896, 12928, 12938, 12977, 12992, 43056, 43062, 65799, 65844, 65909, 65913,
  65930, 65932, 66273, 66300, 66336, 66340, 67672, 67680, 67705, 67712, 67751, 67760, 67835, 67840,
  67862, 67868, 68028, 68030, 68032, 68048, 68050, 68096, 68160, 68169, 68221, 68223, 68253, 68256,
  68331, 68336, 68440, 68448, 68472, 68480, 68521, 68528, 68858, 68864, 69216, 69247, 69405, 69415,
  69457, 69461, 69573, 69580, 69714, 69734, 70113, 70133, 71482, 71484, 71914, 71923, 72794, 72813,
  73664, 73685, 93019, 93026, 93824, 93847, 119520, 119540, 119648, 119673, 125127, 125136, 126065,
  126124, 126125, 126128, 126129, 126133, 126209, 126254, 126255, 126270, 127232, 127245]

/-- Characters that start names without being letters. -/
def nameMarks : List Nat := [36, 6277, 6278, 8472, 8494, 12443, 12444]

/-- Is the character a letter, a number or the underscore? -/
def isAlphanumeric (c : Char) : Bool :=
  (isIdStart c && !nameMarks.contains c.toNat) || isDecimal c || inRanges furtherNumbers c.toNat

end Descramble.Unicode

import Descramble.Double.Decimal

/-!
# Reasons why a computation on values has no result

* `Fault` — the causes.
* `Fault.message?` — the wording, for the causes that have one.
-/

set_option autoImplicit false

namespace Descramble

/-- The greatest length of a text that a concatenation may produce. -/
def maxTextLength : Nat := 100000

/-- The greatest magnitude of an exponent that is evaluated. -/
def maxPower : Nat := 4000000

/-- Why an operation on values failed. -/
inductive Fault where
  /-- A value outside the model was converted. -/
  | foreign
  /-- Arrays have no order and no equality with other values. -/
  | objectComparison
  /-- A character code is one half of a pair. -/
  | surrogate
  /-- The receiver has no such method. -/
  | noMethod (name : String)
  /-- The receiver has no such member; the key is given as a diagnostic shows it. -/
  | noMember (shownKey : String)
  /-- A concatenation is longer than `maxTextLength`. -/
  | textTooLong (length : Nat)
  /-- An exponent is beyond `maxPower`. -/
  | powerTooHigh (base exponent : Double)
  /-- A function was called with a number of arguments that it does not take. -/
  | arity
  /-- An array was given as the name of a method. -/
  | arrayName
  /-- An exact integer is too large for a double. -/
  | integerTooLarge
  /-- A key of digits has a digit without place value. -/
  | placelessDigit
  /-- A call of the decoder is to be resolved while the offset of its table is not known. -/
  | noOffset
  deriving DecidableEq, Repr

/-- The wording of a fault; some have none. -/
def Fault.message? : Fault → Option String
  | .foreign => none
  | .objectComparison => some "object comparison"
  | .surrogate => some "surrogate code unit"
  | .noMethod name => some ("method " ++ name)
  | .noMember shownKey => some ("member " ++ shownKey)
  | .textTooLong length =>
    some ("String Length (" ++ intText length ++ ") exceeds MAX_STRING_LENGTH (" ++
      intText maxTextLength ++ ")")
  | .powerTooHigh base exponent =>
    some ("Sorry! I don't want to evaluate " ++ base.text ++ " ** " ++ exponent.text)
  | .arity => none
  | .arrayName => none
  | .integerTooLarge => some "int too large to convert to float"
  | .placelessDigit => none
  | .noOffset => none

end Descramble

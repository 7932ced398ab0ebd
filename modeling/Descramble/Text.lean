/-!
# Texts as lists of characters

Cutting, searching and joining, by recursion on the text.

* `Text.trimStart`, `Text.trim` — remove characters of a class from the ends.
* `Text.splitOn` — the pieces between the leftmost non-overlapping occurrences of a separator.
* `Text.findFrom?` — the first place at or after a start where a text occurs.
* `Text.isBlank` — the blanks that script code ignores around numbers.
-/

set_option autoImplicit false

namespace Descramble.Text

/-- Removes the longest start made of characters of a class. -/
def trimStart (drop : Char → Bool) (cs : List Char) : List Char := cs.dropWhile drop

/-- Removes the longest start and the longest end made of characters of a class. -/
def trim (drop : Char → Bool) (cs : List Char) : List Char :=
  ((cs.dropWhile drop).reverse.dropWhile drop).reverse

/-- Blank, tab, line feed, carriage return, vertical tab, form feed, no-break space, byte order
mark, line and paragraph separator. -/
def isBlank (c : Char) : Bool :=
  c == ' ' || c == '\t' || c == '\n' || c == '\r' || c == '\x0b' || c == '\x0c' || c == '\u00a0' ||
    c == '\ufeff' || c == '\u2028' || c == '\u2029'

/-- The scan behind `splitOn`: `skip` characters of a separator are still to be passed, and
`piece` holds the current piece in reverse. -/
def splitScan (separator : List Char) : (skip : Nat) → (piece : List Char) → List Char →
    List (List Char)
  | _, piece, [] => [piece.reverse]
  | skip + 1, piece, _ :: rest => splitScan separator skip piece rest
  | 0, piece, c :: rest =>
    if separator.isPrefixOf (c :: rest) then
      piece.reverse :: splitScan separator (separator.length - 1) [] rest
    else splitScan separator 0 (c :: piece) rest

/-- The pieces of a text between the occurrences of a non-empty separator. -/
def splitOn (separator cs : List Char) : List (List Char) := splitScan separator 0 [] cs

/-- The first place, counted from `place`, where `needle` occurs. -/
def findAt? (needle : List Char) : (place : Nat) → List Char → Option Nat
  | place, [] => if needle.isEmpty then some place else none
  | place, c :: rest =>
    if needle.isPrefixOf (c :: rest) then some place else findAt? needle (place + 1) rest

/-- The first place at or after `start` where `needle` occurs. -/
def findFrom? (needle : List Char) (start : Nat) (cs : List Char) : Option Nat :=
  findAt? needle start (cs.drop start)

/-- Does `needle` occur in the text? -/
def contains (needle cs : List Char) : Bool := (findAt? needle 0 cs).isSome

/-- The texts with a separator between them. -/
def joinWith (separator : List Char) : List (List Char) → List Char
  | [] => []
  | [piece] => piece
  | piece :: rest => piece ++ separator ++ joinWith separator rest

/-- A hexadecimal digit. -/
def hexDigit (upper : Bool) (n : Nat) : Char :=
  if n < 10 then Char.ofNat (48 + n) else Char.ofNat ((if upper then 55 else 87) + n)

/-- The last `width` hexadecimal digits of a number. -/
def hexDigits (upper : Bool) : (width : Nat) → Nat → List Char
  | 0, _ => []
  | width + 1, n => hexDigits upper width (n / 16) ++ [hexDigit upper (n % 16)]

end Descramble.Text

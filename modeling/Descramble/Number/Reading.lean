import Descramble.Number
import Descramble.Text
import Descramble.Unicode.Digit

/-!
# Numbers from text

* `IntegerText.read?` — an integer in a base: blanks around it, a sign, a base prefix, single
  underscores between digits, and decimal digits of any script.
* `DecimalText.scan?` — the longest decimal at the start of a text.
* `Number.ofText` — the number that a text converts to.
* `Number.parseInteger`, `Number.parseDecimal` — the number at the start of a text.
-/

set_option autoImplicit false

namespace Descramble

/-! ## Integers in a base -/

namespace IntegerText

/-- The value of an ASCII digit or letter as a digit. -/
def digitValue? (c : Char) : Option Nat :=
  if c.isDigit then some (c.toNat - 48)
  else if c.isLower then some (c.toNat - 87)
  else if c.isUpper then some (c.toNat - 55)
  else none

/-- The value of a digit below the base. -/
def digitIn? (base : Nat) (c : Char) : Option Nat :=
  (digitValue? c).filter (· < base)

/-- The positional value of digits, after a number already read; `none` if one is no digit. -/
def positional? (base : Nat) : (value : Nat) → List Char → Option Nat
  | value, [] => some value
  | value, c :: rest => do positional? base (value * base + (← digitIn? base c)) rest

/-- The positional value of digits in which single underscores may stand between two digits. -/
def grouped? (base : Nat) : (value : Nat) → List Char → Option Nat
  | _, [] => none
  | value, [c] => (digitIn? base c).map (value * base + ·)
  | value, c :: '_' :: rest => do grouped? base (value * base + (← digitIn? base c)) rest
  | value, c :: d :: rest => do grouped? base (value * base + (← digitIn? base c)) (d :: rest)

/-- The ASCII form of a character: digits of other scripts become digits, other blanks a space. -/
def asciiForm (c : Char) : Char :=
  if c.toNat < 127 then c
  else if Unicode.isSpace c then ' '
  else
    match Unicode.decimalValue? c with
    | some n => Char.ofNat (48 + n)
    | none => '?'

/-- Blanks around an integer. -/
def isBlank (c : Char) : Bool := c == ' ' || (9 ≤ c.toNat && c.toNat ≤ 13)

/-- The letter of the prefix of a base, for the bases that have one. -/
def prefixLetter? : Nat → Option Char
  | 16 => some 'x'
  | 8 => some 'o'
  | 2 => some 'b'
  | _ => none

/-- Removes the prefix of the base, and one underscore after it. -/
def dropBase (base : Nat) : List Char → List Char
  | '0' :: c :: rest =>
    if prefixLetter? base = some c.toLower then
      match rest with
      | '_' :: digits => digits
      | digits => digits
    else '0' :: c :: rest
  | cs => cs

/-- The digits after the sign. -/
def magnitude? (base : Nat) (cs : List Char) : Option Nat := grouped? base 0 (dropBase base cs)

/-- The integer that a whole text spells in a base. -/
def read? (base : Nat) (cs : List Char) : Option Int :=
  match Text.trim isBlank (cs.map asciiForm) with
  | '-' :: rest => (magnitude? base rest).map (fun n => -(n : Int))
  | '+' :: rest => (magnitude? base rest).map (fun n => (n : Int))
  | rest => (magnitude? base rest).map (fun n => (n : Int))

end IntegerText

/-! ## Decimals -/

namespace DecimalText

/-- A signed decimal and the text after it. -/
structure Scan where
  negative : Bool
  decimal : Decimal
  rest : List Char
  deriving DecidableEq, Repr

/-- The longest start made of decimal digits of any script, as values, and the rest. -/
def digits : List Char → List Nat × List Char
  | [] => ([], [])
  | c :: rest =>
    match Unicode.decimalValue? c with
    | some n => let (ns, after) := digits rest; (n :: ns, after)
    | none => ([], c :: rest)

/-- The number spelled by decimal digits. -/
def value (ns : List Nat) : Nat := ns.foldl (fun v n => 10 * v + n) 0

/-- An exponent, if one follows. -/
def exponentPart (cs : List Char) : Int × List Char :=
  match cs with
  | c :: rest =>
    if c == 'e' || c == 'E' then
      let (negative, body) : Bool × List Char := match rest with
        | '-' :: body => (true, body)
        | '+' :: body => (false, body)
        | body => (false, body)
      match digits body with
      | ([], _) => (0, cs)
      | (ns, after) => (if negative then -(value ns : Int) else value ns, after)
    else (0, cs)
  | [] => (0, [])

/-- An unsigned decimal at the start of a text: digits with an optional fraction, or a fraction. -/
def unsigned? (negative : Bool) (cs : List Char) : Option Scan :=
  let finish (whole fraction : List Nat) (after : List Char) : Scan :=
    let (exponent, rest) := exponentPart after
    ⟨negative, ⟨value (whole ++ fraction), exponent - fraction.length⟩, rest⟩
  match digits cs with
  | ([], '.' :: after) =>
    match digits after with
    | ([], _) => none
    | (fraction, rest) => some (finish [] fraction rest)
  | ([], _) => none
  | (whole, '.' :: after) =>
    let (fraction, rest) := digits after
    some (finish whole fraction rest)
  | (whole, after) => some (finish whole [] after)

/-- The decimal at the start of a text. -/
def scan? : List Char → Option Scan
  | '-' :: rest => unsigned? true rest
  | '+' :: rest => unsigned? false rest
  | cs => unsigned? false cs

end DecimalText

/-! ## Conversion of texts -/

namespace Number

/-- The base that a prefix announces, and the text after the prefix. -/
def announcedBase? : List Char → Option (Nat × List Char)
  | '0' :: c :: rest =>
    if c == 'x' || c == 'X' then some (16, rest)
    else if c == 'o' || c == 'O' then some (8, rest)
    else if c == 'b' || c == 'B' then some (2, rest)
    else none
  | _ => none

def infinityWord : List Char := "Infinity".toList

/-- The number that a text without blanks at its ends converts to. -/
def ofTrimmed (cs : List Char) : Number :=
  if cs.isEmpty then .int 0
  else
    match announcedBase? cs with
    | some (base, body) =>
      match IntegerText.read? base body with
      | some n => .int n
      | none => nan
    | none =>
      if cs = infinityWord ∨ cs = '+' :: infinityWord then infinity
      else if cs = '-' :: infinityWord then .float (.infinite true)
      else
        match DecimalText.scan? cs with
        | some ⟨negative, decimal, []⟩ => ofDouble (Double.ofDecimal negative decimal)
        | _ => nan

/-- The number that a text converts to; blanks around it do not count, and what is no number is
NaN. -/
def ofText (text : String) : Number := ofTrimmed (Text.trim Text.isBlank text.toList)

/-- The double of an integer, infinite beyond the range of doubles. -/
def ofIntegerClipped (negative : Bool) (n : Nat) : Number :=
  ofDouble (Double.ofRatio negative (n * Double.oneUnits) 1)

/-- Separates the sign from the start of a text. -/
def takeSign : List Char → Bool × List Char
  | '-' :: rest => (true, rest)
  | '+' :: rest => (false, rest)
  | cs => (false, cs)

/-- Removes `0x` from the start of a text, and says whether it was there. -/
def dropHexMark : List Char → Bool × List Char
  | '0' :: c :: rest => if c == 'x' || c == 'X' then (true, rest) else (false, '0' :: c :: rest)
  | cs => (false, cs)

/-- The integer that stands at the start of a text in a radix.  The radix zero means ten, or
sixteen after `0x`; radixes outside two to thirty-six give NaN.  Texts of any length are read: a
reader that refuses more than 4300 digits, in radixes that are no powers of two, is not modelled. -/
def parseInteger (text : List Char) (radix : Int) : Number :=
  let (negative, body) := takeSign (Text.trimStart Text.isBlank text)
  let (base, digits) : Int × List Char :=
    if radix = 0 then
      let (hex, rest) := dropHexMark body
      (if hex then 16 else 10, rest)
    else if radix = 16 then (16, (dropHexMark body).2)
    else (radix, body)
  if base < 2 ∨ 36 < base then nan
  else
    let run := digits.takeWhile (fun c => (IntegerText.digitIn? base.toNat c).isSome)
    match run with
    | [] => nan
    | _ =>
      match IntegerText.positional? base.toNat 0 run with
      | some n => ofIntegerClipped negative n
      | none => nan

/-- The decimal that stands at the start of a text. -/
def parseDecimal (text : List Char) : Number :=
  let cs := Text.trimStart Text.isBlank text
  let (negative, body) := takeSign cs
  if infinityWord.isPrefixOf body then .float (.infinite negative)
  else
    match DecimalText.scan? cs with
    | some scan => ofDouble (Double.ofDecimal scan.negative scan.decimal)
    | none => nan

end Number

end Descramble

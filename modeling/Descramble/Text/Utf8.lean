/-!
# Texts as bytes

* `utf8` — the bytes of a character.
* `Text.encode` — the bytes of a text.
* `Text.decode` — the text of bytes; bytes that belong to no character become the replacement
  character, one for each longest start of a character.
* `Text.unifyLines` — a text whose lines end in line feeds only.
-/

set_option autoImplicit false

namespace Descramble

/-- The bytes of a character in UTF-8. -/
def utf8 (c : Char) : List Nat :=
  let n := c.toNat
  if n < 0x80 then [n]
  else if n < 0x800 then [0xC0 + n / 0x40, 0x80 + n % 0x40]
  else if n < 0x10000 then [0xE0 + n / 0x1000, 0x80 + n / 0x40 % 0x40, 0x80 + n % 0x40]
  else [0xF0 + n / 0x40000, 0x80 + n / 0x1000 % 0x40, 0x80 + n / 0x40 % 0x40, 0x80 + n % 0x40]

namespace Text

/-- The bytes of a text. -/
def encode (cs : List Char) : List Nat := cs.flatMap utf8

/-- What may follow the first byte of a character. -/
structure Tail where
  /-- The number of bytes that follow. -/
  count : Nat
  /-- The least second byte. -/
  least : Nat
  /-- The greatest second byte. -/
  greatest : Nat
  /-- What the first byte adds to the code. -/
  start : Nat
  deriving DecidableEq, Repr

/-- What may follow a byte that starts a character of several bytes. -/
def tailOf? (lead : Nat) : Option Tail :=
  if 0xC2 ≤ lead ∧ lead ≤ 0xDF then some ⟨1, 0x80, 0xBF, lead - 0xC0⟩
  else if lead = 0xE0 then some ⟨2, 0xA0, 0xBF, 0⟩
  else if lead = 0xED then some ⟨2, 0x80, 0x9F, 0xD⟩
  else if 0xE1 ≤ lead ∧ lead ≤ 0xEF then some ⟨2, 0x80, 0xBF, lead - 0xE0⟩
  else if lead = 0xF0 then some ⟨3, 0x90, 0xBF, 0⟩
  else if lead = 0xF4 then some ⟨3, 0x80, 0x8F, 4⟩
  else if 0xF1 ≤ lead ∧ lead ≤ 0xF3 then some ⟨3, 0x80, 0xBF, lead - 0xF0⟩
  else none

/-- The code that further bytes complete, if they do, and the number of bytes that fit. -/
def completed : (count least greatest code : Nat) → List Nat → Option Nat × Nat
  | 0, _, _, code, _ => (some code, 0)
  | _ + 1, _, _, _, [] => (none, 0)
  | count + 1, least, greatest, code, byte :: rest =>
    if least ≤ byte ∧ byte ≤ greatest then
      let (result, n) := completed count 0x80 0xBF (code * 0x40 + (byte - 0x80)) rest
      (result, n + 1)
    else (none, 0)

/-- The character that stands for bytes that belong to none. -/
def replacement : Char := '\ufffd'

/-- The text of bytes, after `skip` of them. -/
def decodeFrom : (skip : Nat) → List Nat → List Char
  | _, [] => []
  | skip + 1, _ :: rest => decodeFrom skip rest
  | 0, lead :: rest =>
    if lead < 0x80 then Char.ofNat lead :: decodeFrom 0 rest
    else
      match tailOf? lead with
      | none => replacement :: decodeFrom 0 rest
      | some tail =>
        let (code, n) := completed tail.count tail.least tail.greatest tail.start rest
        (code.map Char.ofNat).getD replacement :: decodeFrom n rest

/-- The text of bytes. -/
def decode (bytes : List Nat) : List Char := decodeFrom 0 bytes

/-- A text in which each line end is a line feed. -/
def unifyLines : List Char → List Char
  | [] => []
  | '\r' :: '\n' :: rest => '\n' :: unifyLines rest
  | c :: rest => (if c == '\r' then '\n' else c) :: unifyLines rest

end Text

end Descramble

import Descramble.Text
import Descramble.Unicode.Printable

/-!
# Quoted texts

* `Text.shown` — a text as diagnostics quote it: single quotes unless the text holds a single quote
  and no double quote; what is not printable is shown by its code.
* `Text.doubleQuoted` — a text between double quotes with short escapes, as literals are spelled.
-/

set_option autoImplicit false

namespace Descramble.Text

/-- One character of a diagnostic inside the given quotes. -/
def shownChar (quote c : Char) : List Char :=
  if c == quote || c == '\\' then ['\\', c]
  else if c == '\n' then ['\\', 'n']
  else if c == '\t' then ['\\', 't']
  else if c == '\r' then ['\\', 'r']
  else if Unicode.isPrintable c then [c]
  else if c.toNat < 0x100 then '\\' :: 'x' :: hexDigits false 2 c.toNat
  else if c.toNat < 0x10000 then '\\' :: 'u' :: hexDigits false 4 c.toNat
  else '\\' :: 'U' :: hexDigits false 8 c.toNat

/-- A text as a diagnostic quotes it. -/
def shown (text : String) : String :=
  let cs := text.toList
  let quote := if cs.contains '\'' && !cs.contains '"' then '"' else '\''
  String.ofList (quote :: (cs.flatMap (shownChar quote) ++ [quote]))

/-- One character of a literal between double quotes. -/
def literalChar (c : Char) : List Char :=
  if c == '"' || c == '\\' then ['\\', c]
  else if c == '\n' then ['\\', 'n']
  else if c == '\r' then ['\\', 'r']
  else if c == '\t' then ['\\', 't']
  else if c == '\x08' then ['\\', 'b']
  else if c == '\x0c' then ['\\', 'f']
  else if c.toNat < 0x20 then '\\' :: 'u' :: hexDigits false 4 c.toNat
  else [c]

/-- A text between double quotes. -/
def doubleQuoted (text : String) : String :=
  String.ofList ('"' :: (text.toList.flatMap literalChar ++ ['"']))

end Descramble.Text

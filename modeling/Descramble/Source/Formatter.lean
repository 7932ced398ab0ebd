import Descramble.Source.Formatter.Rules
import Descramble.Source.Packed

/-!
# Formatting scripts

* `format` — a script with one statement in a line, indented by two blanks, and with an empty line
  in front of each function declaration that follows another statement.  A packed script is unpacked
  first.
-/

set_option autoImplicit false

namespace Descramble

namespace Formatter

/-- The first line break of a text. -/
def firstBreak : List Char → List Char
  | [] => ['\n']
  | '\r' :: '\n' :: _ => ['\r', '\n']
  | c :: rest => if isBreak c then [c] else firstBreak rest

/-- The blanks in front of the first line, which every line gets. -/
def marginOf (cs : List Char) : List Char := cs.takeWhile fun c => c == ' ' || c == '\t'

end Formatter

/-- The formatted text of a script.  Lines end as the first line does. -/
def format (source : String) : Except FormatError String := do
  let cs := source.toList
  let lexemes ← Formatter.lexemes (← Packed.unpacked cs)
  let ((), desk) := (Formatter.onLexemes lexemes).run {}
  let text := desk.page.text (String.ofList (Formatter.marginOf cs))
  let lineEnd := Formatter.firstBreak cs
  return String.ofList (text.toList.flatMap fun c => if c == '\n' then lineEnd else [c])

end Descramble

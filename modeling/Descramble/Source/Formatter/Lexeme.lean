import Descramble.Double.Decimal
import Descramble.Text.Quoted

/-!
# Lexemes and remarks

The formatter sees a script as a list of lexemes.  Comments and everything else that is no part of a
script are remarks on the lexeme that follows them.

* `Fragment` — a piece of the text with the gap in front of it.
* `Remark`, `Lexeme` — the two sorts of fragments.
* `Directive` — what a comment asks of the formatter.
* `FormatError` — why a text cannot be formatted, and how that is said.
-/

set_option autoImplicit false

namespace Descramble.Formatter

/-- A piece of the text: the line breaks in front of it, and the blanks between the last of them and
the piece. -/
structure Fragment where
  text : String
  newlines : Nat
  blanks : String
  deriving DecidableEq, Repr

/-- A request of a comment to the formatter: a topic and its setting. -/
structure Directive where
  topic : String
  setting : String
  deriving DecidableEq, Repr

/-- What a remark is. -/
inductive RemarkKind where
  /-- A comment up to the end of its line. -/
  | line
  /-- A comment between two marks, with its directives. -/
  | block (directives : List Directive)
  /-- A line that is meant for another program. -/
  | preamble
  /-- A character that belongs nowhere. -/
  | stray
  deriving DecidableEq, Repr

/-- A piece of the text that is no part of the script. -/
structure Remark extends Fragment where
  kind : RemarkKind
  deriving DecidableEq, Repr

/-- What a lexeme is. -/
inductive LexemeKind where
  /-- A parenthesis or bracket that opens. -/
  | opening
  /-- A parenthesis or bracket that closes. -/
  | closing
  | openBrace
  | closeBrace
  | word
  | reserved
  | semicolon
  /-- A string, a template or a regular expression. -/
  | quoted
  | equals
  | operator
  | comma
  | dot
  | finish
  deriving DecidableEq, Repr

/-- A part of the script, with the remarks in front of it. -/
structure Lexeme extends Fragment where
  kind : LexemeKind
  remarks : List Remark
  deriving DecidableEq, Repr

namespace Lexeme

/-- A lexeme without a text. -/
def void (kind : LexemeKind) : Lexeme := ⟨⟨"", 0, ""⟩, kind, []⟩

def isReserved (t : Lexeme) (words : List String) : Bool :=
  t.kind == .reserved && words.contains t.text

end Lexeme

/-- The words that start a line. -/
def lineStarters : List String :=
  ["continue", "try", "throw", "return", "var", "let", "const", "if", "switch", "case", "default",
    "for", "while", "break", "function", "import", "export"]

/-- The words that are not plain words. -/
def reservedWords : List String :=
  lineStarters ++ ["do", "in", "of", "else", "get", "set", "new", "catch", "finally", "typeof",
    "yield", "async", "await", "from", "as", "class", "extends"]

/-- The setting of a topic; of several the last one holds. -/
def settingOf (topic : String) (directives : List Directive) : Option String :=
  (directives.reverse.find? (·.topic == topic)).map (·.setting)

/-- What stands before the first lexeme. -/
def beforeFirst : Lexeme := .void .openBrace

end Descramble.Formatter

namespace Descramble

/-- Why a text cannot be formatted. -/
inductive FormatError where
  /-- A slash follows a parenthesis that closes none. -/
  | unopened
  /-- A text in a packed table is not closed. -/
  | brokenTable
  /-- A packed word is beyond the end of its dictionary. -/
  | beyondDictionary
  /-- A packed word is no number. -/
  | notANumber (base : Nat) (word : String)
  /-- A packed word has a character that is no digit. -/
  | unknownDigit (digit : Char)
  deriving DecidableEq, Repr

/-- The wording of an error. -/
def FormatError.message : FormatError → String
  | .unopened => "'NoneType' object has no attribute 'previous'"
  | .brokenTable => "string index out of range"
  | .beyondDictionary => "list index out of range"
  | .notANumber base word =>
    "invalid literal for int() with base " ++ intText base ++ ": " ++
      String.ofList ((Text.shown word).toList.take 200)
  | .unknownDigit digit => Text.shown (String.ofList [digit])

end Descramble

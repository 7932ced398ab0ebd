import Descramble.Tree.Node
import Descramble.Text
import Descramble.Unicode.Identifier

/-!
# The spelling of names and constants

* `PrintError` — why a tree has no text.
* `spelledName` — a name, if it is one.
* `spelledNumber` — a number: whole numbers that are doubles in full, others by the fewest digits that
  read back.
* `spelledText` — a text between single quotes.
* `spelledConstant` — any constant.
* `spelledPattern` — a regular expression.
-/

set_option autoImplicit false

namespace Descramble

/-- Why a tree has no text. -/
inductive PrintError where
  | invalidName
  | numberTooLarge
  | notANumber
  /-- The flags of a regular expression are unknown or repeated. -/
  | invalidFlags
  /-- An expression has a kind that has no text. -/
  | unsupported (typeName : String)
  /-- The body of an arrow function is not what its flag says. -/
  | arrowBody
  /-- A declaration declares nothing. -/
  | noDeclarator
  /-- A loop that names what it runs over, or a label, has no body. -/
  | absentBody
  /-- Another part is absent that the text needs. -/
  | incomplete
  deriving DecidableEq, Repr

namespace PrintError

def message : PrintError → String
  | .invalidName => "Identifier.name must be a valid ECMAScript IdentifierName"
  | .numberTooLarge => "Number literal exceeds binary64; use Literal.bigint for exact integers"
  | .notANumber => "Numeric literal whose value is NaN"
  | .invalidFlags => "Invalid ECMAScript regular-expression flags"
  | .unsupported typeName => "Unsupported ESTree expression type: " ++ typeName
  | .arrowBody => "ArrowFunctionExpression.expression must match its body"
  | .noDeclarator => "VariableDeclaration.declarations must not be empty"
  | .absentBody => "'NoneType' object has no attribute 'type'"
  | .incomplete => "Unsupported ESTree statement type: None"

end PrintError

namespace Source

/-- Is the text a name?  Reserved words are. -/
def isName : List Char → Bool
  | [] => false
  | c :: rest => Unicode.isNameStart c && rest.all Unicode.isNamePart

def spelledName (name : String) : Except PrintError String :=
  if isName name.toList then .ok name else .error .invalidName

/-- A whole number by the double nearest to it: in full if it is that double, else as the double. -/
def spelledWhole (n : Int) : Double → Except PrintError String
  | .finite negative rank =>
    let d := Double.finite negative rank
    .ok (if d.truncate? = some n then intText n else d.text)
  | _ => .error .numberTooLarge

def spelledNumber : Number → Except PrintError String
  | .int n => spelledWhole n (Double.ofInt n)
  | .float .nan => .error .notANumber
  | .float (.infinite negative) => .ok (if negative then "-1e400" else "1e400")
  | .float (.finite negative rank) => .ok (Double.finite negative rank).text

/-- Does the spelling of a number start with a sign? -/
def isSigned : Number → Bool
  | .int n => decide (n < 0)
  | .float (.finite negative _) => negative
  | .float (.infinite negative) => negative
  | .float .nan => false

/-- Four upper-case hexadecimal digits after their mark. -/
def unitEscape (n : Nat) : List Char := '\\' :: 'u' :: Text.hexDigits true 4 n

/-- A character by its code; above `0xffff` by two units. -/
def codeEscape (n : Nat) : List Char :=
  if n < 0x100 then '\\' :: 'x' :: Text.hexDigits true 2 n
  else if n < 0x10000 then unitEscape n
  else unitEscape (0xd800 + (n - 0x10000) / 0x400) ++ unitEscape (0xdc00 + (n - 0x10000) % 0x400)

/-- One character of a text between single quotes; `next` is the character behind it. -/
def spelledChar (c : Char) (next : Option Char) : List Char :=
  if c == '\'' || c == '\\' then ['\\', c]
  else if c == '\n' then ['\\', 'n']
  else if c == '\r' then ['\\', 'r']
  else if c == '\u2028' || c == '\u2029' then '\\' :: 'u' :: Text.hexDigits true 4 c.toNat
  else if Unicode.isNamePart c || (0x20 ≤ c.toNat && c.toNat ≤ 0x7e) then [c]
  else if c == '\x08' then ['\\', 'b']
  else if c == '\t' then ['\\', 't']
  else if c == '\x0c' then ['\\', 'f']
  else if c.toNat = 0 && !(next.map Char.isDigit).getD false then ['\\', '0']
  else if c == '\x0b' then "\\x0b".toList
  else codeEscape c.toNat

def spelledChars : List Char → List Char
  | [] => []
  | c :: rest => spelledChar c rest.head? ++ spelledChars rest

/-- A text between single quotes. -/
def spelledText (text : String) : String :=
  String.ofList ('\'' :: (spelledChars text.toList ++ ['\'']))

/-- Are the flags of a regular expression known, each given once, and not both of the two that choose
how units are read? -/
def validFlags (flags : List Char) : Bool :=
  flags.all ("dgimsuvy".toList.contains ·) && flags.eraseDups.length == flags.length &&
    !(flags.contains 'u' && flags.contains 'v')

/-- A regular expression between slashes; an empty one is spelled as an empty group. -/
def spelledPattern (pattern : Pattern) : Except PrintError String :=
  if validFlags pattern.flags.toList then
    let body := if pattern.body == "" then "(?:)" else pattern.body
    .ok ("/" ++ body ++ "/" ++ pattern.flags)
  else .error .invalidFlags

/-- A constant. -/
def spelledConstant : Constant → Except PrintError String
  | .null => .ok "null"
  | .bool b => .ok (if b then "true" else "false")
  | .number n => spelledNumber n
  | .text s => .ok (spelledText s)

end Source

end Descramble

import Descramble.Source.Formatter.Lexeme
import Descramble.Text
import Descramble.Unicode.Alphanumeric
import Descramble.Unicode.Word

/-!
# Extents

How far a string, a number, a word or a comment reaches from its start.

* `stringLength`, `templateLength`, `patternLength` — quoted texts.
* `wordLength`, `numberLength` — words and numbers; zero if there is none.
* `blockLength`, `ignoredLength` — comments, and the text that a comment takes out of formatting.
* `directivesOf` — the directives of a comment.
-/

set_option autoImplicit false

namespace Descramble.Formatter

/-! ## Classes of characters -/

def isBreak (c : Char) : Bool := c == '\n' || c == '\r' || c == '\u2028' || c == '\u2029'

def isBlank (c : Char) : Bool :=
  c == ' ' || c == '\t' || c == '\u00a0' || c == '\u1680' || c == '\u180e' ||
    (0x2000 ≤ c.toNat && c.toNat ≤ 0x200a) || c == '\u202f' || c == '\u205f' || c == '\u3000' ||
    c == '\ufeff'

def isDigits (c : Char) : Bool := Unicode.isDecimal c || c == '_'

def isHexDigit (c : Char) : Bool :=
  c.isDigit || ('a' ≤ c && c ≤ 'f') || ('A' ≤ c && c ≤ 'F')

/-- Does the text start like this? -/
def startsWith (start : String) (cs : List Char) : Bool := start.toList.isPrefixOf cs

/-! ## Lines -/

/-- The number of line breaks; a carriage return and a line feed are one break. -/
def countBreaks : List Char → Nat
  | '\r' :: '\n' :: rest => countBreaks rest + 1
  | c :: rest => if isBreak c then countBreaks rest + 1 else countBreaks rest
  | [] => 0

/-- The length of a line without its end. -/
def lineLength (cs : List Char) : Nat := (cs.takeWhile fun c => !isBreak c).length

/-- The length of a line with its end. -/
def fullLineLength (cs : List Char) : Nat :=
  let n := lineLength cs
  match cs.drop n with
  | '\r' :: '\n' :: _ => n + 2
  | _ :: _ => n + 1
  | [] => n

/-- The text with its line breaks written as line feeds. -/
def lineFeeds : List Char → List Char
  | '\r' :: '\n' :: rest => '\n' :: lineFeeds rest
  | c :: rest => (if isBreak c then '\n' else c) :: lineFeeds rest
  | [] => []

/-! ## Quoted texts -/

/-- The length of a string from behind its opening quote; its closing quote is counted if it is
there. -/
def stringLength (quote : Char) : List Char → Nat
  | [] => 0
  | '\\' :: '\r' :: '\n' :: rest => stringLength quote rest + 3
  | '\\' :: _ :: rest => stringLength quote rest + 2
  | c :: rest => if c == quote then 1 else if isBreak c then 0 else stringLength quote rest + 1

/-- The length of a template from behind its opening mark.  `inside` holds the templates and
expressions that are open, the innermost first; an expression is `true`. -/
def templateLength : (inside : List Bool) → List Char → Nat
  | _, [] => 0
  | [], _ => 0
  | inside, '\\' :: '\r' :: '\n' :: rest => templateLength inside rest + 3
  | inside, '\\' :: _ :: rest => templateLength inside rest + 2
  | true :: inside, c :: rest =>
    if c == '}' then templateLength inside rest + 1
    else if c == '\x60' then templateLength (false :: true :: inside) rest + 1
    else templateLength (true :: inside) rest + 1
  | false :: inside, '$' :: '{' :: rest => templateLength (true :: false :: inside) rest + 2
  | false :: inside, c :: rest =>
    if c == '\x60' then templateLength inside rest + 1
    else templateLength (false :: inside) rest + 1

/-- The length of a regular expression from behind its opening slash, without its flags, and whether
it is closed in its line. -/
def patternLength : (inClass : Bool) → List Char → Nat × Bool
  | _, [] => (0, false)
  | inClass, '\\' :: c :: rest =>
    if isBreak c then (1, false)
    else
      let (n, closed) := patternLength inClass rest
      (n + 2, closed)
  | inClass, c :: rest =>
    if isBreak c then (0, false)
    else if c == '/' && !inClass then (1, true)
    else
      let (n, closed) := patternLength ((inClass || c == '[') && c != ']') rest
      (n + 1, closed)

/-! ## Words -/

/-- The length of a character that is written by its code; zero if there is none. -/
def escapeLength : List Char → Nat
  | '\\' :: 'u' :: '{' :: rest =>
    let n := (rest.takeWhile isHexDigit).length
    if 0 < n && (rest.drop n).head? == some '}' then n + 4 else 0
  | '\\' :: 'u' :: rest => if ((rest.take 4).takeWhile isHexDigit).length = 4 then 6 else 0
  | _ => 0

/-- The length of the rest of a word, of which `skip` characters are known. -/
def wordTail : (skip : Nat) → List Char → Nat
  | _, [] => 0
  | skip + 1, _ :: rest => wordTail skip rest + 1
  | 0, c :: rest =>
    if Unicode.isWordPart c then wordTail 0 rest + 1
    else
      match escapeLength (c :: rest) with
      | 0 => 0
      | n + 1 => wordTail n rest + 1

/-- The length of a word. -/
def wordLength : List Char → Nat
  | [] => 0
  | c :: rest =>
    if Unicode.isWordStart c then wordTail 0 rest + 1
    else
      match escapeLength (c :: rest) with
      | 0 => 0
      | n + 1 => wordTail n rest + 1

/-- The length of a numbered reference, from its sharp sign to the sign that ends it; an empty list or
object behind it belongs to it. -/
def sharpLength (cs : List Char) : Nat :=
  let body := (cs.drop 1).takeWhile fun c => c != '#' && c != '='
  match cs.drop (body.length + 1) with
  | '=' :: '[' :: ']' :: _ => body.length + 4
  | '=' :: '{' :: '}' :: _ => body.length + 4
  | _ :: _ => body.length + 2
  | [] => body.length + 1

/-! ## Numbers -/

/-- The length of an exponent. -/
def exponentLength (cs : List Char) : Nat :=
  let digits (rest : List Char) (before : Nat) : Nat :=
    let n := (rest.takeWhile isDigits).length
    if n = 0 then 0 else n + before
  match cs with
  | e :: rest =>
    if e == 'e' || e == 'E' then
      match rest with
      | s :: more => if s == '+' || s == '-' then digits more 2 else digits rest 1
      | [] => 0
    else 0
  | [] => 0

/-- The length of the letter that marks a big number. -/
def markLength : List Char → Nat
  | 'n' :: _ => 1
  | _ => 0

/-- The length of a decimal number that starts here. -/
def decimalLength (cs : List Char) : Nat :=
  let whole := (cs.takeWhile isDigits).length
  let fraction := match cs.drop whole with
    | '.' :: rest => (rest.takeWhile isDigits).length + 1
    | _ => 0
  let exponent := exponentLength (cs.drop (whole + fraction))
  let mark := markLength (cs.drop whole)
  if 0 < mark then whole + mark else whole + fraction + exponent

/-- The length of a number in another base, whose digits follow its two marks. -/
def basedLength (isDigit : Char → Bool) (rest : List Char) : Nat :=
  let n := (rest.takeWhile fun c => isDigit c || c == '_').length
  n + markLength (rest.drop n) + 2

/-- The length of a number. -/
def numberLength (cs : List Char) : Nat :=
  match cs with
  | '0' :: m :: rest =>
    if m == 'x' || m == 'X' then basedLength isHexDigit rest
    else if m == 'o' || m == 'O' then basedLength (fun c => '0' ≤ c && c ≤ '7') rest
    else if m == 'b' || m == 'B' then basedLength (fun c => c == '0' || c == '1') rest
    else decimalLength cs
  | '.' :: d :: _ => if Unicode.isDecimal d then decimalLength cs else 0
  | c :: _ => if Unicode.isDecimal c then decimalLength cs else 0
  | [] => 0

/-! ## Comments -/

/-- The length of a comment from behind its opening mark; its closing mark is counted if it is
there. -/
def blockLength : List Char → Nat
  | [] => 0
  | '*' :: '/' :: _ => 2
  | _ :: rest => blockLength rest + 1

/-- The directive that a topic and a setting with a colon between them give. -/
def directiveOf? (cs : List Char) : Option Directive :=
  match Text.splitOn [':'] cs with
  | [topic, setting] =>
    let isName (part : List Char) : Bool := !part.isEmpty && part.all Unicode.isAlphanumeric
    if isName topic && isName setting then some ⟨String.ofList topic, String.ofList setting⟩
    else none
  | _ => none

/-- How a comment with directives starts. -/
def directiveStart : List Char := "/* beautify ".toList

/-- How a comment with directives ends. -/
def directiveEnd : List Char := " */".toList

/-- The directives of a comment; none unless the comment holds nothing else. -/
def directivesOf (comment : List Char) : List Directive :=
  if directiveStart.isPrefixOf comment && directiveEnd.isSuffixOf comment then
    let body := comment.drop directiveStart.length
    let parts := Text.splitOn [' '] (body.take (body.length - directiveEnd.length))
    (parts.mapM directiveOf?).getD []
  else []

/-- The classes of the characters that end a text that is ignored. -/
def endOfIgnored : List (Char → Bool) :=
  let exactly (text : String) : List (Char → Bool) := text.toList.map fun c d => c == d
  exactly "/*" ++ [Unicode.isSpace] ++ exactly "beautify" ++ [Unicode.isSpace] ++
    exactly "ignore:end" ++ [Unicode.isSpace] ++ exactly "*/"

/-- Does the text start with characters of these classes? -/
def fits : List (Char → Bool) → List Char → Bool
  | [], _ => true
  | _ :: _, [] => false
  | isClass :: classes, c :: rest => isClass c && fits classes rest

/-- The length of a text that is ignored, with the comment that ends it. -/
def ignoredLength : List Char → Nat
  | [] => 0
  | c :: rest =>
    if fits endOfIgnored (c :: rest) then endOfIgnored.length else ignoredLength rest + 1

end Descramble.Formatter

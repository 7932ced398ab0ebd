import Descramble.Number.Reading
import Descramble.Source.Failure
import Descramble.Source.Regex
import Descramble.Tree.Kind
import Descramble.Unicode.Identifier

/-!
# Tokens of script source

* `Scan` — the part of a source that is still to be read, with the line it starts in and the open
  braces.
* `Token` — a token with its place.
* `Scan.skipBlanks` — past blanks, line ends and comments.
* `Scan.next` — the next token; `Scan.nextPattern` — a regular expression.

What is no token is a `ParseFailure` at the character that cannot be read.  A string that is not
closed fails at its opening quote.  A backslash at the end of the source counts as an escape of one
character, so that what it stands in fails one place further on.
-/

set_option autoImplicit false

namespace Descramble.Source

/-! ## Characters -/

def isLineEnd (c : Char) : Bool := c == '\n' || c == '\r' || c == '\u2028' || c == '\u2029'

/-- Blanks that separate tokens. -/
def isBlank (c : Char) : Bool :=
  c == ' ' || c == '\t' || c == '\x0b' || c == '\x0c' || c == '\u00a0' || c == '\u1680' ||
    c == '\u180e' || (0x2000 ≤ c.toNat && c.toNat ≤ 0x200a) || c == '\u202f' || c == '\u205f' ||
    c == '\u3000' || c == '\ufeff'

/-- A backslash may start or continue a name, as an escape. -/
def startsName (c : Char) : Bool := c == '\\' || Unicode.isIdStart c

def continuesName (c : Char) : Bool := c == '\\' || Unicode.isIdPart c

def isOctal (c : Char) : Bool := '0' ≤ c && c ≤ '7'

def isHex (c : Char) : Bool := (IntegerText.digitIn? 16 c).isSome

/-! ## Tokens -/

/-- What a token is. -/
inductive TokenKind where
  | eof
  | punctuator
  | keyword
  | identifier
  | boolean
  | null
  | number (value : Number) (octal : Bool)
  | string (octal : Bool)
  /-- A piece of a template; `head` starts one, `tail` ends one. -/
  | template (cooked : String) (head tail : Bool)
  | regex (pattern : Pattern)
  deriving DecidableEq, Repr

/-- A token: what it is, its text, and where it stands. -/
structure Token where
  kind : TokenKind
  text : String
  start : Nat
  stop : Nat
  line : Nat
  deriving DecidableEq, Repr

namespace Token

/-- Is the token written with the old octal notation? -/
def isOctal (t : Token) : Bool :=
  match t.kind with
  | .number _ octal => octal
  | .string octal => octal
  | _ => false

def isTemplateHead (t : Token) : Bool :=
  match t.kind with
  | .template _ head _ => head
  | _ => false

end Token

/-! ## Reading on -/

/-- What is still to be read.  `braces` holds the open braces, the innermost first; a brace that
opened an expression in a template is `true`. -/
structure Scan where
  rest : List Char
  index : Nat
  line : Nat
  lineStart : Nat
  braces : List Bool
  deriving Repr

namespace Scan

/-- The start of a source. -/
def ofSource (source : List Char) : Scan := ⟨source, 0, if source.isEmpty then 0 else 1, 0, []⟩

/-- A failure at the current character. -/
def fail {α : Type} (s : Scan) (problem : String) : Except ParseFailure α :=
  .error ⟨problem, s.line, (s.index : Int) - s.lineStart + 1⟩

def illegal {α : Type} (s : Scan) : Except ParseFailure α := s.fail "Unexpected token ILLEGAL"

/-- Past some characters. -/
def skip (s : Scan) (n : Nat) : Scan := { s with rest := s.rest.drop n, index := s.index + n }

/-- Past the longest start made of characters of a class, which is returned. -/
def takeWhile (s : Scan) (p : Char → Bool) : List Char × Scan :=
  let taken := s.rest.takeWhile p
  (taken, s.skip taken.length)

/-- Past a line end; a carriage return takes the line feed after it along. -/
def skipLineEnd (s : Scan) : Scan :=
  let n := match s.rest with
    | '\r' :: '\n' :: _ => 2
    | _ => 1
  let after := s.skip n
  { after with line := s.line + 1, lineStart := after.index }

/-- Is the current character of a class? -/
def at? (s : Scan) (p : Char → Bool) : Bool :=
  match s.rest with
  | c :: _ => p c
  | [] => false

/-- Past the rest of a line and its end. -/
def skipLine (s : Scan) : Scan :=
  let (_, after) := s.takeWhile (fun c => !isLineEnd c)
  if after.rest.isEmpty then after else after.skipLineEnd

/-- Past the end of a block comment; `fuel` bounds the number of characters. -/
def skipBlock : (fuel : Nat) → Scan → Except ParseFailure Scan
  | 0, s => s.illegal
  | fuel + 1, s =>
    match s.rest with
    | [] => s.illegal
    | '*' :: '/' :: _ => .ok (s.skip 2)
    | c :: _ => skipBlock fuel (if isLineEnd c then s.skipLineEnd else s.skip 1)

/-- Past blanks, line ends and comments.  `fresh` says that nothing but such was read in the line. -/
def skipBlanksFrom : (fuel : Nat) → (fresh : Bool) → Scan → Except ParseFailure Scan
  | 0, _, s => .ok s
  | fuel + 1, fresh, s =>
    match s.rest with
    | '/' :: '/' :: _ => skipBlanksFrom fuel true s.skipLine
    | '/' :: '*' :: _ => do skipBlanksFrom fuel fresh (← skipBlock (s.rest.length + 1) (s.skip 2))
    | '<' :: '!' :: '-' :: '-' :: _ => skipBlanksFrom fuel fresh s.skipLine
    | '-' :: '-' :: '>' :: _ => if fresh then skipBlanksFrom fuel fresh s.skipLine else .ok s
    | c :: _ =>
      if isBlank c then skipBlanksFrom fuel fresh (s.skip 1)
      else if isLineEnd c then skipBlanksFrom fuel true s.skipLineEnd
      else .ok s
    | [] => .ok s

def skipBlanks (s : Scan) : Except ParseFailure Scan :=
  skipBlanksFrom (s.rest.length + 1) (s.index == 0) s

/-- The token that ends at the current character. -/
def token (after : Scan) (kind : TokenKind) (text : String) (start : Nat) : Token :=
  ⟨kind, text, start, after.index, after.line⟩

/-! ## Escapes -/

/-- The value of hexadecimal digits. -/
def hexValue (cs : List Char) : Nat := (IntegerText.positional? 16 0 cs).getD 0

/-- The code that a fixed number of hexadecimal digits gives. -/
def fixedCode? (s : Scan) (width : Nat) : Option (Nat × Scan) :=
  let digits := s.rest.take width
  if digits.length = width && digits.all isHex then some (hexValue digits, s.skip width) else none

/-- The character that a fixed number of hexadecimal digits gives. -/
def fixedHex? (s : Scan) (width : Nat) : Option (Char × Scan) :=
  (s.fixedCode? width).map fun (code, after) => (Char.ofNat code, after)

/-- The code of an escaped second half of a pair, at whose backslash the scan stands. -/
def secondHalf? (s : Scan) : Option (Nat × Scan) :=
  match s.rest with
  | '\\' :: 'u' :: _ => ((s.skip 2).fixedCode? 4).filter fun (code, _) => code / 0x400 = 0x37
  | _ => none

/-- The character that four hexadecimal digits give; two escapes that are the halves of a pair give
one character. -/
def unitHex? (s : Scan) : Option (Char × Scan) := do
  let (code, after) ← s.fixedCode? 4
  match if code / 0x400 = 0x36 then after.secondHalf? else none with
  | some (second, behind) =>
    return (Char.ofNat (0x10000 + (code % 0x400) * 0x400 + second % 0x400), behind)
  | none => return (Char.ofNat code, after)

/-- Hexadecimal digits up to a closing brace; the opening one has been read. -/
def bracedHex (s : Scan) : Except ParseFailure (Char × Scan) :=
  if s.at? (· == '}') then s.illegal
  else
    let (digits, after) := s.takeWhile isHex
    if after.rest.isEmpty then after.illegal
    else if !after.at? (· == '}') || 0x10FFFF < hexValue digits then (after.skip 1).illegal
    else .ok (Char.ofNat (hexValue digits), after.skip 1)

/-! ## Names -/

/-- The words that cannot be names. -/
def isKeyword (word : String) : Bool :=
  ["if", "in", "do", "var", "for", "new", "try", "let", "this", "else", "case", "void", "with",
    "enum", "while", "break", "catch", "throw", "const", "yield", "class", "super", "return",
    "typeof", "delete", "switch", "export", "import", "default", "finally", "extends", "function",
    "continue", "debugger", "instanceof"].contains word

/-- An escaped character of a name; the backslash has been read. -/
def nameEscape (s : Scan) (allowed : Char → Bool) : Except ParseFailure (Char × Scan) :=
  match s.rest with
  | 'u' :: '{' :: _ => (s.skip 2).bracedHex
  | 'u' :: _ =>
    let after := s.skip 1
    match after.fixedHex? 4 with
    | some (c, next) => if c == '\\' || !allowed c then next.illegal else .ok (c, next)
    | none => (after.takeWhile isHex).2.illegal
  | _ => s.illegal

/-- The characters of a name from the current one on, in reverse before `name`. -/
def nameChars : (fuel : Nat) → (name : List Char) → Scan → Except ParseFailure (List Char × Scan)
  | 0, name, s => .ok (name.reverse, s)
  | fuel + 1, name, s =>
    match s.rest with
    | '\\' :: _ => do
      let (c, after) ← (s.skip 1).nameEscape (if name.isEmpty then startsName else continuesName)
      nameChars fuel (c :: name) after
    | c :: _ => if continuesName c then nameChars fuel (c :: name) (s.skip 1)
      else .ok (name.reverse, s)
    | [] => .ok (name.reverse, s)

/-- A name or a word; a word with an escape in it is refused. -/
def nextName (s : Scan) : Except ParseFailure (Token × Scan) := do
  let (chars, after) ← nameChars (s.rest.length + 1) [] s
  let word := String.ofList chars
  let kind : TokenKind :=
    if isKeyword word then .keyword
    else if word = "null" then .null
    else if word = "true" || word = "false" then .boolean
    else .identifier
  if kind ≠ .identifier && s.index + chars.length ≠ after.index then
    Scan.fail { s with line := after.line, lineStart := after.lineStart }
      "Keyword must not contain escaped characters"
  else return (after.token kind word s.index, after)

/-! ## Numbers -/

/-- The end of a number, where no name may follow. -/
def endNumber (after : Scan) (digitsToo : Bool) (value : Number) (octal : Bool) (start : Nat) :
    Except ParseFailure (Token × Scan) :=
  if after.at? (fun c => startsName c || (digitsToo && c.isDigit)) then after.illegal
  else .ok (after.token (.number value octal) "" start, after)

/-- Digits of a base after a mark, of which there must be one. -/
def basedNumber (s : Scan) (base : Nat) (digitsToo : Bool) (start : Nat) :
    Except ParseFailure (Token × Scan) :=
  let (digits, after) := s.takeWhile (fun c => (IntegerText.digitIn? base c).isSome)
  if digits.isEmpty then after.illegal
  else after.endNumber digitsToo (.int ((IntegerText.positional? base 0 digits).getD 0)) false start

/-- Is a number that starts with a zero octal?  It is unless it has a digit of eight or nine. -/
def isOldOctal (digits : List Char) : Bool :=
  match digits.dropWhile isOctal with
  | '8' :: _ => false
  | '9' :: _ => false
  | _ => true

/-- The exact integer of an integral double, or the double. -/
def numberOfDouble (d : Double) : Number :=
  match d.isInteger, d.truncate? with
  | true, some n => .int n
  | _, _ => .float d

/-- A decimal number with its fraction and its exponent. -/
def decimalNumber (s : Scan) : Except ParseFailure (Token × Scan) := do
  let (whole, s1) := s.takeWhile Char.isDigit
  let (fraction, s2) :=
    if s1.at? (· == '.') then (s1.skip 1).takeWhile Char.isDigit else ([], s1)
  let (exponent, s3) ←
    if s2.at? (fun c => c == 'e' || c == 'E') then do
      let s3 := s2.skip 1
      let negative := s3.at? (· == '-')
      let s4 := if s3.at? (fun c => c == '+' || c == '-') then s3.skip 1 else s3
      let (digits, s5) := s4.takeWhile Char.isDigit
      if digits.isEmpty then s4.illegal
      else
        let n : Int := ((IntegerText.positional? 10 0 digits).getD 0 : Nat)
        pure (if negative then -n else n, s5)
    else pure (0, s2)
  let value := (IntegerText.positional? 10 0 (whole ++ fraction)).getD 0
  let d := Double.ofDecimal false ⟨value, exponent - fraction.length⟩
  s3.endNumber false (numberOfDouble d) false s.index

/-- A number. -/
def nextNumber (s : Scan) : Except ParseFailure (Token × Scan) :=
  match s.rest with
  | '0' :: c :: rest =>
    if c == 'x' || c == 'X' then (s.skip 2).basedNumber 16 false s.index
    else if c == 'b' || c == 'B' then (s.skip 2).basedNumber 2 true s.index
    else if c == 'o' || c == 'O' then (s.skip 2).basedNumber 8 true s.index
    else if isOctal c && isOldOctal (c :: rest) then
      let (digits, after) := (s.skip 1).takeWhile isOctal
      after.endNumber true (.int ((IntegerText.positional? 8 0 digits).getD 0)) true s.index
    else s.decimalNumber
  | _ => s.decimalNumber

/-! ## Strings -/

/-- The character of a one-letter escape. -/
def letterEscape? (c : Char) : Option Char :=
  match c with
  | 'n' => some '\n'
  | 'r' => some '\r'
  | 't' => some '\t'
  | 'b' => some '\x08'
  | 'v' => some '\x0b'
  | 'f' => some '\x0c'
  | _ => none

/-- An octal escape of up to three digits, three only below four hundred, and whether it is more than
a plain zero. -/
def octalEscape (s : Scan) : Char × Bool × Scan :=
  let width := match s.rest with
    | a :: b :: c :: _ =>
      if isOctal b then (if '0' ≤ a && a ≤ '3' && isOctal c then 3 else 2) else 1
    | [_, b] => if isOctal b then 2 else 1
    | _ => 1
  let digits := s.rest.take width
  (Char.ofNat ((IntegerText.positional? 8 0 digits).getD 0), digits ≠ ['0'], s.skip width)

/-- What an escape in a string stands for; the backslash has been read. -/
def stringEscape (s : Scan) : Except ParseFailure (List Char × Bool × Scan) :=
  match s.rest with
  | [] => .ok ([], false, s)
  | 'u' :: '{' :: _ => do
    let (c, after) ← (s.skip 2).bracedHex
    return ([c], false, after)
  | 'u' :: _ =>
    match (s.skip 1).unitHex? with
    | some (c, after) => .ok ([c], false, after)
    | none => ((s.skip 1).takeWhile isHex).2.illegal
  | 'x' :: _ =>
    match (s.skip 1).fixedHex? 2 with
    | some (c, after) => .ok ([c], false, after)
    | none => ((s.skip 1).takeWhile isHex).2.fail "Invalid hexadecimal escape sequence"
  | c :: _ =>
    if isLineEnd c then .ok ([], false, s.skipLineEnd)
    else if c == '8' || c == '9' then (s.skip 1).illegal
    else if isOctal c then
      let (d, octal, after) := s.octalEscape
      .ok ([d], octal, after)
    else .ok ([(letterEscape? c).getD c], false, s.skip 1)

/-- The characters of a string up to its closing quote, in reverse before `text`; `none` if it is not
closed. -/
def stringChars (quote : Char) : (fuel : Nat) → (text : List Char) → (octal : Bool) → Scan →
    Except ParseFailure (Option (List Char × Bool) × Scan)
  | 0, _, _, s => .ok (none, s)
  | fuel + 1, text, octal, s =>
    match s.rest with
    | [] => .ok (none, s)
    | '\\' :: _ => do
      let (cs, o, after) ← (s.skip 1).stringEscape
      stringChars quote fuel (cs.reverse ++ text) (octal || o) after
    | c :: _ =>
      if c == quote then .ok (some (text.reverse, octal), s.skip 1)
      else if isLineEnd c then .ok (none, s)
      else stringChars quote fuel (c :: text) octal (s.skip 1)

/-- A string. -/
def nextString (s : Scan) (quote : Char) : Except ParseFailure (Token × Scan) := do
  let (content, after) ← stringChars quote (s.rest.length + 1) [] false (s.skip 1)
  match content with
  | some (text, octal) => return (after.token (.string octal) (String.ofList text) s.index, after)
  | none => Scan.illegal { after with index := s.index }

/-! ## Templates -/

/-- What an escape in a template stands for; the backslash has been read. -/
def templateEscape (s : Scan) : Except ParseFailure (List Char × Scan) :=
  match s.rest with
  | [] => .ok ([], s.skip 1)
  | 'u' :: '{' :: _ => do
    let (c, after) ← (s.skip 2).bracedHex
    return ([c], after)
  | 'u' :: _ =>
    match (s.skip 1).unitHex? with
    | some (c, after) => .ok ([c], after)
    | none => .ok (['u'], s.skip 1)
  | 'x' :: _ =>
    match (s.skip 1).fixedHex? 2 with
    | some (c, after) => .ok ([c], after)
    | none => ((s.skip 1).takeWhile isHex).2.fail "Invalid hexadecimal escape sequence"
  | '0' :: c :: _ =>
    if c.isDigit then (s.skip 1).fail "Octal literals are not allowed in template strings."
    else .ok ([Char.ofNat 0], s.skip 1)
  | c :: _ =>
    if isLineEnd c then .ok ([], s.skipLineEnd)
    else if c == '0' then .ok ([Char.ofNat 0], s.skip 1)
    else if isOctal c then (s.skip 1).fail "Octal literals are not allowed in template strings."
    else .ok ([(letterEscape? c).getD c], s.skip 1)

/-- The characters of a piece of a template, in reverse before `cooked`, and whether the piece is the
last one. -/
def templateChars : (fuel : Nat) → (cooked : List Char) → Scan →
    Except ParseFailure (List Char × Bool × Scan)
  | 0, _, s => s.illegal
  | fuel + 1, cooked, s =>
    match s.rest with
    | [] => s.illegal
    | '\x60' :: _ => .ok (cooked.reverse, true, s.skip 1)
    | '$' :: '{' :: _ => .ok (cooked.reverse, false, s.skip 2)
    | '\\' :: _ => do
      let (cs, after) ← (s.skip 1).templateEscape
      templateChars fuel (cs.reverse ++ cooked) after
    | c :: _ =>
      if isLineEnd c then templateChars fuel ('\n' :: cooked) s.skipLineEnd
      else templateChars fuel (c :: cooked) (s.skip 1)

/-- A piece of a template. -/
def nextTemplate (s : Scan) : Except ParseFailure (Token × Scan) := do
  let head := s.at? (· == '\x60')
  let (cooked, tail, after) ← templateChars (s.rest.length + 1) [] (s.skip 1)
  let close := if tail then 1 else 2
  let raw := (s.rest.drop 1).take (after.index - s.index - 1 - close)
  let outer := if head then s.braces else s.braces.tail
  let after := { after with braces := if tail then outer else true :: outer }
  return (after.token (.template (String.ofList cooked) head tail) (String.ofList raw) s.index,
    after)

/-! ## Punctuators -/

/-- The punctuators of several characters, the longest first. -/
def longPunctuators : List String :=
  [">>>=", "...", "===", "!==", ">>>", "<<=", ">>=", "**=", "&&", "||", "==", "!=", "+=", "-=",
    "*=", "/=", "++", "--", "<<", ">>", "&=", "|=", "^=", "%=", "<=", ">=", "=>", "**"]

/-- The punctuators of one character. -/
def shortPunctuators : List Char := "()\x7b\x7d;,[]:?~.<>=!+-*%&|^/".toList

/-- A punctuator. -/
def nextPunctuator (s : Scan) : Except ParseFailure (Token × Scan) :=
  match longPunctuators.find? (fun p => p.toList.isPrefixOf s.rest) with
  | some p => let after := s.skip p.length; .ok (after.token .punctuator p s.index, after)
  | none =>
    match s.rest with
    | c :: _ =>
      if shortPunctuators.contains c then
        let after := s.skip 1
        let after :=
          if c == '{' then { after with braces := false :: s.braces }
          else if c == '}' then { after with braces := s.braces.tail }
          else after
        .ok (after.token .punctuator (String.ofList [c]) s.index, after)
      else s.illegal
    | [] => s.illegal

/-! ## Any token -/

/-- The next token; nothing is skipped in front of it. -/
def next (s : Scan) : Except ParseFailure (Token × Scan) :=
  match s.rest with
  | [] => .ok (s.token .eof "" s.index, s)
  | '.' :: d :: _ => if d.isDigit then s.nextNumber else s.nextPunctuator
  | c :: _ =>
    if startsName c then s.nextName
    else if c == '\'' || c == '"' then s.nextString c
    else if c.isDigit then s.nextNumber
    else if c == '\x60' || (c == '}' && s.braces.head? == some true) then s.nextTemplate
    else s.nextPunctuator

/-! ## Regular expressions -/

/-- A regular expression without a closing slash. -/
def unclosedPattern {α : Type} (s : Scan) : Except ParseFailure α :=
  s.fail "Invalid regular expression: missing /"

/-- The body of a regular expression up to its closing slash, in reverse before `body`. -/
def patternBody : (fuel : Nat) → (inClass : Bool) → (body : List Char) → Scan →
    Except ParseFailure (List Char × Scan)
  | 0, _, _, s => s.unclosedPattern
  | fuel + 1, inClass, body, s =>
    match s.rest with
    | [] => s.unclosedPattern
    | ['\\'] => (s.skip 2).unclosedPattern
    | '\\' :: c :: _ =>
      if isLineEnd c then (s.skip 2).unclosedPattern
      else patternBody fuel inClass (c :: '\\' :: body) (s.skip 2)
    | c :: _ =>
      if isLineEnd c then (s.skip 1).unclosedPattern
      else if c == '/' && !inClass then .ok (body.reverse, s.skip 1)
      else patternBody fuel ((inClass || c == '[') && c != ']') (c :: body) (s.skip 1)

/-- The flags of a regular expression.  An escape among them is refused behind its digits; a backslash
that ends the source is taken for a flag. -/
def patternFlags (s : Scan) : Except ParseFailure (List Char × Scan) :=
  let (flags, after) := s.takeWhile Unicode.isIdPart
  match after.rest with
  | ['\\'] => .ok (flags ++ ['\\'], after.skip 1)
  | '\\' :: 'u' :: _ =>
    match (after.skip 2).fixedHex? 4 with
    | some (_, behind) => behind.illegal
    | none => (after.skip 2).illegal
  | '\\' :: _ => (after.skip 1).illegal
  | _ => .ok (flags, after)

/-- A regular expression that starts at the current slash. -/
def nextPattern (s : Scan) : Except ParseFailure (Token × Scan) := do
  let (body, s1) ← patternBody (s.rest.length + 1) false [] (s.skip 1)
  let (flags, s2) ← s1.patternFlags
  if Regex.isWellFormed body then
    let pattern : Pattern := ⟨String.ofList body, String.ofList flags⟩
    return (s2.token (.regex pattern) "" s.index, s2)
  else s2.fail "Invalid regular expression"

end Scan

end Descramble.Source

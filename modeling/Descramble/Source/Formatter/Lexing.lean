import Descramble.Source.Formatter.Extent

/-!
# Reading lexemes

* `Reading` — what is known at a place of the text.
* `Reading.find` — the lexeme or the remark at a place.
* `lexemes` — the lexemes of a text; the last one marks the end.
-/

set_option autoImplicit false

namespace Descramble.Formatter

/-- The operators, the longest first. -/
def operators : List String :=
  [">>>=", "...", ">>=", "<<=", "===", ">>>", "!==", "**=", "&&=", "??=", "||=", "=>", "^=", "::",
    "/=", "<<", "<=", "==", "&&", "-=", ">=", ">>", "!=", "--", "+=", "**", "||", "??", "++", "%=",
    "&=", "*=", "|=", "|>", "=", "!", "?", ">", "<", ":", "/", "^", "-", "+", "*", "&", "%", "~", "|"]

/-- A bracket that is open: its text, and whether it stands behind `if`, `while` or `for`. -/
structure OpenBracket where
  text : String
  afterCondition : Bool
  deriving DecidableEq, Repr

/-- What is known when a lexeme is read. -/
structure Reading where
  /-- The lexeme before. -/
  previous : Lexeme := beforeFirst
  /-- Has no lexeme been read? -/
  isFirst : Bool := true
  /-- Is a page's comment open, which hides the script from old browsers? -/
  inPageComment : Bool := false
  /-- The brackets that are open, the innermost first. -/
  brackets : List OpenBracket := []
  /-- The bracket that the lexeme before closed. -/
  closed : Option OpenBracket := none
  deriving Repr

/-- What stands at a place of the text. -/
inductive Found where
  | lexeme (kind : LexemeKind) (length : Nat)
  | remark (kind : RemarkKind) (length : Nat)
  deriving Repr

namespace Reading

/-- May a slash here start a regular expression? -/
def allowsPattern (r : Reading) : Except FormatError Bool :=
  let t := r.previous
  if t.kind == .closing && t.text == ")" then
    match r.closed with
    | some bracket => .ok bracket.afterCondition
    | none => .error .unopened
  else
    .ok (t.isReserved ["return", "case", "throw", "else", "do", "typeof", "yield"] ||
      [LexemeKind.opening, .openBrace, .closeBrace, .operator, .equals, .finish, .semicolon,
        .comma].contains t.kind)

/-- The kind of a word. -/
def wordKind (r : Reading) (word : String) : LexemeKind :=
  let previous := r.previous
  if previous.kind == .dot || previous.isReserved ["set", "get"] || !reservedWords.contains word then
    .word
  else if (word == "in" || word == "of") && (previous.kind == .word || previous.kind == .quoted) then
    .operator
  else .reserved

/-- What a text outside the language of scripts is, if it is one that is known: a line for another
program, the marks of a page's comment, a numbered reference. -/
def findForeign? (r : Reading) (cs : List Char) : Option Found :=
  if (r.isFirst && startsWith "#!" cs) || startsWith "#include" cs then
    some (.remark .preamble (fullLineLength cs))
  else if r.isFirst && startsWith "<!--" cs then some (.remark .line (lineLength cs))
  else if r.inPageComment && startsWith "-->" cs then some (.remark .line 3)
  else
    match cs with
    | '#' :: d :: _ => if d.isDigit then some (.lexeme .word (sharpLength cs)) else none
    | _ => none

end Reading

/-- The kind of a lexeme of one character. -/
def singleKind? (c : Char) (next : Option Char) : Option LexemeKind :=
  match c with
  | '(' => some .opening
  | '[' => some .opening
  | ')' => some .closing
  | ']' => some .closing
  | '{' => some .openBrace
  | '}' => some .closeBrace
  | ';' => some .semicolon
  | ',' => some .comma
  | '.' => if (next.map fun d => !Unicode.isDecimal d && d != '.').getD false then some .dot else none
  | _ => none

/-- The comment at a place, from its opening mark on. -/
def findComment? (cs : List Char) : Option Found :=
  match cs with
  | '/' :: '*' :: rest =>
    let n := blockLength rest + 2
    let directives := directivesOf (cs.take n)
    let ignored := if settingOf "ignore" directives == some "start" then ignoredLength (cs.drop n)
      else 0
    some (.remark (.block directives) (n + ignored))
  | '/' :: '/' :: _ => some (.remark .line (lineLength cs))
  | _ => none

/-- The operator at a place, or a character that belongs nowhere. -/
def findOperator (cs : List Char) : Found :=
  let isChain := match cs with
    | '?' :: '.' :: rest => !(rest.head?.map Unicode.isDecimal).getD false
    | _ => false
  if isChain then .lexeme .dot 2
  else
    match operators.find? fun p => startsWith p cs with
    | some p => .lexeme (if p == "=" then .equals else .operator) p.length
    | none => .remark .stray 1

namespace Reading

/-- A regular expression, an operator or a character that belongs nowhere. -/
def findSlashed (r : Reading) (c : Char) (rest : List Char) : Except FormatError Found := do
  if c == '/' then
    if ← r.allowsPattern then
      let (n, closed) := patternLength false rest
      let flags := if closed then wordLength (rest.drop n) else 0
      return .lexeme .quoted (n + flags + 1)
  return findOperator (c :: rest)

/-- The lexeme or the remark at a place, where the character stands in front of the rest. -/
def find (r : Reading) (c : Char) (rest : List Char) : Except FormatError Found :=
  let cs := c :: rest
  match r.findForeign? cs with
  | some found => .ok found
  | none =>
    if c == '\'' || c == '"' then .ok (.lexeme .quoted (stringLength c rest + 1))
    else if c == '\x60' then .ok (.lexeme .quoted (templateLength [false] rest + 1))
    else if c == '#' && rest.head? == some '{' then .ok (.lexeme .openBrace 2)
    else
      let word := wordLength cs
      let number := numberLength cs
      if 0 < word then .ok (.lexeme (r.wordKind (String.ofList (cs.take word))) word)
      else if 0 < number then .ok (.lexeme .word number)
      else
        match singleKind? c rest.head? with
        | some kind => .ok (.lexeme kind 1)
        | none =>
          match findComment? cs with
          | some found => .ok found
          | none => r.findSlashed c rest

/-- Does a bracket close another one? -/
def closes (t : Lexeme) (bracket : OpenBracket) : Bool :=
  (t.text == "]" && bracket.text == "[") || (t.text == ")" && bracket.text == "(") ||
    (t.text == "\x7d" && bracket.text == "\x7b")

/-- What is known behind a lexeme. -/
def after (r : Reading) (t : Lexeme) : Reading :=
  let r' := { r with previous := t, isFirst := false, closed := none }
  if t.kind == .opening || t.kind == .openBrace then
    let afterCondition := r.previous.isReserved ["if", "while", "for"]
    { r' with brackets := ⟨t.text, afterCondition⟩ :: r.brackets }
  else if t.kind == .closing || t.kind == .closeBrace then
    match r.brackets with
    | bracket :: outer =>
      if closes t bracket then { r' with brackets := outer, closed := some bracket } else r'
    | [] => r'
  else r'

/-- What is known behind a remark. -/
def afterRemark (r : Reading) (remark : Remark) : Reading :=
  if remark.kind == .line then
    if startsWith "<!--" remark.text.toList then { r with inPageComment := true }
    else if remark.text == "-->" then { r with inPageComment := false }
    else r
  else r

end Reading

/-- The text of a remark. -/
def remarkText (kind : RemarkKind) (cs : List Char) : List Char :=
  match kind with
  | .block _ => lineFeeds cs
  | .preamble => Text.trim Unicode.isSpace cs ++ ['\n']
  | _ => cs

/-- The lexemes of a text behind some remarks, the last one first; `fuel` bounds the number of lexemes
and remarks. -/
def lexemesFrom : (fuel : Nat) → Reading → (remarks : List Remark) → List Char →
    Except FormatError (List Lexeme)
  | 0, _, _, _ => .ok []
  | fuel + 1, r, remarks, cs => do
    let gap := cs.takeWhile fun c => isBlank c || isBreak c
    let blanks := (gap.reverse.takeWhile fun c => !isBreak c).reverse
    let fragment (text : List Char) : Fragment :=
      ⟨String.ofList text, countBreaks gap, String.ofList blanks⟩
    match cs.drop gap.length with
    | [] => return [⟨fragment [], .finish, remarks.reverse⟩]
    | c :: rest =>
      let here := c :: rest
      match ← r.find c rest with
      | .lexeme kind length =>
        let text := here.take length
        let text := if kind == .quoted then lineFeeds text else text
        let t : Lexeme := ⟨fragment text, kind, remarks.reverse⟩
        let following ← lexemesFrom fuel (r.after t) [] (here.drop length)
        return t :: following
      | .remark kind length =>
        let remark : Remark := ⟨fragment (remarkText kind (here.take length)), kind⟩
        lexemesFrom fuel (r.afterRemark remark) (remark :: remarks) (here.drop length)

/-- The lexemes of a text. -/
def lexemes (cs : List Char) : Except FormatError (List Lexeme) :=
  lexemesFrom (cs.length + 1) {} [] cs

end Descramble.Formatter

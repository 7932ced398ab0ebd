import Descramble.Text
import Descramble.Unicode.Digit

/-!
# Start tags

A start tag is read as browsers' older parsers do: attributes may lack quotes and values, and slashes
between them are ignored.

* `StartTag` — the name of an element, the names of its attributes, and whether it is closed at once.
* `startTagLength?` — the length of a start tag, if it is complete.
* `startTag?` — the start tag at the start of a text, if it is well-formed.
* `endTagName?` — the name in an end tag.
-/

set_option autoImplicit false

namespace Descramble.Markup

/-! ## Classes of characters -/

def isSpace (c : Char) : Bool := Unicode.isSpace c

/-- Does the character continue the name of an element? -/
def continuesTagName (c : Char) : Bool :=
  !(c == '\t' || c == '\n' || c == '\r' || c == '\x0c' || c == ' ' || c == '/' || c == '>' ||
    c.toNat = 0)

/-- Can an attribute follow the character? -/
def precedesAttribute (c : Char) : Bool := c == '\'' || c == '"' || c == '/' || isSpace c

/-- The length of the longest start made of characters of a class. -/
def spanLength (p : Char → Bool) (cs : List Char) : Nat := (cs.takeWhile p).length

def lowered (cs : List Char) : String := String.ofList (cs.map Char.toLower)

/-! ## Attributes -/

/-- The length of what separates attributes: blanks, and slashes that do not close the tag. -/
def gapLength : List Char → Nat
  | [] => 0
  | c :: rest =>
    if isSpace c || (c == '/' && rest.head? != some '>') then gapLength rest + 1 else 0

/-- The length of a value that is not in quotes. -/
def bareLength (cs : List Char) : Nat := spanLength (fun c => c != '>' && !isSpace c) cs

/-- The length of a value in quotes with its quotes; none if it is not closed. -/
def quotedLength? (quote : Char) (cs : List Char) : Option Nat :=
  let body := spanLength (· != quote) cs
  if body < cs.length then some (body + 2) else none

/-- The length of the value of an attribute with its equals signs; none if there is no value.  If a
quote is not closed, then the value is empty before the blanks in front of the quote, or starts at the
last of several equals signs. -/
def valueLength? (cs : List Char) : Option Nat :=
  let blanks := spanLength isSpace cs
  let signs := spanLength (· == '=') (cs.drop blanks)
  let start := blanks + signs
  let inner := spanLength isSpace (cs.drop start)
  let unclosed : Option Nat :=
    if 0 < inner then some (start + inner - 1)
    else if 1 < signs then some (start - 1 + bareLength (cs.drop (start - 1)))
    else none
  if signs = 0 then none
  else
    match cs.drop (start + inner) with
    | [] => some (start + inner)
    | c :: rest =>
      if c == '\'' || c == '"' then
        match quotedLength? c rest with
        | some n => some (start + inner + n)
        | none => unclosed
      else some (start + inner + bareLength (c :: rest))

/-- The name of the attribute that follows a character, and the length of the attribute with the gap
behind it. -/
def attribute? (before : Char) (cs : List Char) : Option (String × Nat) :=
  match cs with
  | [] => none
  | c :: rest =>
    if precedesAttribute before && !(isSpace c || c == '/' || c == '>') then
      let more := spanLength (fun c => !(isSpace c || c == '/' || c == '=' || c == '>')) rest
      let name := c :: rest.take more
      let behind := rest.drop more
      let value := (valueLength? behind).getD 0
      let length := name.length + value + gapLength (behind.drop value)
      some (lowered name, length)
    else none

/-- The names of the attributes that follow a character before `limit` characters have been read, and
the length of all; `fuel` bounds their number. -/
def attributes : (fuel : Nat) → (limit : Option Nat) → (before : Char) → List Char →
    List String × Nat
  | 0, _, _, _ => ([], 0)
  | fuel + 1, limit, before, cs =>
    if limit == some 0 then ([], 0)
    else
      match attribute? before cs with
      | none => ([], 0)
      | some (name, n) =>
        let last := ((cs.take n).getLast?).getD before
        let (names, m) := attributes fuel (limit.map (· - n)) last (cs.drop n)
        (name :: names, n + m)

/-! ## Tags -/

/-- The last of some characters, or the one before them. -/
def lastOr (before : Char) (cs : List Char) : Char := cs.getLast?.getD before

/-- The length of a start tag, whose first two characters are a bracket and a letter, up to its
closing bracket; none if the text ends before, or in a value that is not closed. -/
def startTagLength? (cs : List Char) : Option Nat :=
  let name := 1 + spanLength continuesTagName (cs.drop 1)
  let gap := spanLength (fun c => isSpace c || c == '/') (cs.drop name)
  let start := name + gap
  let before := lastOr '<' (cs.take start)
  let stop := start + (attributes (cs.length + 1) none before (cs.drop start)).2
  let stop := stop + spanLength isSpace (cs.drop stop)
  match cs.drop stop with
  | [] => none
  | '>' :: _ => some (stop + 1)
  | '/' :: '>' :: _ => some (stop + 2)
  | c :: _ => if c == '/' || c == '=' || c.isAlpha then none else some stop

/-- A start tag. -/
structure StartTag where
  name : String
  attributes : List String
  closed : Bool
  deriving DecidableEq, Repr

/-- The start tag that takes up a text. -/
def startTag? (cs : List Char) (length : Nat) : Option StartTag :=
  let nameLength := spanLength continuesTagName (cs.drop 1)
  let start := 1 + nameLength + gapLength (cs.drop (1 + nameLength))
  let before := lastOr '<' (cs.take start)
  let (names, n) := attributes (cs.length + 1) (some (length - start)) before (cs.drop start)
  let finish := Text.trim isSpace ((cs.take length).drop (start + n))
  let name := lowered ((cs.drop 1).take nameLength)
  if finish == ['>'] then some ⟨name, names, false⟩
  else if finish == ['/', '>'] then some ⟨name, names, true⟩
  else none

/-- Does the character continue the name in an end tag that holds nothing else? -/
def continuesEndName (c : Char) : Bool :=
  c.isAlphanum || c == '-' || c == '.' || c == ':' || c == '_'

/-- The name in an end tag, of which the text starts behind the slash.  Blanks in front of the name are
allowed only if nothing else follows it. -/
def endTagName? (cs : List Char) : Option String :=
  let start := cs.dropWhile isSpace
  let name := start.takeWhile continuesEndName
  let behind := (start.drop name.length).dropWhile isSpace
  if (name.head?.any Char.isAlpha) && behind.head? == some '>' then some (lowered name)
  else if cs.head?.any Char.isAlpha then some (lowered (cs.takeWhile continuesTagName))
  else none

end Descramble.Markup

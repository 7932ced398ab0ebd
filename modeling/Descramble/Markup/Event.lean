import Descramble.Markup.Tag
import Descramble.Text.Quoted

/-!
# Reading a page

A page is read from its start to its end, one construct after the other, and each start tag, end tag
and piece of text is told as an event.

* `Event` — what is told.
* `construct` — what stands at an opening bracket.
* `readEvents` — the events of a page, and what is left of it when raw text is not closed.
-/

set_option autoImplicit false

namespace Descramble

/-- Why a page cannot be read. -/
inductive MarkupFault where
  /-- A marked section has no keyword. -/
  | keywordExpected (near : String)
  /-- A marked section has a keyword that is not known. -/
  | unknownKeyword (keyword : String)
  deriving DecidableEq, Repr

def MarkupFault.message : MarkupFault → String
  | .keywordExpected near => "expected name token at " ++ Text.shown near
  | .unknownKeyword keyword =>
    "unknown status keyword " ++ Text.shown keyword ++ " in marked section"

namespace Markup

/-! ## Ends of constructs -/

/-- The first place where a recogniser finds something, and the length of what it finds. -/
def search (recognise : List Char → Option Nat) : List Char → Option (Nat × Nat)
  | [] => (recognise []).map fun n => (0, n)
  | c :: rest =>
    match recognise (c :: rest) with
    | some n => some (0, n)
    | none => (search recognise rest).map fun (place, n) => (place + 1, n)

/-- Does the text start with the part, which is in lower case?  The case of the text is ignored. -/
def startsLike (part cs : List Char) : Bool := (cs.take part.length).map Char.toLower == part

/-- A recogniser of the parts in order, with blanks between them. -/
def spaced : (parts : List (List Char)) → List Char → Option Nat
  | [], _ => some 0
  | [part], cs => if startsLike part cs then some part.length else none
  | part :: parts, cs =>
    if startsLike part cs then
      let rest := cs.drop part.length
      let blanks := spanLength isSpace rest
      (spaced parts (rest.drop blanks)).map (part.length + blanks + ·)
    else none

/-- The length of a text up to the end of what a recogniser finds behind `start` characters. -/
def lengthTo (start : Nat) (recognise : List Char → Option Nat) (cs : List Char) : Option Nat :=
  (search recognise (cs.drop start)).map fun (place, n) => start + place + n

/-- The length of a text up to the first closing bracket behind `start` characters. -/
def lengthToBracket (start : Nat) (cs : List Char) : Option Nat := lengthTo start (spaced [['>']]) cs

/-- The end tag of an element whose text is raw. -/
def endTag (name : String) (cs : List Char) : Option Nat :=
  spaced [['<', '/'], name.toList, ['>']] cs

/-- The length of a construct that is not finished: up to the next closing bracket, or else up to the
next opening one. -/
def unfinishedLength (cs : List Char) : Nat :=
  match lengthToBracket 1 cs with
  | some n => n
  | none =>
    match search (spaced [['<']]) (cs.drop 1) with
    | some (place, _) => place + 1
    | none => 1

/-! ## Constructs -/

/-- What stands at an opening bracket, and its length. -/
inductive Construct where
  | start (tag : StartTag) (length : Nat)
  | finish (name : String) (length : Nat)
  /-- The bracket is text after all. -/
  | text (length : Nat)
  /-- A comment or a declaration. -/
  | remark (length : Nat)
  /-- The page ends before the construct does. -/
  | unfinished
  deriving DecidableEq, Repr

def Construct.ofLength (made : Nat → Construct) : Option Nat → Construct
  | some n => made n
  | none => .unfinished

/-- A marked section; the text starts with its mark of three characters. -/
def section? (cs : List Char) : Except MarkupFault Construct :=
  let body := cs.drop 3
  match body with
  | [] => .ok .unfinished
  | c :: _ =>
    if !c.isAlpha then .error (.keywordExpected (String.ofList (cs.take 20)))
    else
      let isKeyword (c : Char) : Bool := c.isAlphanum || c == '-' || c == '_' || c == '.'
      let n := spanLength isKeyword body
      let stop := n + spanLength isSpace (body.drop n)
      let keyword := lowered (body.take n)
      if stop = body.length then .ok .unfinished
      else if ["temp", "cdata", "ignore", "include", "rcdata"].contains keyword then
        .ok (.ofLength .remark (lengthTo 3 (spaced [[']'], [']'], ['>']]) cs))
      else if ["if", "else", "endif"].contains keyword then
        .ok (.ofLength .remark (lengthTo 3 (spaced [[']'], ['>']]) cs))
      else .error (.unknownKeyword (String.ofList (body.take stop)))

/-- A start tag. -/
def startConstruct (cs : List Char) : Construct :=
  match startTagLength? cs with
  | none => .unfinished
  | some n =>
    match startTag? cs n with
    | some tag => .start tag n
    | none => .text n

/-- An end tag, which goes up to the next closing bracket; without a name it is a comment. -/
def endConstruct (cs : List Char) : Construct :=
  match endTagName? (cs.drop 2) with
  | some name => .ofLength (.finish name) (lengthToBracket 1 cs)
  | none => .ofLength .remark (lengthToBracket 1 cs)

/-- What stands at the opening bracket at the start of a text. -/
def construct (cs : List Char) : Except MarkupFault Construct :=
  match cs with
  | '<' :: '/' :: _ => .ok (endConstruct cs)
  | '<' :: '!' :: '-' :: '-' :: _ =>
    .ok (.ofLength .remark (lengthTo 4 (spaced [['-', '-'], ['>']]) cs))
  | '<' :: '?' :: _ => .ok (.ofLength .remark (lengthToBracket 2 cs))
  | '<' :: '!' :: '[' :: _ => section? cs
  | '<' :: '!' :: _ =>
    let isType := lowered (cs.take 9) == "<!doctype"
    .ok (.ofLength .remark (lengthToBracket (if isType then 9 else 2) cs))
  | '<' :: c :: _ => .ok (if c.isAlpha then startConstruct cs else .text 1)
  | _ => .ok (.text 1)

/-! ## Events -/

/-- What is told of a page. -/
inductive Event where
  | start (name : String) (attributes : List String)
  | finish (name : String)
  | data (text : String)
  deriving DecidableEq, Repr

/-- Text between constructs is told unless there is none. -/
def textEvents (resolve : String → String) (cs : List Char) : List Event :=
  if cs.isEmpty then [] else [.data (resolve (String.ofList cs))]

namespace Construct

/-- The length of a construct at the start of a text. -/
def length (cs : List Char) : Construct → Nat
  | .start _ n => n
  | .finish _ n => n
  | .text n => n
  | .remark n => n
  | .unfinished => unfinishedLength cs

/-- What is told of a construct at the start of a text.  An element that is closed at once has a start
and an end. -/
def events (resolve : String → String) (cs : List Char) : Construct → List Event
  | .start tag _ =>
    .start tag.name tag.attributes :: (if tag.closed then [.finish tag.name] else [])
  | .finish name _ => [.finish name]
  | .text n => [.data (String.ofList (cs.take n))]
  | .remark _ => []
  | .unfinished => [.data (resolve (String.ofList (cs.take (unfinishedLength cs))))]

/-- The element whose raw text a construct opens. -/
def raw? : Construct → Option String
  | .start tag _ =>
    if !tag.closed && (tag.name == "script" || tag.name == "style") then some tag.name else none
  | _ => none

end Construct

/-- The events of a text and what is left of it, with those in front of the text. -/
def telling (before : List Event) (told : Except MarkupFault (List Event × List Char)) :
    Except MarkupFault (List Event × List Char) :=
  told.map fun (later, left) => (before ++ later, left)

/-- The events of a text, and what is left of it: raw text that is not closed is not told.  `raw` is
the element whose raw text the text starts in, `resolve` replaces the character references of text that
is not raw, and `fuel` bounds the number of constructs. -/
def readEvents (resolve : String → String) : (fuel : Nat) → (raw : Option String) → List Char →
    Except MarkupFault (List Event × List Char)
  | 0, _, cs => .ok ([], cs)
  | fuel + 1, some name, cs =>
    match search (endTag name) cs with
    | none => .ok ([], cs)
    | some (place, n) =>
      telling (textEvents id (cs.take place) ++ [.finish name])
        (readEvents resolve fuel none (cs.drop (place + n)))
  | fuel + 1, none, cs =>
    let before := textEvents resolve (cs.takeWhile (· != '<'))
    match cs.dropWhile (· != '<') with
    | [] => .ok (before, [])
    | c :: rest => do
      let cs := c :: rest
      let found ← construct cs
      telling (before ++ found.events resolve cs)
        (readEvents resolve fuel found.raw? (cs.drop (found.length cs)))

end Markup

end Descramble

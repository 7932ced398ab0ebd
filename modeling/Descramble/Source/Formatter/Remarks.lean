import Descramble.Source.Formatter.Page

/-!
# Remarks

What stands in front of a lexeme: comments, and line breaks that the text has.

* `writeBlock` — a comment of several lines.
* `onRemark` — any remark.
* `settle` — everything in front of a lexeme.
-/

set_option autoImplicit false

namespace Descramble.Formatter

/-- Several line breaks in front of a fragment stay as one empty line. -/
def keepBlankLine (t : Fragment) (keep : Bool) : Rule Unit := do
  if 1 < t.newlines then
    breakLine false keep
    breakLine true keep

/-- How the lines of a comment behind its first one are written. -/
inductive BlockStyle where
  /-- Every line starts with a star: the stars stand below the first one. -/
  | starred
  /-- Every line is indented at least as far as the first one: they move together. -/
  | shifted
  /-- The lines stay where they are. -/
  | fixed
  deriving DecidableEq, Repr

/-- The style of a comment from its lines behind the first one.  Empty lines count for no style. -/
def blockStyle (blanks : List Char) (lines : List (List Char)) : BlockStyle :=
  let isStarred (line : List Char) : Bool :=
    line.isEmpty || (line.dropWhile Unicode.isSpace).head? == some '*'
  let isShifted (line : List Char) : Bool := blanks.isPrefixOf line || line.all Unicode.isSpace
  if lines.all isStarred then .starred else if lines.all isShifted then .shifted else .fixed

/-- A line of a comment behind its first one. -/
def writeBlockLine (style : BlockStyle) (blanks line : List Char) : Rule Unit := do
  if style == .starred then
    indentLine 1
    addText (String.ofList (line.dropWhile Unicode.isSpace))
  else if style == .shifted && blanks.length < line.length then
    indentLine 0
    addText (String.ofList (line.drop blanks.length))
  else
    modify fun d => { d with page := d.page.indented none 0 }
    addText (String.ofList line)

/-- Writes a comment on lines of its own. -/
def writeBlock (t : Fragment) (keep : Bool) : Rule Unit := do
  let blanks := t.blanks.toList
  let lines := Text.splitOn ['\n'] t.text.toList
  breakLine false keep
  indentLine 0
  addText (String.ofList (lines.headD []))
  breakLine false keep
  for line in lines.tail do
    writeBlockLine (blockStyle blanks lines.tail) blanks line
    breakLine false keep

/-- A comment up to the end of its line: one that starts behind other text stays there. -/
def onLine (t : Fragment) (keep : Bool) : Rule Unit := do
  if 0 < t.newlines then breakLine false keep
  else modify fun d => { d with page := d.page.trimmed }
  setSpace true
  write t
  breakLine false keep

/-- A comment between two marks.  Its directives may say that the text behind it stays unchanged. -/
def onBlock (t : Fragment) (directives : List Directive) (keep : Bool) : Rule Unit := do
  let request := settingOf "preserve" directives
  if (← get).unchanged then
    write t
    modify fun d => { d with unchanged := request != some "end" }
  else if !directives.isEmpty then
    breakLine false keep
    write t
    modify fun d => { d with unchanged := request == some "start" }
    breakLine false true
  else if t.newlines = 0 && !t.text.toList.contains '\n' then
    setSpace true
    write t
    setSpace true
  else writeBlock t keep

/-- Handles a remark. -/
def onRemark (keep : Bool) (remark : Remark) : Rule Unit := do
  let t := remark.toFragment
  keepBlankLine t keep
  match remark.kind with
  | .line => onLine t keep
  | .block directives => onBlock t directives keep
  | .preamble =>
    write t
    breakLine false keep
  | .stray => write t

/-- Handles what stands in front of a lexeme: its remarks, and several line breaks. -/
def settle (t : Lexeme) (keep : Bool) : Rule Unit := do
  for remark in t.remarks do onRemark keep remark
  keepBlankLine t.toFragment keep

end Descramble.Formatter

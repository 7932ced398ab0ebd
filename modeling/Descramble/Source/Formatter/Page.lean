import Descramble.Source.Formatter.Lexing

/-!
# Pages and frames

* `Line`, `Page` — the lines that have been written, the current one last.
* `Frame` — what is known of a block, an expression or a statement that is open.
* `Desk` — the page, the open frames, and what was read last.
* `openFrame`, `closeFrame` — entering and leaving a frame.
* `breakLine` — a line break, which ends the statements that it completes.
* `write` — a fragment at the end of the page.
-/

set_option autoImplicit false

namespace Descramble.Formatter

/-! ## Pages -/

/-- A line: how far it is indented, the blanks behind the indentation, and its parts in reverse.  A
line without an indentation has no margin either. -/
structure Line where
  indent : Option Nat := some 0
  align : Nat := 0
  parts : List String := []
  deriving DecidableEq, Repr

namespace Line

def isEmpty (line : Line) : Bool := line.parts.isEmpty

/-- The text of a line; an empty line has no blanks. -/
def text (margin : String) (line : Line) : String :=
  if line.isEmpty then ""
  else
    let blanks (n : Nat) : String := String.ofList (List.replicate (n + line.align) ' ')
    let start := match line.indent with
      | some indent => margin ++ blanks (2 * indent)
      | none => blanks 0
    start ++ String.join line.parts.reverse

/-- The line without blanks at its end. -/
def trimmed (line : Line) : Line := { line with parts := line.parts.dropWhile (· == " ") }

/-- The line with its last part changed; an empty last part is dropped. -/
def mapLast (f : String → String) (line : Line) : Line :=
  match line.parts with
  | [] => line
  | last :: parts => { line with parts := if last.isEmpty then parts else f last :: parts }

end Line

/-- The lines of a page: the current one, and those before it in reverse. -/
structure Page where
  current : Line
  earlier : List Line
  deriving Repr

namespace Page

def blank : Page := ⟨{}, []⟩

/-- The number of lines. -/
def lineCount (page : Page) : Nat := page.earlier.length + 1

/-- Has nothing been written in the current line? -/
def atLineStart (page : Page) : Bool := page.current.isEmpty

/-- Has nothing been written in the current line and in the one before? -/
def atBlankLine (page : Page) : Bool :=
  page.current.isEmpty && (page.earlier.head?.map Line.isEmpty).getD true

/-- Starts a line, unless nothing has been written; without `force` an empty line is used again.
Says whether a line was started. -/
def startLine (page : Page) (force : Bool) : Page × Bool :=
  if page.current.isEmpty && (page.earlier.isEmpty || !force) then (page, false)
  else (⟨{}, page.current :: page.earlier⟩, true)

/-- Takes back blanks and empty lines at the end. -/
def dropEmpty : Line → List Line → Page
  | current, line :: earlier =>
    if current.trimmed.isEmpty then dropEmpty line earlier else ⟨current.trimmed, line :: earlier⟩
  | current, [] => ⟨current.trimmed, []⟩

def trimmed (page : Page) : Page := dropEmpty page.current page.earlier

/-- Moves the lines from an index on one step out. -/
def outdentFrom (page : Page) (index : Nat) : Page :=
  let count := page.earlier.length - index
  let out (line : Line) : Line := { line with indent := line.indent.map (· - 1) }
  { current := if index ≤ page.earlier.length then out page.current else page.current
    earlier := (page.earlier.take count).map out ++ page.earlier.drop count }

/-- Indents the current line, if it is empty and not the first one of the page. -/
def indented (page : Page) (indent : Option Nat) (align : Nat) : Page :=
  if page.current.isEmpty && !page.earlier.isEmpty then
    { page with current := ⟨indent, align, []⟩ }
  else page

/-- Adds a text to the current line; a blank in front of it is left out at the start of the line. -/
def add (page : Page) (space : Bool) (text : String) : Page :=
  let line := page.current
  let before := if space && !line.isEmpty then " " :: line.parts else line.parts
  { page with current := { line with parts := text :: before } }

/-- Adds a fragment as it stands in the text, with its line breaks and blanks. -/
def addUnchanged (page : Page) (t : Fragment) : Page :=
  let lines := (List.range t.newlines).foldl
    (fun (page : Page) _ => ⟨{}, page.current :: page.earlier⟩) page
  let line := if lines.current.isEmpty then { lines.current with indent := none } else lines.current
  { lines with current := { line with parts := t.text :: t.blanks :: line.parts } }

/-- A text without line feeds at its end. -/
def withoutFeeds (text : String) : String :=
  String.ofList (text.toList.reverse.dropWhile (· == '\n')).reverse

/-- The text of a page; it does not end in an empty line. -/
def text (page : Page) (margin : String) : String :=
  let page := page.trimmed
  let lines := page.current.mapLast withoutFeeds :: page.earlier
  "\n".intercalate (lines.reverse.map (Line.text margin))

end Page

/-! ## Frames -/

/-- What is open. -/
inductive FrameMode where
  | block
  | statement
  | object
  | array
  | loopHead
  | condition
  | expression
  deriving DecidableEq, Repr

/-- Is the frame inside parentheses or an index? -/
def FrameMode.isExpression : FrameMode → Bool
  | .expression => true
  | .loopHead => true
  | .condition => true
  | _ => false

/-- Something that is open. -/
structure Frame where
  mode : FrameMode
  /-- The last lexeme in this frame. -/
  last : Lexeme
  /-- The last word in this frame. -/
  lastWord : String
  isDeclaration : Bool := false
  /-- Has a value been given since the last comma of the declaration? -/
  hasValue : Bool := false
  /-- Has a line been started in this frame? -/
  multiline : Bool := false
  ifBlock : Bool := false
  elseBlock : Bool := false
  doBlock : Bool := false
  doWhile : Bool := false
  isSwitch : Bool := false
  inCase : Bool := false
  caseBody : Bool := false
  caseBlock : Bool := false
  /-- Have modules been named that come `from` another? -/
  importBlock : Bool := false
  indent : Nat := 0
  lineIndent : Nat := 0
  startLine : Nat := 1
  conditionals : Nat := 0
  deriving Repr

/-- The outermost frame. -/
def outermost : Frame := { mode := .block, last := beforeFirst, lastWord := "" }

/-- The state of formatting. -/
structure Desk where
  page : Page := .blank
  frame : Frame := outermost
  outer : List Frame := []
  /-- The frame that was entered from or left last. -/
  previous : Frame := outermost
  /-- The text of the lexeme before the last one. -/
  lastButOne : String := ""
  /-- Does a blank precede the next lexeme? -/
  space : Bool := false
  /-- Is the text kept as it stands? -/
  unchanged : Bool := false
  /-- The lexeme before the current one. -/
  before : Lexeme := beforeFirst
  /-- The lexemes behind the current one. -/
  upcoming : List Lexeme := []
  deriving Repr

/-- A step of formatting. -/
abbrev Rule := StateM Desk

def modifyFrame (f : Frame → Frame) : Rule Unit := modify fun d => { d with frame := f d.frame }

def getFrame : Rule Frame := do return (← get).frame

def parentMode : Rule FrameMode := do return ((← get).outer.head?.getD outermost).mode

def setSpace (space : Bool) : Rule Unit := modify fun d => { d with space := space }

def atLineStart : Rule Bool := do return (← get).page.atLineStart

/-- The lexeme behind the current one. -/
def nextLexeme : Rule Lexeme := do return (← get).upcoming.head?.getD (.void .finish)

/-- A frame inside the current one. -/
def Desk.inner (d : Desk) (mode : FrameMode) : Frame :=
  let base := d.frame
  let indent :=
    if !d.page.atLineStart && base.indent < base.lineIndent then base.lineIndent else base.indent
  { mode := mode
    last := base.last
    lastWord := base.lastWord
    indent := indent
    lineIndent := base.lineIndent
    startLine := d.page.lineCount }

/-- Enters a frame. -/
def openFrame (mode : FrameMode) : Rule Unit :=
  modify fun d => { d with frame := d.inner mode, outer := d.frame :: d.outer, previous := d.frame }

/-- Takes back the indentation of a frame that fills no line of its own. -/
def Desk.outdented (d : Desk) (frame : Frame) : Desk :=
  if frame.multiline || frame.mode == .loopHead || frame.mode == .condition then d
  else { d with page := d.page.outdentFrom frame.startLine }

/-- Leaves the current frame; the outermost one is never left. -/
def closeFrame : Rule Unit :=
  modify fun d =>
    match d.outer with
    | [] => d
    | frame :: outer =>
      let closed := { d with frame := frame, outer := outer, previous := d.frame }
      if d.frame.mode == .statement then closed.outdented d.frame else closed

/-- Leaves statements as long as a test holds. -/
def closeStatements (test : Frame → Bool) : Rule Unit := do
  let depth := (← get).outer.length
  for _ in List.range depth do
    let frame ← getFrame
    if frame.mode == .statement && test frame then closeFrame

/-- A statement is complete unless `else` or the end of a `do` loop follows. -/
def isComplete (next : Lexeme) (frame : Frame) : Bool :=
  !(frame.ifBlock && next.isReserved ["else"]) && !frame.doBlock

/-- A line break.  Unless `keep` says so, it ends the statements that are complete. -/
def breakLine (force keep : Bool) : Rule Unit := do
  let last := (← getFrame).last
  if !keep && !([";", ",", "="].contains last.text) &&
      (last.kind != .operator || last.text == "--" || last.text == "++") then
    closeStatements (isComplete (← nextLexeme))
  let d ← get
  let (page, started) := d.page.startLine force
  if !d.unchanged then modify fun d => { d with page := page }
  if started then modifyFrame fun f => { f with multiline := true }

def indentFrame : Rule Unit := modifyFrame fun f => { f with indent := f.indent + 1 }

/-- One step out, but not beyond the frame around. -/
def outdentFrame : Rule Unit := do
  let parent := (← get).outer.head?.getD outermost
  modifyFrame fun f => if parent.indent < f.indent then { f with indent := f.indent - 1 } else f

/-- Indents a new line as the frame asks, with further blanks. -/
def indentLine (align : Nat) : Rule Unit := do
  let page := (← get).page
  if page.atLineStart && !page.earlier.isEmpty then
    modifyFrame fun f => { f with lineIndent := f.indent }
  modify fun d => { d with page := d.page.indented (some d.frame.indent) align }

/-- Adds a text to the current line. -/
def addText (text : String) : Rule Unit :=
  modify fun d => { d with page := d.page.add d.space text, space := false }

/-- Writes a fragment. -/
def write (t : Fragment) : Rule Unit := do
  if (← get).unchanged then
    modify fun d => { d with page := d.page.addUnchanged t, space := false }
  else
    indentLine 0
    addText t.text

end Descramble.Formatter

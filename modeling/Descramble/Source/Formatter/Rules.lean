import Descramble.Source.Formatter.Remarks

/-!
# Rules of formatting

One rule for each kind of lexeme: where a line breaks in front of it, how far the line is indented,
and whether a blank separates it from its neighbours.
-/

set_option autoImplicit false

namespace Descramble.Formatter

/-! ## Line breaks that stood in the text -/

/-- The operators at which a line may break. -/
def breakingOperators : List String :=
  [">>>", "===", "!==", "&&=", "??=", "||=", "<<", "&&", ">=", "**", "!=", "==", "<=", ">>", "||",
    "??", "|>", "<", "/", "-", "+", ">", ":", "&", "%", "?", "^", "|", "*"]

/-- A line break in front of a lexeme stays where a line may break. -/
def keepBreak (t : Lexeme) (force : Bool) : Rule Unit := do
  if !(← atLineStart) && (0 < t.newlines || force) then breakLine false true

/-! ## Starts of statements -/

/-- The words behind which no line may break. -/
def bindingWords : List String := ["async", "break", "continue", "return", "throw", "yield"]

/-- The words that go together with what follows them. -/
def specialWords : List String :=
  ["case", "return", "do", "if", "throw", "else", "await", "break", "continue", "async"]

def variableWords : List String := ["var", "let", "const"]

/-- Does the value of a property follow? -/
def expectsValue (frame : Frame) : Bool :=
  (frame.last.text == ":" && frame.conditionals = 0) || frame.last.isReserved ["get", "set"]

/-- Does the value of a property start here? -/
def startsValue : Rule Bool := do
  let frame ← getFrame
  return (← parentMode) == .object && frame.mode == .statement && expectsValue frame

/-- Does the lexeme start a statement? -/
def startsStatement (t : Lexeme) : Rule Bool := do
  let d ← get
  let frame := d.frame
  let last := frame.last
  let inProperty := (← parentMode) == .object && frame.mode == .statement
  return (last.isReserved variableWords && t.kind == .word) ||
    last.isReserved ["do"] ||
    (!inProperty && last.isReserved bindingWords && t.newlines = 0) ||
    (last.isReserved ["else"] && !(t.isReserved ["if"] && t.remarks.isEmpty)) ||
    (last.kind == .closing &&
      (d.previous.mode == .loopHead || d.previous.mode == .condition)) ||
    (last.kind == .word && frame.mode == .block && !frame.inCase && t.text != "--" &&
      t.text != "++" && d.lastButOne != "function" && t.kind != .word && t.kind != .reserved) ||
    (frame.mode == .object && expectsValue frame)

/-- Enters a statement if the lexeme starts one; says whether it does. -/
def enterStatement (t : Lexeme) : Rule Bool := do
  if ← startsStatement t then
    openFrame .statement
    indentFrame
    settle t true
    if !(← startsValue) then keepBreak t (t.isReserved ["do", "for", "if", "while"])
    return true
  else return false

/-! ## Brackets -/

/-- The kind of expression that a parenthesis opens, and the blank in front of it. -/
def openParenthesis (t : Lexeme) : Rule FrameMode := do
  let frame ← getFrame
  let last := frame.last
  let mode ←
    if last.kind == .reserved then
      if last.text == "for" then
        setSpace true
        pure FrameMode.loopHead
      else if ["if", "while", "switch"].contains last.text then
        setSpace true
        pure FrameMode.condition
      else
        if ["await", "async"].contains frame.lastWord then setSpace true
        else if last.text == "import" && t.blanks.isEmpty then setSpace false
        else if lineStarters.contains last.text || last.text == "catch" then setSpace true
        pure FrameMode.expression
    else
      if last.kind == .equals || last.kind == .operator then
        if !(← startsValue) then keepBreak t false
      else if last.kind == .word then setSpace false
      else keepBreak t false
      pure FrameMode.expression
  let frame ← getFrame
  let lastButOne := (← get).lastButOne
  let last := frame.last
  if (last.kind == .reserved && (frame.lastWord == "function" || frame.lastWord == "typeof")) ||
      (last.text == "*" && (["function", "yield"].contains lastButOne ||
        (frame.mode == .object && ["\x7b", ","].contains lastButOne))) then
    setSpace false
  return mode

/-- The blank or the line break in front of a bracket that opens an array. -/
def openBracket : Rule FrameMode := do
  let d ← get
  let last := d.frame.last
  if d.frame.mode == .array && (last.text == "[" ||
      (last.text == "," && (d.lastButOne == "]" || d.lastButOne == "\x7d"))) then
    breakLine false false
  let last := (← getFrame).last
  if !([LexemeKind.opening, .closing, .word, .operator, .dot].contains last.kind) then setSpace true
  return .array

/-- A bracket behind a name or a call: an index. -/
def openIndex (t : Lexeme) : Rule Unit := do
  if (← getFrame).last.isReserved lineStarters then setSpace true
  write t.toFragment
  openFrame .expression
  indentFrame

def onOpening (t : Lexeme) : Rule Unit := do
  if !(← enterStatement t) then settle t false
  let last := (← getFrame).last
  if t.text == "[" && (last.kind == .word || last.text == ")") then openIndex t
  else
    let mode ← if t.text == "[" then openBracket else openParenthesis t
    let last := (← getFrame).last
    if last.text == ";" || last.kind == .openBrace then breakLine false false
    else if [LexemeKind.closing, .opening, .closeBrace, .comma].contains last.kind || last.text == "."
    then keepBreak t (0 < t.newlines)
    write t.toFragment
    openFrame mode
    indentFrame

def onClosing (t : Lexeme) : Rule Unit := do
  closeStatements fun _ => true
  settle t false
  let frame ← getFrame
  if frame.multiline then keepBreak t (t.text == "]" && frame.mode == .array)
  outdentFrame
  write t.toFragment
  closeFrame
  modify fun d => d.outdented d.previous
  let d ← get
  if d.frame.doWhile && d.previous.mode == .condition then
    modify fun d => { d with
      previous := { d.previous with mode := .expression }
      frame := { d.frame with doBlock := false, doWhile := false } }

/-! ## Braces -/

/-- What a brace opens. -/
def braceMode (lastButOne : String) (frame : Frame) (upcoming : List Lexeme) : FrameMode × Bool :=
  let last := frame.last
  let looksLikeObject := match upcoming with
    | next :: second :: _ =>
      ([":", ","].contains second.text &&
        [LexemeKind.quoted, .word, .reserved].contains next.kind) ||
      (["get", "set", "..."].contains next.text &&
        [LexemeKind.word, .reserved].contains second.kind)
    | _ => false
  let namesMember := match upcoming with
    | _ :: second :: _ => [":", ","].contains second.text
    | _ => false
  if frame.lastWord == "switch" && last.kind == .closing then (.block, true)
  else if frame.caseBody then (.block, false)
  else if looksLikeObject then
    if ["class", "interface"].contains lastButOne && !namesMember then (.block, false)
    else (.object, false)
  else if last.kind == .operator && last.text == "=>" then (.block, false)
  else if [LexemeKind.equals, .opening, .comma, .operator].contains last.kind ||
      last.isReserved ["return", "throw", "import", "default"] then (.object, false)
  else (.block, false)

def onOpenBrace (t : Lexeme) : Rule Unit := do
  settle t false
  let d ← get
  let (mode, isSwitch) := braceMode d.lastButOne d.frame d.upcoming
  openFrame mode
  if isSwitch then modifyFrame fun f => { f with isSwitch := true }
  let d ← get
  let last := d.frame.last
  if d.previous.mode == .array && last.kind == .comma then setSpace true
  if last.kind != .operator && last.kind != .opening then
    if last.kind == .openBrace || last.kind == .semicolon then breakLine false false
    else setSpace true
  write t.toFragment
  indentFrame
  let next ← nextLexeme
  if !(next.text == "\x7d" && next.remarks.isEmpty) then breakLine false false

def onCloseBrace (t : Lexeme) : Rule Unit := do
  settle t false
  closeStatements fun _ => true
  if (← getFrame).last.kind != .openBrace then breakLine false false
  closeFrame
  write t.toFragment

/-! ## Words -/

/-- Words that are reserved only in some places become plain words elsewhere. -/
def plainWord (t : Lexeme) : Rule Lexeme := do
  let frame ← getFrame
  let mode := frame.mode
  let next := (← nextLexeme).text
  let isPlain := t.kind == .reserved &&
    ((["set", "get"].contains t.text && mode != .object) ||
      (t.text == "import" && ["(", "."].contains next) ||
      (["as", "from"].contains t.text && !frame.importBlock) || (mode == .object && next == ":"))
  return if isPlain then { t with kind := .word } else t

/-- The start of a word: a statement, a line that started with the word, or neither. -/
def startWord (t : Lexeme) : Rule Unit := do
  let last := (← getFrame).last
  if ← enterStatement t then
    if last.isReserved variableWords && t.kind == .word then
      modifyFrame fun f => { f with isDeclaration := true }
  else
    let frame ← getFrame
    settle t false
    if 0 < t.newlines && !frame.mode.isExpression &&
        (last.kind != .operator || last.text == "--" || last.text == "++") && last.kind != .equals
    then breakLine false false

/-- A word may end the branches of a condition. -/
def endBranches (t : Lexeme) : Rule Unit := do
  let frame ← getFrame
  if frame.ifBlock then
    if !frame.elseBlock && t.isReserved ["else"] then
      modifyFrame fun f => { f with elseBlock := true }
    else
      closeStatements fun _ => true
      modifyFrame fun f => { f with ifBlock := false, elseBlock := false }

/-- A label of a switch. -/
def writeCase (t : Lexeme) : Rule Unit := do
  breakLine false false
  let frame ← getFrame
  if !frame.caseBlock && frame.caseBody then outdentFrame
  modifyFrame fun f => { f with caseBody := false }
  write t.toFragment
  modifyFrame fun f => { f with inCase := true }

/-- The word `function`; an empty line stands in front of a declaration. -/
def writeFunction (t : Lexeme) : Rule Unit := do
  let last := (← getFrame).last
  let inside := ["(", "[", "\x7b", ":", "=", ","].contains last.text || last.kind == .operator
  if ["\x7d", ";"].contains last.text || ((← atLineStart) && !inside) then
    if !(← get).page.atBlankLine && t.remarks.isEmpty then
      breakLine false false
      breakLine true false
  let frame ← getFrame
  let last := frame.last
  if last.kind == .reserved || last.kind == .word then
    if last.isReserved ["get", "set", "new", "export"] || last.isReserved bindingWords ||
        (last.isReserved ["default"] && (← get).lastButOne == "export") || last.text == "declare"
    then setSpace true
    else breakLine false false
  else if last.kind == .operator || last.text == "=" then setSpace true
  else if !frame.multiline && (frame.mode.isExpression || frame.mode == .array) then pure ()
  else breakLine false false
  write t.toFragment
  modifyFrame fun f => { f with lastWord := t.text }

/-- What separates a word from what stands before it. -/
inductive Gap where
  | none
  | space
  | newline
  deriving DecidableEq, Repr

/-- The gap in front of a word. -/
def wordGap (t : Lexeme) : Rule Gap := do
  let d ← get
  let frame := d.frame
  let last := frame.last
  let gap ←
    if last.kind == .closeBrace then
      if t.isReserved ["else", "catch", "finally", "from"] then
        setSpace true
        pure Gap.space
      else pure Gap.newline
    else if last.kind == .semicolon && frame.mode == .block then pure Gap.newline
    else if last.kind == .semicolon && frame.mode.isExpression then pure Gap.space
    else if last.kind == .quoted then pure Gap.newline
    else if last.kind == .reserved || last.kind == .word ||
        (last.text == "*" && (["function", "yield"].contains d.lastButOne ||
          (frame.mode == .object && ["\x7b", ","].contains d.lastButOne))) then pure Gap.space
    else if last.kind == .openBrace then pure Gap.newline
    else if last.kind == .closing then
      setSpace true
      pure Gap.newline
    else pure Gap.none
  if t.isReserved lineStarters && last.text != ")" then
    return if last.text == "else" || last.text == "export" then .space else .newline
  else return gap

/-- A word that continues a statement behind a block. -/
def continueStatement : Rule Unit := do
  let d ← get
  if !(d.frame.last.kind == .closeBrace && d.previous.mode == .block) then breakLine false false
  else
    modify fun d => { d with page := d.page.trimmed }
    if (← get).page.current.parts.head? != some "\x7d" then breakLine false false
    setSpace true

/-- The line break in front of a word that asks for one. -/
def breakBeforeWord (t : Lexeme) : Rule Unit := do
  let last := (← getFrame).last
  if last.isReserved specialWords then setSpace true
  else if last.text == "declare" && t.isReserved variableWords then setSpace true
  else if last.kind != .closing then
    if (last.kind != .opening || !t.isReserved variableWords) && last.text != ":" then
      if t.isReserved ["if"] && (← get).before.isReserved ["else"] then setSpace true
      else breakLine false false
  else if t.isReserved lineStarters && last.text != ")" then breakLine false false

/-- Any other word. -/
def writeWord (t : Lexeme) : Rule Unit := do
  let gap ← wordGap t
  let d ← get
  if t.isReserved ["else", "catch", "finally"] then continueStatement
  else if gap == .newline then breakBeforeWord t
  else if d.frame.multiline && d.frame.mode == .array && d.frame.last.text == "," &&
      d.lastButOne == "\x7d" then breakLine false false
  else if gap == .space then setSpace true
  let before := (← get).before
  if before.kind == .word || before.kind == .reserved then setSpace true
  write t.toFragment
  modifyFrame fun f => { f with
    lastWord := t.text
    doBlock := f.doBlock || t.isReserved ["do"]
    ifBlock := f.ifBlock || t.isReserved ["if"]
    importBlock := (f.importBlock || t.isReserved ["import"]) && !t.isReserved ["from"] }

/-- The end of a `do` loop, if it is due.  Says whether the word has been written. -/
def endLoop (t : Lexeme) : Rule Bool := do
  let frame ← getFrame
  if frame.doBlock && !frame.doWhile then
    if t.isReserved ["while"] then
      setSpace true
      write t.toFragment
      setSpace true
      modifyFrame fun f => { f with doWhile := true }
      return true
    else
      breakLine false false
      modifyFrame fun f => { f with doBlock := false }
      return false
  else return false

/-- A word, which may become a plain word. -/
def onWord (t : Lexeme) : Rule Lexeme := do
  let t ← plainWord t
  startWord t
  if !(← endLoop t) then
    endBranches t
    if (← getFrame).isSwitch && t.isReserved ["case", "default"] then writeCase t
    else
      let frame ← getFrame
      let last := frame.last
      if [LexemeKind.comma, .opening, .equals, .operator].contains last.kind then
        let signed := ["+", "-"].contains last.text && (← get).lastButOne == ":" &&
          (← parentMode) == .object
        if !(← startsValue) && !signed then keepBreak t false
      if t.isReserved ["function"] then writeFunction t else writeWord t
  return t

/-! ## Other lexemes -/

def onSemicolon (t : Lexeme) : Rule Unit := do
  if ← enterStatement t then setSpace false else settle t false
  closeStatements (isComplete (← nextLexeme))
  modifyFrame fun f => { f with importBlock := false }
  write t.toFragment

/-- Is the lexeme a template? -/
def isTemplate (t : Lexeme) : Bool := t.text.toList.head? == some '\x60'

def onQuoted (t : Lexeme) : Rule Unit := do
  let d ← get
  let isTagged := isTemplate t && t.newlines = 0 && t.blanks.isEmpty &&
    (d.before.text == ")" || d.frame.last.kind == .word)
  if !isTagged then
    if ← enterStatement t then setSpace true
    else
      settle t false
      let d ← get
      let last := d.frame.last
      if last.kind == .reserved || last.kind == .word then setSpace true
      else if [LexemeKind.comma, .opening, .equals, .operator].contains last.kind then
        if !(← startsValue) then keepBreak t false
      else if isTemplate t && last.kind == .closing &&
          (d.before.text == "]" || d.before.text == ")") && t.newlines = 0 then setSpace true
      else breakLine false false
  write t.toFragment

def onEquals (t : Lexeme) : Rule Unit := do
  if !(← enterStatement t) then settle t false
  modifyFrame fun f => { f with hasValue := f.hasValue || f.isDeclaration }
  setSpace true
  write t.toFragment
  setSpace true

def onComma (t : Lexeme) : Rule Unit := do
  settle t true
  write t.toFragment
  setSpace true
  let frame ← getFrame
  let parent ← parentMode
  if frame.isDeclaration then
    if parent.isExpression then modifyFrame fun f => { f with hasValue := false }
    else if frame.hasValue then
      modifyFrame fun f => { f with hasValue := false }
      breakLine false true
  else if frame.mode == .object || (frame.mode == .statement && parent == .object) then
    if frame.mode == .statement then closeFrame
    breakLine false false

def onDot (t : Lexeme) : Rule Unit := do
  if !(← enterStatement t) then settle t true
  let last := (← getFrame).last
  if !last.text.isEmpty && last.text.toList.all Char.isDigit then setSpace true
  if last.isReserved specialWords then setSpace false else keepBreak t false
  write t.toFragment

/-! ## Operators -/

/-- Is the operator the star of a generator? -/
def isStar (last t : Lexeme) : Bool :=
  t.text == "*" && (last.isReserved ["function", "yield"] ||
    [LexemeKind.openBrace, .comma, .closeBrace, .semicolon].contains last.kind)

/-- Is the operator a sign? -/
def isSign (last t : Lexeme) : Bool :=
  ["-", "+"].contains t.text &&
    ([LexemeKind.openBrace, .opening, .equals, .operator].contains last.kind ||
      lineStarters.contains last.text || last.text == ",")

/-- The colon behind a label of a switch. -/
def writeCaseColon (t : Lexeme) : Rule Unit := do
  write t.toFragment
  modifyFrame fun f => { f with inCase := false, caseBody := true }
  if (← nextLexeme).kind != .openBrace then
    indentFrame
    breakLine false false
    modifyFrame fun f => { f with caseBlock := false }
  else
    modifyFrame fun f => { f with caseBlock := true }
    setSpace true

/-- An operator at which a line may break; `bare` is a colon of no conditional. -/
def writeBreaking (t : Lexeme) (bare : Bool) : Rule Unit := do
  setSpace (!bare)
  write t.toFragment
  if !bare then keepBreak t false
  setSpace true

/-- The blanks around an operator with one operand. -/
def unarySpaces (t : Lexeme) : Rule (Bool × Bool) := do
  let signs := ["--", "-", "++", "+"]
  if [LexemeKind.comma, .opening].contains (← getFrame).last.kind then keepBreak t false
  if 0 < t.newlines && ["--", "++", "~"].contains t.text then
    let d ← get
    let needed := d.frame.last.isReserved specialWords
    if needed && (d.previous.ifBlock || d.previous.elseBlock) then closeFrame
    breakLine needed true
  let frame ← getFrame
  let last := frame.last
  let before :=
    if last.kind == .reserved then true
    else if last.kind == .closing then !(last.text == "]" && ["--", "++"].contains t.text)
    else if last.kind == .operator then signs.contains t.text && signs.contains last.text
    else last.text == ";" && frame.mode.isExpression
  let after := last.kind == .operator && ["+", "-"].contains t.text && ["--", "++"].contains last.text
  if (frame.mode == .block || frame.mode == .statement) && ["\x7b", ";"].contains last.text then
    breakLine false false
  return (before, after)

/-- The blanks around any other operator. -/
def operatorSpaces (t : Lexeme) (star unary bare : Bool) : Rule (Bool × Bool) := do
  if star then
    keepBreak t false
    let next ← nextLexeme
    return (false, next.kind == .word || next.kind == .reserved)
  else if t.text == "..." then
    keepBreak t false
    return ((← getFrame).last.kind == .openBrace, false)
  else if unary then unarySpaces t
  else return (!bare, true)

/-- Counts the conditionals that are open; says whether a colon belongs to none. -/
def countConditional (t : Lexeme) : Rule Bool := do
  if t.text == ":" then
    let bare := (← getFrame).conditionals = 0
    modifyFrame fun f => { f with conditionals := f.conditionals - 1 }
    return bare
  else
    if t.text == "?" then modifyFrame fun f => { f with conditionals := f.conditionals + 1 }
    return false

/-- An operator behind the start of its statement. -/
def writeOperator (t : Lexeme) (star sign : Bool) : Rule Unit := do
  let frame ← getFrame
  if frame.last.kind == .operator then keepBreak t false
  if t.text == ":" && frame.inCase then writeCaseColon t
  else
    let bare ← countConditional t
    if !sign && !star && breakingOperators.contains t.text then writeBreaking t bare
    else
      let unary := sign || ["--", "++", "!", "~"].contains t.text
      let (before, after) ← operatorSpaces t star unary bare
      if before then setSpace true
      write t.toFragment
      setSpace after

def onOperator (t : Lexeme) : Rule Unit := do
  let last := (← getFrame).last
  let star := isStar last t
  let sign := isSign last t
  if !(← enterStatement t) then settle t (!star)
  if (t.text == "*" && (← getFrame).last.kind == .dot) || t.text == "::" then write t.toFragment
  else if ["-", "+"].contains t.text && (← startsValue) then write t.toFragment
  else writeOperator t star sign

/-! ## Any lexeme -/

/-- Handles a lexeme, which may change its kind. -/
def onLexeme (t : Lexeme) : Rule Lexeme := do
  match t.kind with
  | .opening => onOpening t; return t
  | .closing => onClosing t; return t
  | .openBrace => onOpenBrace t; return t
  | .closeBrace => onCloseBrace t; return t
  | .word => onWord t
  | .reserved => onWord t
  | .semicolon => onSemicolon t; return t
  | .quoted => onQuoted t; return t
  | .equals => onEquals t; return t
  | .operator => onOperator t; return t
  | .comma => onComma t; return t
  | .dot => onDot t; return t
  | .finish =>
    closeStatements fun _ => true
    settle t false
    return t

/-- Handles lexemes one after the other. -/
def onLexemes : List Lexeme → Rule Unit
  | [] => return
  | t :: rest => do
    modify fun d => { d with upcoming := rest }
    let t ← onLexeme t
    modify fun d => { d with
      lastButOne := d.frame.last.text
      frame := { d.frame with last := t }
      before := t }
    onLexemes rest

end Descramble.Formatter

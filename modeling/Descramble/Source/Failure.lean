import Descramble.Double.Decimal
import Descramble.Text

/-!
# Failures to parse

* `ParseFailure` — what was wrong and where; lines and columns are counted from one.
* `ParseError` — a failure, or a piece of a template that continues none.
* `contextWindow` — the lines around a line, the line itself marked.
-/

set_option autoImplicit false

namespace Descramble

/-- A failure to parse. -/
structure ParseFailure where
  problem : String
  line : Nat
  column : Int
  deriving DecidableEq, Repr

/-- The message names the line. -/
def ParseFailure.message (f : ParseFailure) : String :=
  "Line " ++ intText f.line ++ ": " ++ f.problem

/-- Why a source has no tree. -/
inductive ParseError where
  | failure (f : ParseFailure)
  /-- An expression is missing in front of a piece that continues a template. -/
  | headlessTemplate
  deriving DecidableEq, Repr

/-- What is said of a template without a start. -/
def headlessMessage : String := "Template literal must start with a template head"

/-- The numbered lines of a text from `before` lines before to `after` lines after a line.  The line
itself has a mark; a line number below one gives no lines. -/
def contextWindow (source : String) (line : Int) (before after : Int) : List String :=
  if line < 1 then []
  else
    let lines := (Text.splitOn ['\n'] source.toList).map String.ofList
    let start := max 0 (line - 1 - before)
    let stop : Int := min (lines.length : Int) (line + after)
    (List.range (stop - start).toNat).map fun (i : Nat) =>
      let number : Int := start + i + 1
      let mark := if number = line then ">> " else "   "
      mark ++ intText number ++ ": " ++ (lines[(number - 1).toNat]?).getD ""

/-- The lines around a failure. -/
def ParseFailure.context (f : ParseFailure) (source : String) : List String :=
  contextWindow source f.line 2 2

end Descramble

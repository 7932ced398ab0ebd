import Descramble.Run
import Descramble.Source.Formatter
import Descramble.Source.Parser
import Descramble.Source.Printer

/-!
# Recovering scripts

* `recoverScript` — parses a script, runs the passes, removes dead code, prints and formats.
-/

set_option autoImplicit false

namespace Descramble

/-- Why a script was not recovered. -/
inductive ScriptFailure where
  | parsing (e : ParseError)
  | fault (f : Fault)
  | printing (e : PrintError)
  | formatting (e : FormatError)
  deriving Repr

/-- The failure of a run whose trees are printed. -/
def ScriptFailure.ofRun : Failure PrintError → ScriptFailure
  | .fault f => .fault f
  | .rendering e => .printing e

/-- The readable form of a script. -/
def recoverScript (source : String) (maxIterations : Int) : Logged ScriptFailure String := do
  let tree ← Logged.ofExcept ((parse source).mapError .parsing)
  let (tree, _) ← (recover print maxIterations tree).mapError .ofRun
  let text ← Logged.ofExcept ((print tree).mapError .printing)
  Logged.ofExcept ((format text).mapError .formatting)

end Descramble

import Descramble.Markup.Script
import Descramble.Script
import Descramble.Settings

/-!
# Recovering the script of a page

* `parseFailureEvents` — the lines that show where a script could not be parsed.
* `recoverMarked` — finds the marked script of a page and hands it on.
* `recoverDocument` — finds the marked script of a page and recovers it.
-/

set_option autoImplicit false

namespace Descramble

/-- What is reported of a failure to parse. -/
def parseFailureEvents (f : ParseFailure) (source : String) : List Event :=
  let window := f.context source
  let start : List Event := [.parsingFailed, .parserError f.message]
  if window.isEmpty then start
  else start ++ .errorWindow f.line :: (window.map .windowLine ++ [.windowEnd, .windowHint])

/-- Why a page could not be dealt with. -/
inductive DocumentFailure where
  | markup (f : MarkupFault)
  /-- The script holds a template without a start. -/
  | headlessTemplate
  | fault (f : Fault)
  | printing (e : PrintError)
  | formatting (e : FormatError)
  deriving Repr

/-- The wording of a failure. -/
def DocumentFailure.message : DocumentFailure → String
  | .markup f => f.message
  | .headlessTemplate => headlessMessage
  | .fault f => f.message?.getD ""
  | .printing e => e.message
  | .formatting e => e.message

/-- The outcome of a script that was found: a failure to parse is reported and leaves no code. -/
def settleScript (source : String) (run : Logged ScriptFailure String) :
    Logged DocumentFailure (Option String) :=
  match run.outcome with
  | .ok code => ⟨run.events, .ok (some code)⟩
  | .error (.parsing (.failure f)) => ⟨run.events ++ parseFailureEvents f source, .ok none⟩
  | .error (.parsing .headlessTemplate) => ⟨run.events, .error .headlessTemplate⟩
  | .error (.fault f) => ⟨run.events, .error (.fault f)⟩
  | .error (.printing e) => ⟨run.events, .error (.printing e)⟩
  | .error (.formatting e) => ⟨run.events, .error (.formatting e)⟩

/-- What becomes of the marked script of a page under `recoverSource`; nothing if there is no such
script, or if it cannot be parsed. -/
def recoverMarked (recoverSource : String → Int → Logged ScriptFailure String) (document : String)
    (settings : Settings) : Logged DocumentFailure (Option String) := do
  let scripts ← Logged.ofExcept ((inlineScripts document).mapError .markup)
  match targetScript settings.marker scripts with
  | none =>
    Logged.report (.noScript noScriptMessage)
    return none
  | some source =>
    Logged.report .scriptFound
    settleScript source (recoverSource source settings.maxIterations)

/-- The readable form of the marked script of a page. -/
def recoverDocument (document : String) (settings : Settings) :
    Logged DocumentFailure (Option String) := recoverMarked recoverScript document settings

end Descramble

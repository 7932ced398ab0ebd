import Descramble.Number.Reading
import Descramble.Report
import Descramble.Text.Quoted

/-!
# Settings

* `Settings` — the path of the viewer page, the mark of an obfuscated script, and the bound on the
  number of iterations.
* `Settings.load` — the settings that an environment gives.
-/

set_option autoImplicit false

namespace Descramble

/-- The settings of a run. -/
structure Settings where
  viewerPath : String := ""
  marker : String := "_0x"
  maxIterations : Int := 10
  deriving DecidableEq, Repr

/-- Why an environment gives no settings. -/
inductive SettingsError where
  | noViewerPath
  | iterationsNotInteger (text : String)
  | iterationsNotPositive (n : Int)
  deriving DecidableEq, Repr

def SettingsError.message : SettingsError → String
  | .noViewerPath => "VIEWER_HOST_PATH environment variable not set."
  | .iterationsNotInteger text =>
    "DEOBFUSCATOR_MAX_ITERATIONS must be an integer, got " ++ Text.shown text ++ "."
  | .iterationsNotPositive n =>
    "DEOBFUSCATOR_MAX_ITERATIONS must be positive, got " ++ intText n ++ "."

namespace Settings

/-- A path that starts with a slash, or with a drive letter, a colon and a backslash. -/
def isAbsolutePath (path : String) : Bool :=
  match path.toList with
  | '/' :: _ => true
  | drive :: ':' :: '\\' :: _ => drive.isAlpha
  | _ => false

/-- The number of iterations that a text sets; an empty text sets none. -/
def readIterations (text : String) : Except SettingsError Int :=
  if text = "" then .ok 10
  else
    match IntegerText.read? 10 text.toList with
    | none => .error (.iterationsNotInteger text)
    | some n => if n < 1 then .error (.iterationsNotPositive n) else .ok n

/-- The settings of an environment; unset and empty variables count alike. -/
def load (environment : String → Option String) : Logged SettingsError Settings := do
  let viewerPath := (environment "VIEWER_HOST_PATH").getD ""
  if viewerPath = "" then
    Logged.ofExcept (.error .noViewerPath)
  if !isAbsolutePath viewerPath then
    Logged.report (.relativeViewerPath viewerPath)
  let maxIterations ← Logged.ofExcept
    (readIterations ((environment "DEOBFUSCATOR_MAX_ITERATIONS").getD ""))
  let marker := (environment "DEOBFUSCATOR_MARKER").getD ""
  return ⟨viewerPath, if marker = "" then "_0x" else marker, maxIterations⟩

end Settings

end Descramble

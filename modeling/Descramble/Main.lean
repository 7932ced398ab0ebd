import Descramble.CommandLine.Session

/-!
# The command

Runs a `Session` against the files of the system.
-/

set_option autoImplicit false

namespace Descramble.CommandLine

/-- The error that the system reports. -/
def fileErrorOf : IO.Error → FileError
  | .noFileOrDirectory _ _ _ => .missing
  | .inappropriateType _ _ details => .refused details
  | .permissionDenied _ _ details => .refused details
  | error => .refused (toString error)

/-- What an attempt of the system comes to. -/
def attempt {α : Type} (action : IO α) : IO (Except FileError α) := do
  match ← action.toBaseIO with
  | .ok a => return .ok a
  | .error error => return .error (fileErrorOf error)

/-- Runs a session against the files of the system. -/
def Session.perform : Session → IO Outcome
  | .ended outcome => return outcome
  | .read path next => do
    let result ← attempt (IO.FS.readBinFile path)
    (next (result.map fun bytes => bytes.toList.map UInt8.toNat)).perform
  | .write path bytes next => do
    let result ← attempt (IO.FS.writeBinFile path ⟨(bytes.map UInt8.ofNat).toArray⟩)
    (next result).perform

end Descramble.CommandLine

open Descramble.CommandLine in
/-- Runs the command with the given arguments. -/
def main (arguments : List String) : IO UInt32 := do
  let viewerPath ← IO.getEnv "VIEWER_HOST_PATH"
  let marker ← IO.getEnv "DEOBFUSCATOR_MARKER"
  let iterations ← IO.getEnv "DEOBFUSCATOR_MAX_ITERATIONS"
  let environment (name : String) : Option String :=
    if name == "VIEWER_HOST_PATH" then viewerPath
    else if name == "DEOBFUSCATOR_MARKER" then marker
    else if name == "DEOBFUSCATOR_MAX_ITERATIONS" then iterations
    else none
  let outcome ← (session arguments environment).perform
  for line in outcome.report do
    IO.eprintln line
  IO.print outcome.output
  return UInt32.ofNat outcome.exitCode

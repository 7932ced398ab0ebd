import Descramble.CommandLine.Arguments
import Descramble.CommandLine.Directory
import Descramble.Document
import Descramble.Link

/-!
# A run of the command

* `Outcome` — how a run ends: its exit code and what it prints.
* `Session` — a run as the files it asks for on its way to an outcome.
* `session` — the run that arguments and an environment ask for.
* `Session.runIn` — the outcome of a run in a directory, and the directory afterwards.
-/

set_option autoImplicit false

namespace Descramble.CommandLine

/-- How a run ends. -/
structure Outcome where
  exitCode : Nat
  /-- What is printed. -/
  output : String
  /-- The lines that are reported. -/
  report : List String
  deriving DecidableEq, Repr

/-- A run: it asks for files to be read and written until it ends. -/
inductive Session where
  | ended (outcome : Outcome)
  | read (path : String) (next : Except FileError (List Nat) → Session)
  | write (path : String) (bytes : List Nat) (next : Except FileError Unit → Session)

/-- A run that ends with the given events. -/
def endWith (verbose : Bool) (exitCode : Nat) (output : String) (events : List Event) : Session :=
  .ended ⟨exitCode, output, reportLines verbose events⟩

/-- What is reported of a file that cannot be used.  A missing file counts as a missing input,
whichever file it is. -/
def fileEvent (input path : String) : FileError → Event
  | .missing => .inputMissing input
  | .notAPath => .unexpected FileError.notAPath.reason
  | error => .noAccess path error.reason

/-- What is reported of recovered code, after which the link is at hand. -/
def closingEvents : List Event := [.codeGenerated, .linkAnnounced, .linkHint]

/-- The end of a run that has recovered code: the code is written where that is asked for. -/
def deliver (arguments : Arguments) (settings : Settings) (events : List Event) (code : String) :
    Session :=
  let link := viewerLink settings.viewerPath code ++ "\n"
  let plain := endWith arguments.verbose 0 link (events ++ closingEvents)
  match arguments.output with
  | none => plain
  | some path =>
    if path.isEmpty then plain
    else
      .write path (Text.encode code.toList) fun result =>
        match result with
        | .ok _ => endWith arguments.verbose 0 link (events ++ .codeWritten path :: closingEvents)
        | .error error =>
          endWith arguments.verbose 1 "" (events ++ [fileEvent arguments.input path error])

/-- The run on a document that has been read. -/
def process (arguments : Arguments) (settings : Settings) (events : List Event)
    (bytes : List Nat) : Session :=
  let document := String.ofList (Text.unifyLines (Text.decode bytes))
  let recovered := recoverDocument document settings
  let events := events ++ recovered.events
  match recovered.outcome with
  | .error failure =>
    endWith arguments.verbose 1 "" (events ++ [.unexpected failure.message])
  | .ok none => endWith arguments.verbose 1 "" (events ++ [.noCode])
  | .ok (some code) => deliver arguments settings events code

/-- The run on a document, with settings from an environment. -/
def runOn (arguments : Arguments) (environment : String → Option String) : Session :=
  let loaded := Settings.load environment
  match loaded.outcome with
  | .error error =>
    endWith arguments.verbose 1 "" (loaded.events ++ [.badSettings error.message, .settingsHint])
  | .ok settings =>
    .read arguments.input fun result =>
      match result with
      | .ok bytes => process arguments settings loaded.events bytes
      | .error error =>
        endWith arguments.verbose 1 ""
          (loaded.events ++ [fileEvent arguments.input arguments.input error])

/-- The run that arguments and an environment ask for. -/
def session (arguments : List String) (environment : String → Option String) : Session :=
  match parseArguments arguments with
  | .error error => .ended ⟨1, "", [usage, "Error: " ++ error.message]⟩
  | .ok .help => .ended ⟨0, String.join (helpLines.map (· ++ "\n")), []⟩
  | .ok (.run arguments) => runOn arguments environment

/-- The outcome of a run in a directory, and the directory afterwards. -/
def Session.runIn (d : Directory) : Session → Outcome × Directory
  | .ended outcome => (outcome, d)
  | .read path next => (next (d.read path)).runIn d
  | .write path bytes next =>
    match d.write path bytes with
    | .ok changed => (next (.ok ())).runIn changed
    | .error error => (next (.error error)).runIn d

end Descramble.CommandLine

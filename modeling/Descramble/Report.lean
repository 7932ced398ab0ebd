import Descramble.Double.Decimal

/-!
# What a run reports

* `Event` — something that happened during a run and is worth a line.
* `Event.level`, `Event.text`, `Event.line` — how important it is, its wording, and the line that
  shows it.
* `Logged` — a computation that reports events and may fail; the events before a failure are kept.
-/

set_option autoImplicit false

namespace Descramble

/-- The importance of an event. -/
inductive Level where
  | debug
  | info
  | warning
  | error
  deriving DecidableEq, Repr

/-- The mark in front of a line. -/
def Level.mark : Level → String
  | .debug => "[-]"
  | .info => "[*]"
  | .warning => "[!]"
  | .error => "[!]"

/-- Which of the four simplifying passes changed the tree. -/
structure PassChanges where
  resolved : Bool
  folded : Bool
  inlined : Bool
  normalized : Bool
  deriving DecidableEq, Repr

/-- Something that is reported. -/
inductive Event where
  | scriptFound
  | noScript (message : String)
  | parsingFailed
  | parserError (message : String)
  | errorWindow (line : Nat)
  | windowLine (text : String)
  | windowEnd
  | windowHint
  | passesStarted
  | loaderFound (name : String) (length : Nat)
  | decoderFound (name : String) (offset : Int)
  | callsResolved (count : Nat)
  | expressionsFolded (count : Nat)
  | referencesInlined (count : Nat)
  | propertiesNormalized (count : Nat)
  | passResults (changes : PassChanges)
  | passCompleted (iteration : Int) (changed : Bool)
  | passesStopped (iteration : Int)
  | sweepStarted
  | declarationRemoved (name : String)
  | stubRemoved
  | relativeViewerPath (path : String)
  | badSettings (message : String)
  | settingsHint
  | noCode
  | codeWritten (path : String)
  | inputMissing (path : String)
  | noAccess (path reason : String)
  | unexpected (message : String)
  | codeGenerated
  | linkAnnounced
  | linkHint
  deriving DecidableEq, Repr

namespace Event

def level : Event → Level
  | .scriptFound => .info
  | .noScript _ => .error
  | .parsingFailed => .error
  | .parserError _ => .error
  | .errorWindow _ => .error
  | .windowLine _ => .error
  | .windowEnd => .error
  | .windowHint => .error
  | .passesStarted => .info
  | .loaderFound _ _ => .info
  | .decoderFound _ _ => .info
  | .callsResolved _ => .debug
  | .expressionsFolded _ => .debug
  | .referencesInlined _ => .debug
  | .propertiesNormalized _ => .debug
  | .passResults _ => .debug
  | .passCompleted _ _ => .info
  | .passesStopped _ => .warning
  | .sweepStarted => .info
  | .declarationRemoved _ => .debug
  | .stubRemoved => .debug
  | .relativeViewerPath _ => .warning
  | .badSettings _ => .error
  | .settingsHint => .error
  | .noCode => .error
  | .codeWritten _ => .info
  | .inputMissing _ => .error
  | .noAccess _ _ => .error
  | .unexpected _ => .error
  | .codeGenerated => .info
  | .linkAnnounced => .info
  | .linkHint => .info

/-- A truth value in a line. -/
def yesNo (b : Bool) : String := if b then "True" else "False"

/-- The wording of an event. -/
def text : Event → String
  | .scriptFound => "Found target script tag, proceeding with parsing..."
  | .noScript message => message
  | .parsingFailed => "--- PARSING FAILED ---"
  | .parserError message => "Parser error: " ++ message
  | .errorWindow line => "--- Code around the error on line " ++ intText line ++ " ---"
  | .windowLine text => text
  | .windowEnd => "------------------------------------------"
  | .windowHint => "Look for invisible characters or broken syntax on the line marked with \">>\"."
  | .passesStarted => "Starting deobfuscation passes..."
  | .loaderFound name length =>
    "Found string array loader: " ++ name ++ " (length: " ++ intText length ++ ")"
  | .decoderFound name offset => "Found decoder: " ++ name ++ ", Offset: " ++ intText offset
  | .callsResolved count => "Resolved " ++ intText count ++ " decoder calls"
  | .expressionsFolded count => "Folded " ++ intText count ++ " expressions"
  | .referencesInlined count => "Inlined " ++ intText count ++ " constant references"
  | .propertiesNormalized count => "Normalized " ++ intText count ++ " property accesses"
  | .passResults changes =>
    "Pass results: \x7b'resolve_decoder_calls': " ++ yesNo changes.resolved ++
      ", 'fold_constants': " ++ yesNo changes.folded ++
      ", 'inline_constants': " ++ yesNo changes.inlined ++
      ", 'normalize_properties': " ++ yesNo changes.normalized ++ "\x7d"
  | .passCompleted iteration changed =>
    "Pass " ++ intText iteration ++ " completed. Changes detected: " ++ yesNo changed
  | .passesStopped iteration =>
    "Stopped after " ++ intText iteration ++ " passes while the code was still changing."
  | .sweepStarted => "Performing final dead code removal pass..."
  | .declarationRemoved name => "Removed unreferenced declaration " ++ name
  | .stubRemoved => "Removed anti-tampering guard stub"
  | .relativeViewerPath path =>
    "VIEWER_HOST_PATH (\"" ++ path ++
      "\") might not be an absolute path. Ensure it is correct on your host."
  | .badSettings message => message
  | .settingsHint => "Ensure VIEWER_HOST_PATH is defined in your environment."
  | .noCode => "Deobfuscation did not return valid code. Exiting."
  | .codeWritten path => "Deobfuscated code written to " ++ path
  | .inputMissing path => "Input file not found at " ++ path
  | .noAccess path reason => "Could not access " ++ path ++ ": " ++ reason
  | .unexpected message => "An unexpected error occurred: " ++ message
  | .codeGenerated => "--- Deobfuscated Code Generated ---"
  | .linkAnnounced => "--- URL for AST Viewer ---"
  | .linkHint => "Copy the URL above and paste it into your host machine's browser."

/-- The line that shows an event. -/
def line (e : Event) : String := e.level.mark ++ " " ++ e.text

/-- Is the event shown?  The details of the passes are shown on request only. -/
def isShown (verbose : Bool) (e : Event) : Bool := verbose || e.level != .debug

end Event

/-- The lines of the events that are shown. -/
def reportLines (verbose : Bool) (events : List Event) : List String :=
  (events.filter (Event.isShown verbose)).map Event.line

/-! ## Computations that report -/

/-- The events of a computation and its outcome. -/
structure Logged (ε α : Type) where
  events : List Event
  outcome : Except ε α

namespace Logged

variable {ε α β : Type}

/-- Reports one event. -/
def report (e : Event) : Logged ε Unit := ⟨[e], .ok ()⟩

/-- Reports several events. -/
def reportAll (es : List Event) : Logged ε Unit := ⟨es, .ok ()⟩

/-- A computation that reports nothing. -/
def ofExcept (r : Except ε α) : Logged ε α := ⟨[], r⟩

def bind (m : Logged ε α) (f : α → Logged ε β) : Logged ε β :=
  match m.outcome with
  | .ok a =>
    let next := f a
    ⟨m.events ++ next.events, next.outcome⟩
  | .error e => ⟨m.events, .error e⟩

instance : Monad (Logged ε) where
  pure a := ⟨[], .ok a⟩
  bind := bind

/-- The computation with its failures renamed. -/
def mapError {ε' : Type} (f : ε → ε') (m : Logged ε α) : Logged ε' α :=
  ⟨m.events, m.outcome.mapError f⟩

end Logged

end Descramble

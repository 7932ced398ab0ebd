import Descramble.Text.Quoted
import Descramble.Unicode.Digit

/-!
# Arguments of the command line

* `Arguments` — what the arguments ask for.
* `Request` — help, or a run.
* `parseArguments` — the request of a list of arguments, or what is wrong with it.  A long option may
  be cut short where it stays clear which one is meant, and a short one may be followed directly by
  its value or by further short ones.
-/

set_option autoImplicit false

namespace Descramble.CommandLine

/-- What a run is asked to do. -/
structure Arguments where
  input : String
  output : Option String
  verbose : Bool
  deriving DecidableEq, Repr

/-- What the arguments ask for. -/
inductive Request where
  | help
  | run (arguments : Arguments)
  deriving DecidableEq, Repr

/-- The options. -/
inductive Switch where
  | help
  | output
  | verbose
  deriving DecidableEq, Repr

namespace Switch

/-- The spellings of the options. -/
def spellings : List (String × Switch) :=
  [("-h", .help), ("--help", .help), ("-o", .output), ("--output", .output), ("-v", .verbose),
    ("--verbose", .verbose)]

def ofSpelling? (spelling : String) : Option Switch := spellings.lookup spelling

/-- How an option is named in a complaint. -/
def title : Switch → String
  | .help => "-h/--help"
  | .output => "-o/--output"
  | .verbose => "-v/--verbose"

def takesValue : Switch → Bool
  | .output => true
  | _ => false

end Switch

/-- What is wrong with the arguments. -/
inductive ArgumentError where
  | inputRequired
  | unrecognized (arguments : List String)
  | valueExpected (switch : Switch)
  | valueIgnored (switch : Switch) (value : String)
  | ambiguous (argument : String) (spellings : List String)
  deriving DecidableEq, Repr

def ArgumentError.message : ArgumentError → String
  | .inputRequired => "the following arguments are required: input"
  | .unrecognized arguments => "unrecognized arguments: " ++ " ".intercalate arguments
  | .valueExpected switch => "argument " ++ switch.title ++ ": expected one argument"
  | .valueIgnored switch value =>
    "argument " ++ switch.title ++ ": ignored explicit argument " ++ Text.shown value
  | .ambiguous argument spellings =>
    "ambiguous option: " ++ argument ++ " could match " ++ ", ".intercalate spellings

/-! ## Kinds of arguments -/

/-- What an argument is. -/
inductive Reading where
  | value
  /-- The mark behind which there are no options. -/
  | divider
  | switch (which : Switch) (spelling : String) (value : Option String)
  /-- An option that does not exist. -/
  | unknown
  deriving DecidableEq, Repr

/-- A text cut at its first equals sign. -/
def cutAtEquals (cs : List Char) : String × Option String :=
  let name := cs.takeWhile (· != '=')
  match cs.drop name.length with
  | [] => (String.ofList name, none)
  | _ :: value => (String.ofList name, some (String.ofList value))

/-- Is the text a negative number?  A line end may follow. -/
def isNegativeNumber (cs : List Char) : Bool :=
  match if cs.getLast? == some '\n' then cs.dropLast else cs with
  | '-' :: rest =>
    let whole := rest.takeWhile Unicode.isDecimal
    match rest.drop whole.length with
    | [] => !whole.isEmpty
    | '.' :: fraction => !fraction.isEmpty && fraction.all Unicode.isDecimal
    | _ => false
  | _ => false

/-- The options that an argument may stand for, with their values. -/
def candidates (cs : List Char) : List (String × Switch × Option String) :=
  match cs with
  | '-' :: '-' :: _ =>
    let (name, value) := cutAtEquals cs
    (Switch.spellings.filter fun (spelling, _) => name.toList.isPrefixOf spelling.toList).map
      fun (spelling, switch) => (spelling, switch, value)
  | _ =>
    let short := String.ofList (cs.take 2)
    Switch.spellings.filterMap fun (spelling, switch) =>
      if spelling == short then some (spelling, switch, some (String.ofList (cs.drop 2)))
      else if cs.isPrefixOf spelling.toList then some (spelling, switch, none)
      else none

/-- What an argument is that starts with a dash and is no option as it stands. -/
def readDashed (argument : String) : Except ArgumentError Reading :=
  let cs := argument.toList
  match candidates cs with
  | [(spelling, switch, value)] => .ok (.switch switch spelling value)
  | [] => .ok (if isNegativeNumber cs || cs.contains ' ' then .value else .unknown)
  | several => .error (.ambiguous argument (several.map (·.1)))

/-- What an argument is. -/
def readArgument (argument : String) : Except ArgumentError Reading :=
  match argument.toList with
  | '-' :: rest =>
    match Switch.ofSpelling? argument with
    | some switch => .ok (.switch switch argument none)
    | none =>
      if rest.isEmpty then .ok .value
      else
        let (name, value) := cutAtEquals argument.toList
        match Switch.ofSpelling? name, value with
        | some switch, some value => .ok (.switch switch name (some value))
        | _, _ => readDashed argument
  | _ => .ok .value

/-- What the arguments are.  Behind the divider all are values. -/
def readArguments : List String → Except ArgumentError (List (String × Reading))
  | [] => .ok []
  | argument :: rest =>
    if argument == "--" then .ok ((argument, .divider) :: rest.map fun a => (a, .value))
    else do
      let reading ← readArgument argument
      return (argument, reading) :: (← readArguments rest)

/-! ## Collecting -/

/-- What has been collected. -/
structure Collected where
  input : Option String := none
  output : Option String := none
  verbose : Bool := false
  help : Bool := false
  extras : List String := []
  deriving Repr

/-- The options of an argument: short options without values may share one argument. -/
def chained : (fuel : Nat) → Switch → (long : Bool) → Option String →
    Except ArgumentError (List Switch × Option String)
  | 0, switch, _, value => .ok ([switch], value)
  | fuel + 1, switch, long, value =>
    match value with
    | none => .ok ([switch], none)
    | some text =>
      if switch.takesValue then .ok ([switch], some text)
      else
        match long, text.toList with
        | false, c :: rest =>
          match Switch.ofSpelling? (String.ofList ['-', c]) with
          | none => .error (.valueIgnored switch text)
          | some next => do
            let value := if rest.isEmpty then none else some (String.ofList rest)
            let (switches, value) ← chained fuel next false value
            return (switch :: switches, value)
        | _, _ => .error (.valueIgnored switch text)

/-- Notes options, of which the last may have a value.  A divider as a value takes back the output. -/
def Collected.note (c : Collected) : List Switch → Option String → Collected
  | [], _ => c
  | .help :: rest, value => { c with help := true }.note rest value
  | .verbose :: rest, value => { c with verbose := true }.note rest value
  | .output :: rest, value => { c with output := value.filter (· != "--") }.note rest value

/-- Collects the values behind the last option. -/
def collectValues (c : Collected) (items : List (String × Reading)) : Collected :=
  let texts (items : List (String × Reading)) : List String := items.map (·.1)
  let isDivider (item : String × Reading) : Bool := item.2 == .divider
  match c.input, items.dropWhile isDivider with
  | none, (text, _) :: rest =>
    { c with input := some text, extras := c.extras ++ texts (rest.dropWhile isDivider) }
  | _, _ => { c with extras := c.extras ++ texts items }

def isOption : Reading → Bool
  | .switch _ _ _ => true
  | .unknown => true
  | _ => false

/-- Collects the arguments.  Nothing behind a request for help is looked at. -/
def collect (c : Collected) : List (String × Reading) → Except ArgumentError Collected
  | [] => .ok c
  | (text, reading) :: rest =>
    if !(isOption reading || rest.any (fun item => isOption item.2)) then
      .ok (collectValues c ((text, reading) :: rest))
    else
      match reading with
      | .unknown => collect { c with extras := c.extras ++ [text] } rest
      | .switch switch spelling value => do
        let isLong := "--".toList.isPrefixOf spelling.toList
        let (switches, value) ← chained (text.length + 1) switch isLong value
        if !(switches.getLast?.map Switch.takesValue).getD false || value.isSome then
          let c := c.note switches value
          if c.help then .ok c else collect c rest
        else
          match rest with
          | (next, .value) :: rest =>
            let c := c.note switches (some next)
            if c.help then .ok c else collect c rest
          | _ => .error (.valueExpected .output)
      | _ =>
        if c.input.isNone then collect { c with input := some text } rest
        else collect { c with extras := c.extras ++ [text] } rest

/-- The request of a list of arguments. -/
def parseArguments (arguments : List String) : Except ArgumentError Request := do
  let c ← collect {} (← readArguments arguments)
  if c.help then return .help
  match c.input with
  | none => .error .inputRequired
  | some input =>
    if c.extras.isEmpty then return .run ⟨input, c.output, c.verbose⟩
    else .error (.unrecognized c.extras)

/-! ## Texts -/

def usage : String := "usage: stringtable-deobfuscate [-h] [-o OUTPUT] [-v] input"

/-- The lines of the help text. -/
def helpLines : List String :=
  [usage,
    "",
    "Recover readable source from a string-table obfuscated inline script.",
    "",
    "positional arguments:",
    "  input                 path of the HTML document holding the obfuscated",
    "                        script",
    "",
    "options:",
    "  -h, --help            show this help message and exit",
    "  -o OUTPUT, --output OUTPUT",
    "                        also write the deobfuscated code to this file",
    "  -v, --verbose         log every pass in detail"]

end Descramble.CommandLine

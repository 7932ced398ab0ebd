import Descramble.Text.Utf8

/-!
# Directories

* `Directory` — the folders and files below a working directory.
* `Place` — where a path leads on its way.
* `Directory.read`, `Directory.write` — reading and replacing the file that a path names.
* `Directory.changes` — the files that differ between two states of a directory.

A path is followed folder by folder: a name must stand for a folder wherever another name follows.
Outside of the working directory there are the folders that every system has and the null device;
nothing else is known of what they hold.
-/

set_option autoImplicit false

namespace Descramble.CommandLine

/-- Why a file cannot be read or written. -/
inductive FileError where
  | missing
  | isDirectory
  | notDirectory
  | nameTooLong
  /-- The path has a character that no path can have. -/
  | notAPath
  /-- The system gives a reason of its own. -/
  | refused (reason : String)
  deriving DecidableEq, Repr

/-- The wording of the reason. -/
def FileError.reason : FileError → String
  | .missing => "No such file or directory"
  | .isDirectory => "Is a directory"
  | .notDirectory => "Not a directory"
  | .nameTooLong => "File name too long"
  | .notAPath => "embedded null byte"
  | .refused reason => reason

/-- The names that lead from the working directory to a file or folder. -/
abbrev Route := List String

/-- The folders and files below a working directory. -/
structure Directory where
  folders : List Route
  files : List (Route × List Nat)
  deriving DecidableEq, Repr

/-- A path in its parts: where it starts, its names, and whether it ends in a slash. -/
structure PathParts where
  absolute : Bool
  names : List String
  closed : Bool
  deriving DecidableEq, Repr

/-- The parts of a path. -/
def pathParts (path : String) : PathParts :=
  { absolute := path.toList.head? == some '/'
    names := (path.splitOn "/").filter (· != "")
    closed := path.toList.getLast? == some '/' }

/-- The greatest number of bytes in a name. -/
def nameLimit : Nat := 255

/-- A folder: below the working directory, at a known place of the system, or somewhere above the
working directory. -/
inductive Place where
  | inside (route : Route)
  | outside (route : Route)
  | above
  deriving DecidableEq, Repr

/-- The folders that every system has. -/
def standardFolders : List Route :=
  [] :: ["bin", "dev", "etc", "home", "lib", "opt", "proc", "root", "run", "sbin", "sys", "tmp", "usr",
    "var"].map fun name => [name]

/-- The device that holds nothing and takes everything. -/
def nullDevice : Route := ["dev", "null"]

namespace Directory

/-- Is there a folder at the end of the route?  There is one wherever a file is below. -/
def hasFolder (d : Directory) (route : Route) : Bool :=
  route.isEmpty || d.folders.any (route.isPrefixOf ·) ||
    d.files.any fun (file, _) => route.isPrefixOf file && route != file

/-- The bytes of the file at the end of the route. -/
def file? (d : Directory) (route : Route) : Option (List Nat) := d.files.lookup route

/-- The folder that the name of a folder leads to. -/
def enter (d : Directory) (place : Place) (name : String) : Except FileError Place :=
  match place, name with
  | place, "." => .ok place
  | .inside [], ".." => .ok .above
  | .inside route, ".." => .ok (.inside route.dropLast)
  | .outside route, ".." => .ok (.outside route.dropLast)
  | .above, ".." => .ok .above
  | .inside route, name =>
    let next := route ++ [name]
    if d.hasFolder next then .ok (.inside next)
    else if (d.file? next).isSome then .error .notDirectory
    else if nameLimit < (Text.encode name.toList).length then .error .nameTooLong
    else .error .missing
  | .outside route, name =>
    let next := route ++ [name]
    if standardFolders.contains next then .ok (.outside next)
    else if next == nullDevice then .error .notDirectory
    else if nameLimit < (Text.encode name.toList).length then .error .nameTooLong
    else .error .missing
  | .above, _ => .error .missing

/-- The file or folder that a path names. -/
def locate (d : Directory) (path : String) : Except FileError Place := do
  if path.toList.contains '\x00' then throw .notAPath
  if path.isEmpty then throw .missing
  let parts := pathParts path
  let start : Place := if parts.absolute then .outside [] else .inside []
  let place ← parts.names.dropLast.foldlM d.enter start
  match parts.names.getLast? with
  | none => throw .isDirectory
  | some name =>
    if name == "." || name == ".." then throw .isDirectory
    if place != .above && nameLimit < (Text.encode name.toList).length then throw .nameTooLong
    match place with
    | .inside route => return .inside (route ++ [name])
    | .outside route => return .outside (route ++ [name])
    | .above => throw .missing

/-- The bytes of the file that a path names. -/
def read (d : Directory) (path : String) : Except FileError (List Nat) := do
  let bytes? ← match ← d.locate path with
    | .inside route => if d.hasFolder route then throw .isDirectory else pure (d.file? route)
    | .outside route =>
      if standardFolders.contains route then throw .isDirectory
      else pure (if route == nullDevice then some [] else none)
    | .above => pure none
  match bytes? with
  | none => throw .missing
  | some bytes => if (pathParts path).closed then throw .notDirectory else return bytes

/-- The directory with the file at the end of the route replaced or added. -/
def replace (d : Directory) (route : Route) (bytes : List Nat) : Directory :=
  if (d.file? route).isSome then
    { d with files := d.files.map fun (file, old) => (file, if file == route then bytes else old) }
  else { d with files := d.files ++ [(route, bytes)] }

/-- The directory after the file that a path names is written.  It does not show what is written
outside. -/
def write (d : Directory) (path : String) (bytes : List Nat) : Except FileError Directory := do
  let place ← d.locate path
  if (pathParts path).closed then throw .isDirectory
  match place with
  | .inside route => if d.hasFolder route then throw .isDirectory else return d.replace route bytes
  | .outside route => if standardFolders.contains route then throw .isDirectory else return d
  | .above => throw .missing

/-- A directory with folders and files at the given paths. -/
def ofPaths (folders : List String) (files : List (String × List Nat)) : Directory :=
  { folders := folders.map fun path => (pathParts path).names
    files := files.map fun (path, bytes) => ((pathParts path).names, bytes) }

/-- The files that are new or changed, by their paths. -/
def changes (before after : Directory) : List (String × List Nat) :=
  (after.files.filter fun (route, bytes) => before.file? route != some bytes).map
    fun (route, bytes) => ("/".intercalate route, bytes)

end Directory

end Descramble.CommandLine

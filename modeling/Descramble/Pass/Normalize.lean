import Descramble.Pass.Revision

/-!
# Plain member names

* `normalizeMembers` — writes `object["name"]` as `object.name`.
* `isPlainName` — a letter or an underscore, then letters, digits and underscores; one line feed at
  the end is let through.
-/

set_option autoImplicit false

namespace Descramble

/-- An ASCII letter or an underscore. -/
def startsPlainName (c : Char) : Bool := c.isAlpha || c == '_'

/-- An ASCII letter, a digit or an underscore. -/
def continuesPlainName (c : Char) : Bool := c.isAlphanum || c == '_'

/-- The text without one line feed at its end. -/
def dropLineFeed (cs : List Char) : List Char :=
  if cs.getLast? = some '\n' then cs.dropLast else cs

/-- Is the text a name, with at most one line feed after it? -/
def isPlainName (s : String) : Bool :=
  match dropLineFeed s.toList with
  | c :: rest => startsPlainName c && rest.all continuesPlainName
  | [] => false

/-- The name that a computed access could use. -/
def plainMember? : Node → Option String
  | .memberOf true _ (.mk (.literal (.text s) _ _) _) => if isPlainName s then some s else none
  | _ => none

/-- The access with a plain name. -/
def withPlainName (name : String) : Node → Node
  | .mk _ [object, _] => .mk (.member false) [object, .one (some (.ident name))]
  | node => node

/-- Gives the access at a place a plain name, if it can have one. -/
def normalizeAt (r : Revision) (place : Position) : Revision :=
  match r.tree.get? place with
  | some node =>
    match plainMember? node with
    | some name => r.replace place (withPlainName name node)
    | none => r
  | none => r

/-- Gives all member accesses plain names that can have them. -/
def normalizeMembers (tree : Node) : Logged Fault (Node × Bool) := do
  let r := tree.places.foldl normalizeAt ⟨tree, 0⟩
  Logged.report (.propertiesNormalized r.count)
  return (r.tree, decide (0 < r.count))

end Descramble

import Descramble.Source.Parser.Statement

/-!
# Parsing scripts

* `readGoal` — the parts of the grammar tied together; `fuel` bounds their nesting.
* `parse` — the syntax tree of a script, or the failure to parse it.
-/

set_option autoImplicit false

namespace Descramble

namespace Source

/-- Reads a part of the grammar.  A part that is nested more deeply than `fuel` is refused. -/
def readGoal : (fuel : Nat) → Reader
  | 0, _ => failAtLast "Unexpected token ILLEGAL"
  | fuel + 1, goal =>
    let read := readGoal fuel
    match goal with
    | .item => return .node (← item read)
    | .statement => return .node (← statement read)
    | .assignment => return .node (← assignment read)
    | .unary => unary read
    | .exponentiation => exponentiation read
    | .leftHand calls => leftHandSide read calls
    | .pattern kind => return .node (← pattern read kind)

/-- A whole script. -/
def script (read : Reader) : Parser Node := do
  start
  let first ← directives read
  let rest ← repeated do
    if ← seesEnd then return none
    return some (← read.node .item)
  return .mk (.program "script") [.many ((first ++ rest).map some)]

/-- Between two tokens the grammar descends through at most ten of its parts. -/
def nesting (source : List Char) : Nat := 10 * (source.length + 2)

end Source

/-- The syntax tree of a script. -/
def parse (source : String) : Except ParseError Node :=
  let chars := source.toList
  (Source.script (Source.readGoal (Source.nesting chars))).run' (Source.State.ofSource chars)

end Descramble

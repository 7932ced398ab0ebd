import Descramble.Pass.Revision

/-!
# Resolving calls of the decoder

* `resolveCalls` — replaces each call of the decoder whose first argument has a known value by the
  entry of the table that it stands for.
-/

set_option autoImplicit false

namespace Descramble

/-- The text that the call at a place stands for. -/
def resolvedEntry? (state : RunState) (analysis : Analysis) (tree : Node) (place : Position) :
    Except Fault (Option String) :=
  match tree.get? place with
  | some (.mk .call [_, .many (_ :: _)]) =>
    if isAlias tree analysis state.decoderName (place ++ [first]) then do
      let ctx := Context.ofTree tree analysis state.decoderName
      match ← ctx.evaluate (place ++ [⟨1, some 0⟩]) with
      | .known v => state.entry? v
      | _ => return none
    else .ok none
  | _ => .ok none

/-- Resolves the call at a place, if it can be. -/
def resolveAt (state : RunState) (analysis : Analysis) (r : Revision) (place : Position) :
    Except Fault Revision := do
  match ← resolvedEntry? state analysis r.tree place with
  | some entry => return r.replace place (.ofText entry)
  | none => return r

/-- Resolves the calls of the decoder once it is found. -/
def resolveCalls (state : RunState) (tree : Node) : Logged Fault (Node × Bool) :=
  if state.decoderFound then do
    let r ← Logged.ofExcept
      (visitEach (resolveAt state (analyze tree)) tree.places ⟨tree, 0⟩)
    Logged.report (.callsResolved r.count)
    return (r.tree, decide (0 < r.count))
  else return (tree, false)

end Descramble

import Descramble.DeadCode
import Descramble.Pass.Fold
import Descramble.Pass.Inline
import Descramble.Pass.Normalize
import Descramble.Pass.Resolve

/-!
# Running the passes

* `applyPasses` — the four simplifying passes, one after the other.
* `runPasses` — repeats them until the text of the tree stays the same or the iterations are used
  up.
* `recover` — the passes and then the removal of dead code.

The text of a tree is given by a function `render` that may fail.
-/

set_option autoImplicit false

namespace Descramble

/-- Why a run ended early. -/
inductive Failure (ε : Type) where
  | fault (f : Fault)
  /-- The tree has no text. -/
  | rendering (e : ε)
  deriving Repr

variable {ε : Type}

/-- The four simplifying passes. -/
def applyPasses (state : RunState) (tree : Node) : Logged Fault (Node × PassChanges) := do
  let (tree, resolved) ← resolveCalls state tree
  let (tree, folded) ← foldConstants state tree
  let (tree, inlined) ← inlineConstants tree
  let (tree, normalized) ← normalizeMembers tree
  return (tree, ⟨resolved, folded, inlined, normalized⟩)

/-- One iteration: discovery, the passes, and the comparison of the texts before and after. -/
def iterate (render : Node → Except ε String) (state : RunState) (tree : Node) :
    Logged (Failure ε) (Node × RunState) := do
  let before ← Logged.ofExcept ((render tree).mapError .rendering)
  let state ← (discover tree state).mapError .fault
  let (tree, changes) ← (applyPasses state tree).mapError .fault
  Logged.report (.passResults changes)
  let after ← Logged.ofExcept ((render tree).mapError .rendering)
  let changed := before != after
  let iteration := state.iteration + 1
  Logged.report (.passCompleted iteration changed)
  return (tree, { state with iteration := iteration, changed := changed })

/-- Iterates while the text changes, `remaining` times at most. -/
def iterateWhileChanged (render : Node → Except ε String) : (remaining : Nat) → RunState → Node →
    Logged (Failure ε) (Node × RunState)
  | 0, state, tree => return (tree, state)
  | remaining + 1, state, tree =>
    if state.changed then do
      let (tree, state) ← iterate render state tree
      iterateWhileChanged render remaining state tree
    else return (tree, state)

/-- The passes, up to a number of iterations. -/
def runPasses (render : Node → Except ε String) (maxIterations : Int) (state : RunState)
    (tree : Node) : Logged (Failure ε) (Node × RunState) := do
  Logged.report .passesStarted
  let (tree, state) ←
    iterateWhileChanged render (maxIterations - state.iteration).toNat state tree
  if state.changed then
    Logged.report (.passesStopped state.iteration)
  return (tree, state)

/-- The passes from the start, and then the removal of dead code. -/
def recover (render : Node → Except ε String) (maxIterations : Int) (tree : Node) :
    Logged (Failure ε) (Node × RunState) := do
  let (tree, state) ← runPasses render maxIterations {} tree
  Logged.report .sweepStarted
  let (tree, _) ← sweep tree
  return (tree, state)

end Descramble

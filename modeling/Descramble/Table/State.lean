import Descramble.Report
import Descramble.Table.Shape

/-!
# What a run has learned

* `RunState` — the table, its loader and its decoder, and the progress of the run.
* `discover` — looks for the loader and the decoder.  What has been found is kept.
* `RunState.entry?` — the text that a call of the decoder stands for.
-/

set_option autoImplicit false

namespace Descramble

/-- What is known during a run. -/
structure RunState where
  table : List String := []
  loaderName : Option String := none
  decoderName : Option String := none
  offset : Option Number := none
  decoderFound : Bool := false
  iteration : Int := 0
  changed : Bool := true
  deriving DecidableEq, Repr

/-- Looks for the loader unless it is known. -/
def discoverLoader (tree : Node) (state : RunState) : Logged Fault RunState :=
  match state.loaderName, findLoader? tree with
  | none, some loader => do
    Logged.report (.loaderFound loader.name loader.table.length)
    return { state with loaderName := some loader.name, table := loader.table }
  | _, _ => return state

/-- Looks for the decoder of a known loader. -/
def discoverDecoder (tree : Node) (state : RunState) : Logged Fault RunState :=
  match state.loaderName with
  | none => return state
  | some loader => do
    match ← Logged.ofExcept (findDecoder? (some loader) tree) with
    | some decoder =>
      Logged.report (.decoderFound decoder.name decoder.offset)
      return { state with
        decoderName := some decoder.name
        offset := some (.int decoder.offset)
        decoderFound := true }
    | none => return state

/-- Looks for the loader and the decoder; nothing is looked for once the decoder is found. -/
def discover (tree : Node) (state : RunState) : Logged Fault RunState :=
  if state.decoderFound then return state
  else do discoverDecoder tree (← discoverLoader tree state)

/-- The difference of two numbers: exact between integers, else the difference of doubles. -/
def Number.minus : Number → Number → Except Fault Number
  | .int a, .int b => .ok (.int (a - b))
  | a, b => do return .float ((← a.toDouble).sub (← b.toDouble))

/-- The text that a call of the decoder with an argument stands for: the entry of the table at the
argument less the offset. -/
def RunState.entry? (state : RunState) (argument : Value) : Except Fault (Option String) :=
  match argument, state.offset with
  | .number n, some offset => do
    let index ← n.minus offset
    if (← index.toDouble).isInteger then
      match index.truncate? with
      | some i => return if i < 0 then none else state.table[i.toNat]?
      | none => return none
    else return none
  | .number _, none => .error .noOffset
  | _, _ => .ok none

end Descramble

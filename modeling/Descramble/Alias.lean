import Descramble.Evaluation

/-!
# Names of the decoder

The decoder may be called through other names: `var k = decoder; var j = k;`.

* `isAlias` — does calling the node at a place call the decoder?  Chains of constant declarators are
  followed one link at a time; a chain that comes back to a binding it has passed is no alias.
* `callsDecoder` — is the node at a place a call of the decoder?
-/

set_option autoImplicit false

namespace Descramble

/-- Does the node at a place name the decoder?  `passed` holds the numbers of the bindings that the
chain has passed, and `fuel` bounds its length. -/
def namesDecoder (tree : Node) (analysis : Analysis) (decoder : String) :
    (fuel : Nat) → (passed : List Nat) → Position → Bool
  | 0, _, _ => false
  | fuel + 1, passed, place =>
    match analysis.nodeAt? tree place with
    | some (.mk (.identifier name) _) =>
      if name = decoder then true
      else
        match analysis.bindingFor? place with
        | none => false
        | some (number, b) =>
          if passed.contains number || !b.constant || (analysis.init? tree b).isNone then false
          else namesDecoder tree analysis decoder fuel (number :: passed) b.initPlace
    | _ => false

/-- Does calling the node at a place call the decoder?  Without a decoder nothing does. -/
def isAlias (tree : Node) (analysis : Analysis) (decoder : Option String) (place : Position) :
    Bool :=
  match decoder with
  | none => false
  | some name =>
    name ≠ "" && namesDecoder tree analysis name (analysis.bindings.length + 1) [] place

/-- Is the node at a place a call of the decoder? -/
def callsDecoder (tree : Node) (analysis : Analysis) (decoder : Option String)
    (place : Position) : Bool :=
  match tree.get? place with
  | some (.mk .call _) => isAlias tree analysis decoder (place ++ [first])
  | _ => false

/-- The evaluation of a tree that leaves the calls of a decoder alone. -/
def Context.ofTree (tree : Node) (analysis : Analysis) (decoder : Option String) : Context where
  tree := tree
  analysis := analysis
  isDecoderCall := callsDecoder tree analysis decoder

end Descramble

import Descramble.Proofs.Evaluation.Computes
import Descramble.Proofs.Tree.Place
import Descramble.Proofs.Value.Normal
import Descramble.Proofs.Pass.Names

/-!
# Values in two trees

A tree and another one that differs from it in replaced nodes and in what its names mean: where the
differences keep values, all expressions keep their values.

* `Node.shape` — which children a node has.
* `OperationsRespect` — a view of values that no operation sees through, such as `Value.normal`.
* `Simulates` — what the two trees and their surroundings have to agree on.
* `Simulates.valueOf` — an expression with a value has the same value in the other tree, up to the
  view.
-/

set_option autoImplicit false

namespace Descramble

/-! ## Shapes -/

/-- Does the slot hold a list, and which children are present? -/
def Slot.shape : Slot → Bool × List Bool
  | .one child => (false, [child.isSome])
  | .many children => (true, children.map Option.isSome)

/-- Which children the node has. -/
def Node.shape (n : Node) : List (Bool × List Bool) := n.slots.map Slot.shape

/-- A child that takes the place of another leaves the shape of the slot. -/
theorem Slot.shape_setAt {slot : Slot} {index : Option Nat} {c d : Node} {slots : List Slot} {i : Nat}
    (hslot : slots[i]? = some slot) (hc : Node.childOfSlots slots i index = some c) :
    (slot.setAt index (some d)).shape = slot.shape := by
  simp only [Node.childOfSlots, hslot] at hc
  split at hc
  · rename_i child hs
    cases hs
    subst hc
    rfl
  · rename_i children j hs
    cases hs
    rw [Node.join_eq_some] at hc
    simp only [Slot.setAt, Slot.shape, Prod.mk.injEq, true_and]
    apply List.ext_getElem?
    intro k
    rw [List.getElem?_map, List.getElem?_map, List.getElem?_set]
    by_cases hk : j = k
    · subst hk
      obtain ⟨hlt, hget⟩ := List.getElem?_eq_some_iff.mp hc
      simp [hlt, hget]
    · simp [hk]
  · cases hc

theorem Node.shape_modifyChild (f : Node → Node) (n : Node) (s : Step) :
    (n.modifyChild f s).shape = n.shape := by
  unfold modifyChild
  split
  · rename_i kind slots child hc
    rw [Node.child?_mk] at hc
    show (slots.modify s.slot _).map Slot.shape = slots.map Slot.shape
    apply List.ext_getElem?
    intro i
    rw [List.getElem?_map, List.getElem?_map, List.getElem?_modify]
    by_cases hi : s.slot = i
    · subst hi
      cases hslot : slots[s.slot]? with
      | none => simp
      | some slot => simp [Slot.shape_setAt hslot hc]
    · simp [hi]
  · rfl

/-- Two lists of slots with the same children present. -/
inductive SlotsAlike : List Slot → List Slot → Prop
  | nil : SlotsAlike [] []
  | absent {slots slots' : List Slot} (rest : SlotsAlike slots slots') :
      SlotsAlike (.one none :: slots) (.one none :: slots')
  | one {c c' : Node} {slots slots' : List Slot} (rest : SlotsAlike slots slots') :
      SlotsAlike (.one (some c) :: slots) (.one (some c') :: slots')
  | many {items items' : List (Option Node)} {slots slots' : List Slot}
      (hitems : items'.map Option.isSome = items.map Option.isSome)
      (rest : SlotsAlike slots slots') : SlotsAlike (.many items :: slots) (.many items' :: slots')

theorem slotsAlike_of_shape : ∀ {slots slots' : List Slot},
    slots'.map Slot.shape = slots.map Slot.shape → SlotsAlike slots slots'
  | [], [], _ => .nil
  | .one none :: slots, .one none :: slots', h => by
      rw [List.map_cons, List.map_cons, List.cons.injEq] at h
      exact .absent (slotsAlike_of_shape h.2)
  | .one (some c) :: slots, .one (some c') :: slots', h => by
      rw [List.map_cons, List.map_cons, List.cons.injEq] at h
      exact .one (slotsAlike_of_shape h.2)
  | .many items :: slots, .many items' :: slots', h => by
      simp only [List.map_cons, List.cons.injEq, Slot.shape, Prod.mk.injEq, true_and] at h
      exact .many h.1 (slotsAlike_of_shape h.2)
  | .one none :: _, .one (some _) :: _, h => by simp [Slot.shape] at h
  | .one (some _) :: _, .one none :: _, h => by simp [Slot.shape] at h
  | .one _ :: _, .many _ :: _, h => by simp [Slot.shape] at h
  | .many _ :: _, .one _ :: _, h => by simp [Slot.shape] at h

theorem getElem?_of_present {items items' : List (Option Node)}
    (h : items'.map Option.isSome = items.map Option.isSome) {j : Nat} {c : Node}
    (hc : items[j]? = some (some c)) : ∃ c', items'[j]? = some (some c') := by
  have hj := congrArg (fun present : List Bool => present[j]?) h
  simp only [List.getElem?_map, hc, Option.map_some, Option.isSome_some] at hj
  obtain ⟨x, hx, hsome⟩ := Option.map_eq_some_iff.mp hj
  obtain ⟨c', rfl⟩ := Option.isSome_iff_exists.mp hsome
  exact ⟨c', hx⟩

/-! ## Views of values -/

/-- No operation sees a difference between two values with the same view, and equal views have equal
results up to the view. -/
structure OperationsRespect (view : Value → Value) : Prop where
  unary : ∀ (op : UnaryOp) v, op.apply (view v) = op.apply v
  binary : ∀ (op : BinaryOp) l r, op.apply (view l) (view r) = op.apply l r
  truthy : ∀ v, (view v).truthy = v.truthy
  isNullish : ∀ v, (view v).isNullish = v.isNullish
  isText : ∀ v, (view v).isText = v.isText
  isArray : ∀ v, (view v).isArray = v.isArray
  isLiteral : ∀ v, (view v).isLiteral = v.isLiteral
  toText : ∀ v, (view v).toText = v.toText
  array : ∀ vs, view (.array vs) = .array (vs.map view)
  member : ∀ r k, ((view r).member (view k)).toOption.map view = (r.member k).toOption.map view
  method : ∀ r name vs, ((view r).callMethod name (vs.map view)).map view =
    (r.callMethod name vs).map view
  builtin : ∀ (f : Builtin) vs, (f.apply (vs.map view)).map view = (f.apply vs).map view

theorem operationsRespect_normal : OperationsRespect Value.normal where
  unary := UnaryOp.apply_normal
  binary := BinaryOp.apply_normal
  truthy := Value.truthy_normal
  isNullish := Value.isNullish_normal
  isText := Value.isText_normal
  isArray := Value.isArray_normal
  isLiteral := Value.isLiteral_normal
  toText := Value.toText_normal
  array := Value.normal_array
  member := Value.member_normal
  method := Value.callMethod_normal
  builtin := Builtin.apply_normal

theorem operationsRespect_id : OperationsRespect id := by
  constructor <;> simp

theorem exists_of_map_eq {view : Value → Value} {r r' : Except Fault Value}
    (h : r'.map view = r.map view) {v : Value} (hv : r = .ok v) :
    ∃ v', r' = .ok v' ∧ view v' = view v := by
  subst hv
  cases r' with
  | error f => cases h
  | ok v' => exact ⟨v', rfl, by simpa [Except.map] using h⟩

namespace OperationsRespect

variable {view : Value → Value} (hview : OperationsRespect view)
include hview

theorem keepsLeft? (symbol : String) (v : Value) :
    Descramble.keepsLeft? symbol (view v) = Descramble.keepsLeft? symbol v := by
  simp only [Descramble.keepsLeft?, hview.truthy, hview.isNullish]

theorem exists_member {r r' k k' v : Value} (hr : view r' = view r) (hk : view k' = view k)
    (h : r.member k = .ok v) : ∃ v', r'.member k' = .ok v' ∧ view v' = view v := by
  have hmember := hview.member r' k'
  rw [hr, hk, hview.member, h] at hmember
  obtain ⟨v', hv', hvv⟩ := Option.map_eq_some_iff.mp hmember.symm
  refine ⟨v', ?_, hvv⟩
  cases hm : r'.member k' with
  | error f => rw [hm] at hv'; cases hv'
  | ok w => rw [hm] at hv'; cases hv'; rfl

theorem exists_method {r r' v : Value} {name : String} {vs vs' : List Value} (hr : view r' = view r)
    (hvs : vs'.map view = vs.map view) (h : r.callMethod name vs = .ok v) :
    ∃ v', r'.callMethod name vs' = .ok v' ∧ view v' = view v := by
  have hmethod := hview.method r' name vs'
  rw [hvs, hr, hview.method] at hmethod
  exact exists_of_map_eq hmethod.symm h

theorem exists_builtin {f : Builtin} {vs vs' : List Value} {v : Value}
    (hvs : vs'.map view = vs.map view) (h : f.apply vs = .ok v) :
    ∃ v', f.apply vs' = .ok v' ∧ view v' = view v := by
  have happly := hview.builtin f vs'
  rw [hvs, hview.builtin] at happly
  exact exists_of_map_eq happly.symm h

end OperationsRespect

/-! ## Lists and templates -/

section Lists

variable {view : Value → Value} {env env' : Surroundings} {p : Position}

/-- The values of a list of expressions, from those of its items. -/
theorem itemValues_simulates {slot : Nat} : ∀ {items items' : List (Option Node)} {i : Nat}
    {vs : List Value}, items'.map Option.isSome = items.map Option.isSome →
    (∀ j c c' v, items[j]? = some (some c) → items'[j]? = some (some c') →
      valueOf env (p ++ [⟨slot, some (i + j)⟩]) c = .ok v →
        ∃ v', valueOf env' (p ++ [⟨slot, some (i + j)⟩]) c' = .ok v' ∧ view v' = view v) →
    itemValues env p slot i items = .ok vs →
      ∃ vs', itemValues env' p slot i items' = .ok vs' ∧
        vs'.map view = vs.map view
  | [], [], _, _, _, _, h => by
      rw [itemValues_nil] at h
      cases h
      exact ⟨[], itemValues_nil, rfl⟩
  | [], _ :: _, _, _, hshape, _, _ => by cases hshape
  | _ :: _, [], _, _, hshape, _, _ => by cases hshape
  | none :: rest, x :: rest', i, vs, hshape, hitem, h => by
      simp only [List.map_cons, List.cons.injEq, Option.isSome_none] at hshape
      obtain rfl : x = none := by simpa using hshape.1
      obtain ⟨ws, hws, rfl⟩ := itemValues_cons_none.mp h
      obtain ⟨ws', hws', hviews⟩ := itemValues_simulates (i := i + 1) hshape.2 (by
        intro j c c' v hc hc' hv
        rw [show i + 1 + j = i + (j + 1) by omega] at hv ⊢
        exact hitem (j + 1) c c' v hc hc' hv) hws
      exact ⟨_, itemValues_cons_none.mpr ⟨ws', hws', rfl⟩, by simp [hviews]⟩
  | some c :: rest, x :: rest', i, vs, hshape, hitem, h => by
      simp only [List.map_cons, List.cons.injEq, Option.isSome_some] at hshape
      obtain ⟨c', rfl⟩ := Option.isSome_iff_exists.mp hshape.1
      obtain ⟨v, ws, hv, hws, rfl⟩ := itemValues_cons_some.mp h
      obtain ⟨v', hv', hvv⟩ := hitem 0 c c' v rfl rfl hv
      obtain ⟨ws', hws', hviews⟩ := itemValues_simulates (i := i + 1) hshape.2 (by
        intro j c c' v hc hc' hv
        rw [show i + 1 + j = i + (j + 1) by omega] at hv ⊢
        exact hitem (j + 1) c c' v hc hc' hv) hws
      exact ⟨_, itemValues_cons_some.mpr ⟨v', ws', hv', hws', rfl⟩, by simp [hviews, hvv]⟩

/-- The text of a template, from the values of its expressions. -/
theorem templateText_simulates (hview : OperationsRespect view) : ∀ {exprs exprs' quasis quasis' : List (Option Node)} {i : Nat}
    {start text : List Char}, exprs'.map Option.isSome = exprs.map Option.isSome →
    quasis'.length = quasis.length →
    (∀ (j : Nat) x x' piece, quasis[j]? = some x → quasis'[j]? = some x' → cookedText x = .ok piece →
      cookedText x' = .ok piece) →
    (∀ j c c' v, exprs[j]? = some (some c) → exprs'[j]? = some (some c') →
      valueOf env (p ++ [⟨1, some (i + j)⟩]) c = .ok v →
        ∃ v', valueOf env' (p ++ [⟨1, some (i + j)⟩]) c' = .ok v' ∧ view v' = view v) →
    templateText env p i start quasis exprs = .ok text →
      templateText env' p i start quasis' exprs' = .ok text
  | [], [], _, _, _, _, _, _, _, _, _, h => by
      rw [templateText] at h ⊢
      exact h
  | [], _ :: _, _, _, _, _, _, hshape, _, _, _, _ => by cases hshape
  | _ :: _, [], _, _, _, _, _, hshape, _, _, _, _ => by cases hshape
  | none :: rest, x :: rest', quasis, quasis', i, start, text, hshape, hlen, _, _, h => by
      simp only [List.map_cons, List.cons.injEq, Option.isSome_none] at hshape
      obtain rfl : x = none := by simpa using hshape.1
      rw [templateText] at h ⊢
      have hempty : quasis'.isEmpty = quasis.isEmpty := by
        cases quasis <;> cases quasis' <;> simp_all
      rw [hempty]
      exact h
  | some c :: rest, x :: rest', [], quasis', i, start, text, hshape, hlen, _, _, h => by
      simp only [List.map_cons, List.cons.injEq, Option.isSome_some] at hshape
      obtain ⟨c', rfl⟩ := Option.isSome_iff_exists.mp hshape.1
      obtain rfl := List.length_eq_zero_iff.mp hlen
      rw [templateText] at h ⊢
      exact h
  | some c :: rest, x :: rest', quasi :: quasis, [], _, _, _, _, hlen, _, _, _ => by cases hlen
  | some c :: rest, x :: rest', quasi :: quasis, quasi' :: quasis', i, start, text, hshape, hlen,
      hquasi, hitem, h => by
      simp only [List.map_cons, List.cons.injEq, Option.isSome_some] at hshape
      obtain ⟨c', rfl⟩ := Option.isSome_iff_exists.mp hshape.1
      obtain ⟨v, s, piece, hv, hs, hpiece, h⟩ := templateText_cons.mp h
      obtain ⟨v', hv', hvv⟩ := hitem 0 c c' v rfl rfl hv
      have hs' : v'.toText = .ok s := by rw [← hview.toText, hvv, hview.toText, hs]
      refine templateText_cons.mpr ⟨v', s, piece, hv', hs', hquasi 0 _ _ _ rfl rfl hpiece, ?_⟩
      refine templateText_simulates hview hshape.2 (by simpa using hlen) ?_ ?_ h
      · intro j x x' piece hx hx'
        exact hquasi (j + 1) x x' piece hx hx'
      · intro j c c' v hc hc' hv
        rw [show i + 1 + j = i + (j + 1) by omega] at hv ⊢
        exact hitem (j + 1) c c' v hc hc' hv

end Lists

/-! ## The simulation -/

/-- A child that may be replaced by another expression with its value: what can be folded, and a name
that stands for the value of a binding. -/
def Replaceable (env : Surroundings) (n : Node) (p : Position) (s : Step) (c : Node) : Prop :=
  c.kind.isFoldable = true ∨
    (∃ name, c.kind = .identifier name) ∧ standsForValue (some n) (some s) = true ∧
      env.isGlobal (p ++ [s]) = false

theorem Replaceable.isGlobal {env : Surroundings} {n c : Node} {p : Position} {s : Step}
    {name : String} (h : Replaceable env n p s c) (hk : c.kind = .identifier name) :
    env.isGlobal (p ++ [s]) = false := by
  rcases h with hfold | ⟨-, -, hglobal⟩
  · rw [hk] at hfold
    cases hfold
  · exact hglobal

theorem accessedName?_eq_some {computed : Bool} {property : Node} {name : String}
    (h : accessedName? computed property = some name) :
    (computed = false ∧ property.kind = .identifier name) ∨
      ∃ raw regex, property.kind = .literal (.text name) raw regex := by
  unfold accessedName? at h
  split at h
  · rename_i hk
    cases h
    exact Or.inl ⟨rfl, hk⟩
  · rename_i hk
    cases h
    exact Or.inr ⟨_, _, hk⟩
  · cases h

/-- The name of a property that is written in the code stays. -/
theorem not_replaceable_of_accessedName? {env : Surroundings} {computed : Bool} {slots : List Slot}
    {p : Position} {property : Node} {name : String} (h : accessedName? computed property = some name) :
    ¬ Replaceable env (.mk (.member computed) slots) p second property := by
  rintro (hfold | ⟨⟨word, hword⟩, hvalue, -⟩)
  · rcases accessedName?_eq_some h with ⟨-, hk⟩ | ⟨raw, regex, hk⟩ <;> rw [hk] at hfold <;> cases hfold
  · rcases accessedName?_eq_some h with ⟨rfl, -⟩ | ⟨raw, regex, hk⟩
    · cases hvalue
    · rw [hk] at hword
      cases hword

/-- Two trees agree, outside the inner parts of replaced nodes, on what values depend on: nodes are
replaced by others with the same values, and names, global names and calls of the decoder are what
they were. -/
structure Simulates (view : Value → Value) (env env' : Surroundings) (t t' : Node)
    (outside replaced : Position → Prop) : Prop where
  respects : OperationsRespect view
  node : ∀ p n, outside p → ¬ replaced p → t.get? p = some n →
    ∃ n', t'.get? p = some n' ∧ n'.kind.nameForm = n.kind.nameForm ∧ n'.shape = n.shape
  step : ∀ p s, outside p → ¬ replaced p → outside (p ++ [s])
  value : ∀ p n v, outside p → replaced p → t.get? p = some n → valueOf env p n = .ok v →
    ∃ n' v', t'.get? p = some n' ∧ valueOf env' p n' = .ok v' ∧ view v' = view v
  replaceable : ∀ p s n c, t.get? p = some n → n.kind.isEvaluable = true →
    t.get? (p ++ [s]) = some c → replaced (p ++ [s]) → Replaceable env n p s c
  nameless : ∀ p n' name, replaced p → t'.get? p = some n' → n'.kind ≠ .identifier name
  callee : ∀ p n v, outside p → t.get? p = some n → n.kind = .call → valueOf env p n = .ok v →
    ¬ replaced (p ++ [first])
  name : ∀ p name slots v, outside p → t.get? p = some (.mk (.identifier name) slots) →
    env.nameValue p name = .ok v → ∃ v', env'.nameValue p name = .ok v' ∧ view v' = view v
  isGlobal : ∀ p name slots, outside p → t.get? p = some (.mk (.identifier name) slots) →
    env'.isGlobal p = env.isGlobal p
  decoder : ∀ p n v, outside p → t.get? p = some n → n.kind = .call → valueOf env p n = .ok v →
    env'.isDecoderCall p = false

theorem cookedText_eq_ok {piece : Option Node} {text : String} (h : cookedText piece = .ok text) :
    ∃ tail raw slots, piece = some (.mk (.templateElement tail (some text) raw) slots) := by
  unfold cookedText at h
  split at h
  · cases h
    exact ⟨_, _, _, rfl⟩
  · cases h

theorem accessedName?_congr {computed : Bool} {property property' : Node}
    (h : property'.kind = property.kind) :
    accessedName? computed property' = accessedName? computed property := by
  unfold accessedName?
  rw [h]

theorem globalMember?_eq_some {env : Surroundings} {q : Position} {owner : Node}
    {name : Option String} {f : Builtin} :
    globalMember? env q owner name = some f ↔ ∃ object word, owner.kind = .identifier object ∧
      name = some word ∧ env.isGlobal q = true ∧ Builtin.ofMember? object word = some f := by
  unfold globalMember?
  split
  · rename_i object word hk
    constructor
    · intro h
      split at h
      · rename_i hg
        exact ⟨object, word, hk, rfl, hg, h⟩
      · cases h
    · rintro ⟨object', word', hk', hw, hg, hf⟩
      rw [hk] at hk'
      cases hk'
      cases hw
      rw [if_pos hg, hf]
  · rename_i hne
    constructor
    · intro h
      cases h
    · rintro ⟨object, word, hk, rfl, -⟩
      exact absurd rfl (hne object word hk)

theorem globalMember?_eq_none {env : Surroundings} {q : Position} {owner : Node}
    {name : Option String}
    (h : ∀ object, owner.kind = .identifier object → env.isGlobal q = false) :
    globalMember? env q owner name = none := by
  unfold globalMember?
  split
  · rename_i object _ hk
    simp [h object hk]
  · rfl

namespace Simulates

variable {view : Value → Value} {env env' : Surroundings} {t t' : Node} {outside replaced : Position → Prop}

/-- A child of an evaluated node that cannot be replaced has its counterpart. -/
theorem child (h : Simulates view env env' t t' outside replaced) {p : Position} {s : Step} {n c n' : Node}
    (hout : outside p) (hnr : ¬ replaced p) (hget : t.get? p = some n)
    (hk : n.kind.isEvaluable = true) (hget' : t'.get? p = some n') (hc : n.child? s = some c)
    (hfix : ¬ Replaceable env n p s c)
    (hprop : ∀ computed kind method shorthand, c.kind ≠ .property computed kind method shorthand) :
    ∃ c', n'.child? s = some c' ∧ c'.kind = c.kind ∧ c'.shape = c.shape ∧
      ¬ replaced (p ++ [s]) := by
  have hgetc : t.get? (p ++ [s]) = some c := by rw [Node.get?_concat, hget, Option.bind_some, hc]
  have hnr' : ¬ replaced (p ++ [s]) := fun hr => hfix (h.replaceable p s n c hget hk hgetc hr)
  obtain ⟨c', hgetc', hkind, hshape⟩ := h.node _ c (h.step p s hout hnr) hnr' hgetc
  rw [Node.get?_concat, hget', Option.bind_some] at hgetc'
  exact ⟨c', hgetc', Kind.eq_of_nameForm hkind hprop, hshape, hnr'⟩

/-- What lies outside below a place keeps its values. -/
def Below (view : Value → Value) (env env' : Surroundings) (t t' : Node) (outside : Position → Prop)
    (p : Position) : Prop :=
  ∀ s r c w, t.get? (p ++ s :: r) = some c → outside (p ++ s :: r) →
    Descramble.valueOf env (p ++ s :: r) c = .ok w →
      ∃ c' w', t'.get? (p ++ s :: r) = some c' ∧
        Descramble.valueOf env' (p ++ s :: r) c' = .ok w' ∧ view w' = view w

section Children

variable {p : Position} {n n' : Node}

theorem Below.child (hbelow : Below view env env' t t' outside p) (hget : t.get? p = some n)
    (hget' : t'.get? p = some n') (hout : ∀ s, outside (p ++ [s])) {s : Step} {c c' : Node} {w : Value}
    (hc : n.child? s = some c) (hc' : n'.child? s = some c')
    (hw : Descramble.valueOf env (p ++ [s]) c = .ok w) :
    ∃ w', Descramble.valueOf env' (p ++ [s]) c' = .ok w' ∧ view w' = view w := by
  have hgetc : t.get? (p ++ [s]) = some c := by rw [Node.get?_concat, hget, Option.bind_some, hc]
  obtain ⟨d, w', hd, hw', hviews⟩ := hbelow s [] c w hgetc (hout s) hw
  rw [Node.get?_concat, hget', Option.bind_some, hc'] at hd
  cases hd
  exact ⟨w', hw', hviews⟩

theorem child?_of_item {slot j : Nat} {items : List (Option Node)} {c : Node}
    (hslot : n.slots[slot]? = some (.many items)) (hc : items[j]? = some (some c)) :
    n.child? ⟨slot, some j⟩ = some c := by
  obtain ⟨k, slots⟩ := n
  have hslot : slots[slot]? = some (.many items) := hslot
  simp [Node.child?_mk, Node.childOfSlots, hslot, hc]

theorem Below.items (hbelow : Below view env env' t t' outside p) (hget : t.get? p = some n)
    (hget' : t'.get? p = some n') (hout : ∀ s, outside (p ++ [s])) {slot : Nat}
    {items items' : List (Option Node)} {vs : List Value}
    (hslot : n.slots[slot]? = some (.many items)) (hslot' : n'.slots[slot]? = some (.many items'))
    (hshape : items'.map Option.isSome = items.map Option.isSome)
    (hvs : itemValues env p slot 0 items = .ok vs) :
    ∃ vs', itemValues env' p slot 0 items' = .ok vs' ∧
      vs'.map view = vs.map view := by
  refine itemValues_simulates hshape ?_ hvs
  intro j c c' w hc hc' hw
  rw [Nat.zero_add] at hw ⊢
  exact hbelow.child hget hget' hout (child?_of_item hslot hc) (child?_of_item hslot' hc') hw

end Children

/-- The callee of a method call keeps its form: its owner stands for the same global object or for
none, and a name that is written in the code stays. -/
theorem calleeMember (h : Simulates view env env' t t' outside replaced) {p : Position} {computed : Bool}
    {owner property c' : Node} {name : String} (hout : outside p) (hnr : ¬ replaced p)
    (hget : t.get? p = some (.mk (.member computed) [.one (some owner), .one (some property)]))
    (hget' : t'.get? p = some c') (hname : accessedName? computed property = some name) :
    ∃ owner' property', c' = .mk (.member computed) [.one (some owner'), .one (some property')] ∧
      accessedName? computed property' = some name ∧
      ∀ word, globalMember? env' (p ++ [first]) owner' word =
        globalMember? env (p ++ [first]) owner word := by
  obtain ⟨⟨k, slots⟩, hgetc, hkind, hshape⟩ := h.node p _ hout hnr hget
  rw [hget'] at hgetc
  cases hgetc
  cases Kind.eq_of_nameForm hkind (by simp)
  have halike : SlotsAlike [.one (some owner), .one (some property)] slots :=
    slotsAlike_of_shape hshape
  rcases halike with _ | _ | ⟨_ | _ | ⟨⟨⟩⟩⟩
  rename_i owner' property'
  refine ⟨owner', property', rfl, ?_, ?_⟩
  · obtain ⟨d, hd, hkind, -⟩ := h.child (s := second) hout hnr hget rfl hget' rfl
      (not_replaceable_of_accessedName? hname) (by
        rcases accessedName?_eq_some hname with ⟨-, hk⟩ | ⟨raw, regex, hk⟩ <;> simp [hk])
    cases hd
    rw [accessedName?_congr hkind, hname]
  · intro word
    have hgeto : t.get? (p ++ [first]) = some owner := by rw [Node.get?_concat, hget]; rfl
    have hgeto' : t'.get? (p ++ [first]) = some owner' := by rw [Node.get?_concat, hget']; rfl
    by_cases hr : replaced (p ++ [first])
    · -- a replaced owner was no global object, and is none
      have hreplaceable := h.replaceable p first _ owner hget rfl hgeto hr
      rw [globalMember?_eq_none fun name hk => absurd hk (h.nameless _ owner' name hr hgeto'),
        globalMember?_eq_none fun name hk => hreplaceable.isGlobal hk]
    · obtain ⟨d, hd, hkind, -⟩ := h.node _ owner (h.step p first hout hnr) hr hgeto
      rw [hgeto'] at hd
      cases hd
      rcases Kind.nameForm_cases hkind with hkind | ⟨_, _, _, _, _, hk', hk⟩
      · unfold globalMember?
        rw [hkind]
        split
        · rename_i object word hk
          obtain ⟨k, oslots⟩ := owner
          cases hk
          rw [h.isGlobal _ object oslots (h.step p first hout hnr) hgeto]
        · rfl
      · rw [globalMember?_eq_none (by simp [hk']), globalMember?_eq_none (by simp [hk])]

/-- **A call keeps its value.** -/
theorem call (h : Simulates view env env' t t' outside replaced) {p : Position} {n n' : Node} {v : Value}
    (hout : outside p) (hr : ¬ replaced p) (hget : t.get? p = some n) (hk : n.kind = .call)
    (hget' : t'.get? p = some n') (hkind : n'.kind = n.kind) (hshape : n'.shape = n.shape)
    (hbelow : Below view env env' t t' outside p) (hv : Computes env p n v) :
    ∃ v', Computes env' p n' v' ∧ view v' = view v := by
  have hsteps : ∀ s, outside (p ++ [s]) := fun s => h.step p s hout hr
  have hdecoder' := h.decoder p n v hout hget hk hv.valueOf_eq
  have hcallee := h.callee p n v hout hget hk hv.valueOf_eq
  obtain ⟨k', slots'⟩ := n'
  have halike : SlotsAlike n.slots slots' := slotsAlike_of_shape hshape
  cases hv with
  | @callGlobal name slots arguments f vs v hdecoder hf hglobal hvs hv =>
      cases hkind
      rcases halike with _ | _ | ⟨_ | _ | _ | ⟨hargs, ⟨⟩⟩⟩
      obtain ⟨⟨k', slots'⟩, hc', hk', -⟩ := h.child (s := first) hout hr hget rfl hget' rfl
        (fun hfix => by rw [hfix.isGlobal rfl] at hglobal; cases hglobal) (by simp)
      cases hc'
      cases hk'
      obtain ⟨vs', hvs', hviews⟩ := hbelow.items hget hget' hsteps rfl rfl hargs hvs
      obtain ⟨v', hv', hvv⟩ := h.respects.exists_builtin hviews hv
      refine ⟨v', .callGlobal hdecoder' hf ?_ hvs' hv', hvv⟩
      rw [h.isGlobal (p ++ [first]) name slots (hsteps first)
        (by rw [Node.get?_concat, hget]; rfl), hglobal]
  | @callMember computed owner property arguments f vs v hdecoder hf hvs hv =>
      cases hkind
      rcases halike with _ | _ | ⟨_ | _ | _ | ⟨hargs, ⟨⟩⟩⟩
      obtain ⟨object, word, -, hname, -⟩ := globalMember?_eq_some.mp hf
      obtain ⟨owner', property', rfl, hname', howner⟩ := h.calleeMember (hsteps first) hcallee
        (by rw [Node.get?_concat, hget]; rfl) (by rw [Node.get?_concat, hget']; rfl) hname
      obtain ⟨vs', hvs', hviews⟩ := hbelow.items hget hget' hsteps rfl rfl hargs hvs
      obtain ⟨v', hv', hvv⟩ := h.respects.exists_builtin hviews hv
      refine ⟨v', .callMember hdecoder' ?_ hvs' hv', hvv⟩
      simp only [List.append_assoc, List.cons_append, List.nil_append] at howner
      rw [hname', howner, ← hname, hf]
  | @callMethod computed owner property arguments name receiver vs v hdecoder hf hname hreceiver hvs
      hv =>
      cases hkind
      rcases halike with _ | _ | ⟨_ | _ | _ | ⟨hargs, ⟨⟩⟩⟩
      obtain ⟨owner', property', rfl, hname', howner⟩ := h.calleeMember (hsteps first) hcallee
        (by rw [Node.get?_concat, hget]; rfl) (by rw [Node.get?_concat, hget']; rfl) hname
      obtain ⟨vs', hvs', hviews⟩ := hbelow.items hget hget' hsteps rfl rfl hargs hvs
      have houto := h.step _ first (hsteps first) hcallee
      simp only [List.append_assoc, List.cons_append, List.nil_append] at howner houto
      obtain ⟨d, receiver', hd, hreceiver', hnr⟩ := hbelow first [first] owner receiver
        (by rw [Node.get?_append, hget]; rfl) houto hreceiver
      rw [Node.get?_append, hget'] at hd
      cases hd
      obtain ⟨v', hv', hvv⟩ := h.respects.exists_method hnr hviews hv
      refine ⟨v', .callMethod hdecoder' ?_ hname' hreceiver' hvs' hv', hvv⟩
      rw [hname', howner, ← hname, hf]
  | _ => cases hk

/-- A template keeps its text: its pieces are nodes that nothing folds. -/
theorem template (h : Simulates view env env' t t' outside replaced) {p : Position}
    {quasis quasis' exprs exprs' : List (Option Node)} {start : String} {text : List Char}
    (hout : outside p) (hr : ¬ replaced p)
    (hget : t.get? p = some (.mk .templateLiteral [.many quasis, .many exprs]))
    (hget' : t'.get? p = some (.mk .templateLiteral [.many quasis', .many exprs']))
    (hquasis : quasis'.map Option.isSome = quasis.map Option.isSome)
    (hexprs : exprs'.map Option.isSome = exprs.map Option.isSome)
    (hbelow : Below view env env' t t' outside p) (hstart : cookedText quasis.head?.join = .ok start)
    (htext : templateText env p 0 start.toList quasis.tail exprs = .ok text) :
    cookedText quasis'.head?.join = .ok start ∧
      templateText env' p 0 start.toList quasis'.tail exprs' = .ok text := by
  have hpiece : ∀ (j : Nat) x x' piece, quasis[j]? = some x → quasis'[j]? = some x' →
      cookedText x = .ok piece → cookedText x' = .ok piece := by
    intro j x x' piece hx hx' hpiece
    obtain ⟨tail, raw, slots, rfl⟩ := cookedText_eq_ok hpiece
    obtain ⟨⟨k, slots'⟩, hc', hk', -⟩ := h.child (s := ⟨0, some j⟩) hout hr hget rfl hget'
      (child?_of_item rfl hx) (by rintro (hfold | ⟨⟨word, hword⟩, -⟩) <;> contradiction) (by simp)
    obtain ⟨c', hc''⟩ := getElem?_of_present hquasis hx
    rw [child?_of_item rfl hc''] at hc'
    cases hc'
    rw [hx'] at hc''
    cases hc''
    cases hk'
    rfl
  have hlen : quasis'.length = quasis.length := by simpa using congrArg List.length hquasis
  constructor
  · cases quasis with
    | nil => cases hstart
    | cons x rest =>
        obtain ⟨x', rest', rfl⟩ := List.exists_cons_of_length_eq_add_one hlen
        exact hpiece 0 x x' start rfl rfl hstart
  · refine templateText_simulates h.respects hexprs (by simp [hlen]) ?_ ?_ htext
    · intro j x x' piece hx hx'
      rw [List.getElem?_tail] at hx hx'
      exact hpiece (j + 1) x x' piece hx hx'
    · intro j c c' w hc hc' hw
      rw [Nat.zero_add] at hw ⊢
      exact hbelow.child hget hget' (fun s => h.step p s hout hr) (child?_of_item rfl hc)
        (child?_of_item rfl hc') hw

/-- **An expression keeps its value**, if the expressions below it do. -/
theorem computes (h : Simulates view env env' t t' outside replaced) {p : Position} {n n' : Node}
    {v : Value} (hout : outside p) (hr : ¬ replaced p) (hget : t.get? p = some n)
    (hget' : t'.get? p = some n') (hkind : n'.kind = n.kind) (hshape : n'.shape = n.shape)
    (hbelow : Below view env env' t t' outside p) (hv : Computes env p n v) :
    ∃ v', Computes env' p n' v' ∧ view v' = view v := by
  have hsteps : ∀ s, outside (p ++ [s]) := fun s => h.step p s hout hr
  have hcall : n.kind = .call → ∃ v', Computes env' p n' v' ∧ view v' = view v :=
    fun hk => h.call hout hr hget hk hget' hkind hshape hbelow hv
  obtain ⟨k', slots'⟩ := n'
  have halike : SlotsAlike n.slots slots' := slotsAlike_of_shape hshape
  cases hv with
  | literal hv =>
      cases hkind
      exact ⟨v, .literal hv, rfl⟩
  | identifier hv =>
      cases hkind
      obtain ⟨v', hv', hviews⟩ := h.name p _ _ v hout hget hv
      exact ⟨v', .identifier hv', hviews⟩
  | template hstart htext hv =>
      cases hkind
      rcases halike with _ | _ | _ | ⟨hquasis, _ | _ | _ | ⟨hexprs, ⟨⟩⟩⟩
      obtain ⟨hstart', htext'⟩ :=
        h.template hout hr hget hget' hquasis hexprs hbelow hstart htext
      exact ⟨v, .template hstart' htext' hv, rfl⟩
  | unary hne hop ha hv =>
      cases hkind
      rcases halike with _ | _ | ⟨⟨⟩⟩
      obtain ⟨a', ha', hviews⟩ := hbelow.child (s := first) hget hget' hsteps rfl rfl ha
      refine ⟨v, .unary hne hop ha' ?_, rfl⟩
      rw [← h.respects.unary, hviews, h.respects.unary, hv]
  | binary hop hl hr hv =>
      cases hkind
      rcases halike with _ | _ | ⟨_ | _ | ⟨⟨⟩⟩⟩
      obtain ⟨l', hl', hnl⟩ := hbelow.child (s := first) hget hget' hsteps rfl rfl hl
      obtain ⟨r', hr', hnr⟩ := hbelow.child (s := second) hget hget' hsteps rfl rfl hr
      refine ⟨v, .binary hop hl' hr' ?_, rfl⟩
      rw [← h.respects.binary, hnl, hnr, h.respects.binary, hv]
  | logicalLeft hl hv =>
      cases hkind
      rcases halike with _ | _ | ⟨_ | _ | ⟨⟨⟩⟩⟩
      obtain ⟨l', hl', hnl⟩ := hbelow.child (s := first) hget hget' hsteps rfl rfl hl
      refine ⟨l', .logicalLeft hl' ?_, hnl⟩
      rw [← h.respects.keepsLeft?, hnl, h.respects.keepsLeft?, hv]
  | logicalRight hl hv hr =>
      cases hkind
      rcases halike with _ | _ | ⟨_ | _ | ⟨⟨⟩⟩⟩
      obtain ⟨l', hl', hnl⟩ := hbelow.child (s := first) hget hget' hsteps rfl rfl hl
      obtain ⟨r', hr', hnr⟩ := hbelow.child (s := second) hget hget' hsteps rfl rfl hr
      refine ⟨r', .logicalRight hl' ?_ hr', hnr⟩
      rw [← h.respects.keepsLeft?, hnl, h.respects.keepsLeft?, hv]
  | conditionalYes ht htruthy hv =>
      cases hkind
      rcases halike with _ | _ | ⟨_ | _ | ⟨_ | _ | ⟨⟨⟩⟩⟩⟩
      obtain ⟨t', ht', hnt⟩ := hbelow.child (s := first) hget hget' hsteps rfl rfl ht
      obtain ⟨v', hv', hvv⟩ := hbelow.child (s := second) hget hget' hsteps rfl rfl hv
      refine ⟨v', .conditionalYes ht' ?_ hv', hvv⟩
      rw [← h.respects.truthy, hnt, h.respects.truthy, htruthy]
  | conditionalNo ht htruthy hv =>
      cases hkind
      rcases halike with _ | _ | ⟨_ | _ | ⟨_ | _ | ⟨⟨⟩⟩⟩⟩
      obtain ⟨t', ht', hnt⟩ := hbelow.child (s := first) hget hget' hsteps rfl rfl ht
      obtain ⟨v', hv', hvv⟩ := hbelow.child (s := ⟨2, none⟩) hget hget' hsteps rfl rfl hv
      refine ⟨v', .conditionalNo ht' ?_ hv', hvv⟩
      rw [← h.respects.truthy, hnt, h.respects.truthy, htruthy]
  | sequence hvs hv =>
      cases hkind
      rcases halike with _ | _ | _ | ⟨hitems, ⟨⟩⟩
      obtain ⟨vs', hvs', hviews⟩ := hbelow.items hget hget' hsteps rfl rfl hitems hvs
      have hlast := congrArg List.getLast? hviews
      rw [List.getLast?_map, List.getLast?_map, hv] at hlast
      obtain ⟨v', hv', hvv⟩ := Option.map_eq_some_iff.mp hlast
      exact ⟨v', .sequence hvs' hv', hvv⟩
  | array hvs =>
      cases hkind
      rcases halike with _ | _ | _ | ⟨hitems, ⟨⟩⟩
      obtain ⟨vs', hvs', hviews⟩ := hbelow.items hget hget' hsteps rfl rfl hitems hvs
      exact ⟨.array vs', .array hvs', by rw [h.respects.array, h.respects.array, hviews]⟩
  | @member computed object property receiver key v hreceiver hkey hv =>
      cases hkind
      rcases halike with _ | _ | ⟨_ | _ | ⟨⟨⟩⟩⟩
      obtain ⟨r', hr', hnr⟩ := hbelow.child (s := first) hget hget' hsteps rfl rfl hreceiver
      rename_i object' property'
      obtain ⟨key', hkey', hnk⟩ : ∃ key', ComputesKey env' p computed property' key' ∧
          view key' = view key := by
        cases hkey with
        | plain =>
            obtain ⟨⟨k, slots⟩, hc', hk', -⟩ := h.child (s := second) hout hr hget rfl hget' rfl
              (not_replaceable_of_accessedName? rfl) (by simp)
            cases hc'
            cases hk'
            exact ⟨_, .plain, rfl⟩
        | computed hkey =>
            obtain ⟨key', hkey', hnk⟩ := hbelow.child (s := second) hget hget' hsteps rfl rfl hkey
            exact ⟨key', .computed hkey', hnk⟩
      obtain ⟨v', hv', hvv⟩ := h.respects.exists_member hnr hnk hv
      exact ⟨v', .member hr' hkey' hv', hvv⟩
  | callGlobal => exact hcall rfl
  | callMember => exact hcall rfl
  | callMethod => exact hcall rfl

/-- **All expressions keep their values**, up to the view. -/
theorem valueOf (h : Simulates view env env' t t' outside replaced) (n : Node) :
    ∀ p v, outside p → t.get? p = some n → Descramble.valueOf env p n = .ok v →
      ∃ n' v', t'.get? p = some n' ∧ Descramble.valueOf env' p n' = .ok v' ∧
        view v' = view v := by
  induction n using Node.belowInduction with
  | h n ih =>
      intro p v hout hget hv
      by_cases hr : replaced p
      · exact h.value p n v hout hr hget hv
      · obtain ⟨n', hget', hkind, hshape⟩ := h.node p n hout hr hget
        have hbelow : Below view env env' t t' outside p := by
          intro s r c w hc houtc hw
          refine ih s r c ?_ _ w houtc hc hw
          rw [Node.get?_append, hget] at hc
          exact hc
        have hkind := Kind.eq_of_nameForm hkind fun _ _ _ _ hk => by
          have hevaluable := isEvaluable_of_valueOf hv
          rw [hk] at hevaluable
          cases hevaluable
        obtain ⟨v', hv', hviews⟩ := h.computes hout hr hget hget' hkind hshape hbelow
          (valueOf_eq_ok_iff.mp hv)
        exact ⟨n', v', hget', hv'.valueOf_eq, hviews⟩

end Simulates

end Descramble

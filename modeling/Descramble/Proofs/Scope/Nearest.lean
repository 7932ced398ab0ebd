import Descramble.Proofs.Evaluation.Agreement
import Descramble.Proofs.Scope.Distinct

/-!
# The nearest enclosing declaration

What a script means by a name is said here by places alone: which nodes open a scope, which nodes put
a name into which scope, and which identifiers are looked up at all.  The analysis, which walks the
tree once and looks the names up afterwards, finds the same.

* `OpensScope`, `HoldsVars`, `Innermost` — the scopes around a place, and the nearest of them.
* `Introduces` — the node at a place declares a name in a scope; `introduces_iff` — so the analysis
  has it.
* `DeclaringName`, `NameOnly` — the identifiers that are not looked up; `occurs_iff_not_declaring`.
* `bindingFor?_eq_some_iff_innermost` — an identifier refers to the binding of its name in the nearest
  enclosing scope that declares the name.
-/

set_option autoImplicit false

namespace Descramble

/-! ## Scopes by place -/

/-- The nearest place at or above `p` with a property. -/
def Innermost (P : Position → Prop) (p q : Position) : Prop :=
  q <+: p ∧ P q ∧ ∀ r, r <+: p → P r → r <+: q

/-- The statements and the clause that open a scope wherever they stand. -/
def Kind.isScopeStatement : Kind → Bool
  | .forStatement => true
  | .forInStatement _ => true
  | .forOfStatement => true
  | .switchStatement => true
  | .catchClause => true
  | _ => false

/-- The places that open a scope.  The block below a function is its body and shares the scope of the
function. -/
inductive OpensScope (t : Node) : Position → Prop
  | root : OpensScope t []
  | function {q : Position} {n : Node} : t.get? q = some n → n.kind.isFunction = true →
      OpensScope t q
  | block {q : Position} {s : Step} {m n : Node} : t.get? q = some m → m.kind.isFunction = false →
      t.get? (q ++ [s]) = some n → n.kind = .block → OpensScope t (q ++ [s])
  | statement {q : Position} {n : Node} : t.get? q = some n → n.kind.isScopeStatement = true →
      OpensScope t q

/-- The places whose scopes hold what `var` declares: the root and the functions. -/
def HoldsVars (t : Node) (q : Position) : Prop :=
  q = [] ∨ ∃ n, t.get? q = some n ∧ n.kind.isFunction = true

theorem Innermost.unique {P : Position → Prop} {p q r : Position} (hq : Innermost P p q)
    (hr : Innermost P p r) : q = r :=
  (hr.2.2 q hq.1 hq.2.1).eq_of_length_le (hq.2.2 r hr.1 hr.2.1).length_le

theorem Innermost.congr {P P' : Position → Prop} {p q : Position}
    (h : ∀ r, r <+: p → (P r ↔ P' r)) : Innermost P p q ↔ Innermost P' p q := by
  unfold Innermost
  constructor
  · rintro ⟨hq, hP, hmax⟩
    exact ⟨hq, (h q hq).mp hP, fun r hr hP' => hmax r hr ((h r hr).mpr hP')⟩
  · rintro ⟨hq, hP, hmax⟩
    exact ⟨hq, (h q hq).mpr hP, fun r hr hP' => hmax r hr ((h r hr).mp hP')⟩

/-- A place with the property is its own nearest one. -/
theorem Innermost.self {P : Position → Prop} {p : Position} (h : P p) : Innermost P p p :=
  ⟨List.prefix_refl p, h, fun _ hr _ => hr⟩

/-- What a node below another one opens. -/
theorem opensScope?_eq_some_iff {m n : Node} {isFunction : Bool} :
    opensScope? (some m) n = some isFunction ↔
      (n.kind.isFunction = true ∧ isFunction = true) ∨
        (isFunction = false ∧ ((n.kind = .block ∧ m.kind.isFunction = false) ∨
          n.kind.isScopeStatement = true)) := by
  simp only [opensScope?]
  split
  case h_4 hk =>
    cases hm : m.kind.isFunction <;> simp [hk, Kind.isFunction, Kind.isScopeStatement, eq_comm]
  case h_10 hfun hexpr harrow hblock hfor hforIn hforOf hswitch hcatch =>
    -- none of the kinds above, so no function and no statement with a scope
    have hfunction : n.kind.isFunction = false := by
      unfold Kind.isFunction
      split
      · exact (hfun _ ‹_›).elim
      · exact (hexpr _ ‹_›).elim
      · exact (harrow _ ‹_›).elim
      · rfl
    have hstatement : n.kind.isScopeStatement = false := by
      unfold Kind.isScopeStatement
      split
      · exact (hfor ‹_›).elim
      · exact (hforIn _ ‹_›).elim
      · exact (hforOf ‹_›).elim
      · exact (hswitch ‹_›).elim
      · exact (hcatch ‹_›).elim
      · rfl
    have hblock' : n.kind ≠ .block := hblock
    simp [hfunction, hstatement, hblock']
  all_goals
    rename_i hk
    rw [hk]
    cases isFunction <;> simp [Kind.isFunction, Kind.isScopeStatement]

variable {t n : Node} {p q : Position} {source : String}

theorem opensScope_concat_iff {c : Node} {s : Step} (hn : t.get? p = some n)
    (hc : n.child? s = some c) :
    OpensScope t (p ++ [s]) ↔ ∃ isFunction, opensScope? (some n) c = some isFunction := by
  have hget : t.get? (p ++ [s]) = some c := by rw [Node.get?_concat, hn, Option.bind_some, hc]
  simp only [opensScope?_eq_some_iff]
  constructor
  · generalize he : p ++ [s] = q at hget
    intro h
    cases h with
    | root => simp at he
    | function hq hk =>
        cases hq.symm.trans hget
        exact ⟨true, Or.inl ⟨hk, rfl⟩⟩
    | block hm hfun hq hk =>
        obtain ⟨rfl, -⟩ := List.append_inj' he rfl
        cases hq.symm.trans hget
        cases hm.symm.trans hn
        exact ⟨false, Or.inr ⟨rfl, Or.inl ⟨hk, hfun⟩⟩⟩
    | statement hq hk =>
        cases hq.symm.trans hget
        exact ⟨false, Or.inr ⟨rfl, Or.inr hk⟩⟩
  · rintro ⟨_, ⟨hk, -⟩ | ⟨-, ⟨hk, hfun⟩ | hk⟩⟩
    · exact .function hget hk
    · exact .block hn hfun hget hk
    · exact .statement hget hk

theorem holdsVars_concat_iff {c : Node} {s : Step} (hn : t.get? p = some n)
    (hc : n.child? s = some c) :
    HoldsVars t (p ++ [s]) ↔ opensScope? (some n) c = some true := by
  have hget : t.get? (p ++ [s]) = some c := by rw [Node.get?_concat, hn, Option.bind_some, hc]
  simp only [opensScope?_eq_some_iff, HoldsVars, hget]
  simp

/-! ## The scopes that the analysis lists -/

/-- **The scopes around a place** are the places above it that open one. -/
theorem exists_mem_scopesAround_iff (h : t.get? p = some n) :
    ((∃ s ∈ scopesAround t p, s.place = q) ↔ q <+: p ∧ OpensScope t q) ∧
      ((∃ s ∈ scopesAround t p, s.place = q ∧ s.isFunction = true) ↔ q <+: p ∧ HoldsVars t q) := by
  refine Node.placeInduction ?_ ?_ p n h
  · have hroot : q <+: [] ↔ q = [] := List.prefix_nil
    simp only [scopesAround_nil, List.mem_singleton, exists_eq_left, and_true, hroot]
    constructor
    · exact ⟨fun h => h ▸ ⟨rfl, .root⟩, fun h => h.1.symm⟩
    · exact ⟨fun h => h ▸ ⟨rfl, Or.inl rfl⟩, fun h => h.1.symm⟩
  · intro p step n c hn hc ih
    have hbelow : q <+: p ++ [step] ↔ q = p ++ [step] ∨ q <+: p := List.prefix_concat_iff
    simp only [scopesAround_concat hn hc, mem_enterScope, or_and_right, exists_or, ih.1, ih.2,
      hbelow]
    constructor
    · refine or_congr_left ⟨?_, ?_⟩
      · rintro ⟨s, ⟨hplace, hopen⟩, rfl⟩
        exact ⟨hplace, hplace ▸ (opensScope_concat_iff hn hc).mpr ⟨_, hopen⟩⟩
      · rintro ⟨rfl, hopen⟩
        obtain ⟨isFunction, hopen⟩ := (opensScope_concat_iff hn hc).mp hopen
        exact ⟨⟨_, isFunction⟩, ⟨rfl, hopen⟩, rfl⟩
    · refine or_congr_left ⟨?_, ?_⟩
      · rintro ⟨s, ⟨hplace, hopen⟩, rfl, hfun⟩
        exact ⟨hplace, hplace ▸ (holdsVars_concat_iff hn hc).mpr (hfun ▸ hopen)⟩
      · rintro ⟨rfl, hopen⟩
        exact ⟨⟨_, true⟩, ⟨rfl, (holdsVars_concat_iff hn hc).mp hopen⟩, rfl, rfl⟩

/-- The scopes around a place are listed from the inside out. -/
theorem pairwise_scopesAround (h : t.get? p = some n) :
    (scopesAround t p).Pairwise fun s s' => s'.place <+: s.place := by
  refine Node.placeInduction ?_ ?_ p n h
  · rw [scopesAround_nil]
    exact List.pairwise_singleton _ _
  · intro p step n c hn hc ih
    rw [scopesAround_concat hn hc]
    unfold enterScope
    split
    · exact List.pairwise_cons.mpr ⟨fun s hs =>
        (prefix_of_mem_scopesAround hn s hs).trans (List.prefix_append ..), ih⟩
    · exact ih

/-- Whatever is true of a scope and of none in front of it is true of an innermost one. -/
theorem innermost_of_split {P : Scope → Prop} {inner outer : List Scope} {s : Scope}
    (h : t.get? p = some n) (hsplit : scopesAround t p = inner ++ s :: outer) (hs : P s)
    (hinner : ∀ s' ∈ inner, ¬ P s') :
    Innermost (fun r => ∃ s ∈ scopesAround t p, s.place = r ∧ P s) p s.place := by
  have hmem : s ∈ scopesAround t p := by simp [hsplit]
  refine ⟨prefix_of_mem_scopesAround h s hmem, ⟨s, hmem, rfl, hs⟩, ?_⟩
  rintro r - ⟨s', hs', rfl, hPs'⟩
  have hpairwise := pairwise_scopesAround h
  rw [hsplit, List.pairwise_append] at hpairwise
  rw [hsplit, List.mem_append, List.mem_cons] at hs'
  rcases hs' with hs' | rfl | hs'
  · exact absurd hPs' (hinner s' hs')
  · exact List.prefix_refl _
  · exact (List.pairwise_cons.mp hpairwise.2.1).1 s' hs'

/-- The first scope that passes a test is the innermost one. -/
theorem find?_scopesAround_iff (h : t.get? p = some n) {f : Scope → Bool} :
    (∃ s, (scopesAround t p).find? f = some s ∧ s.place = q) ↔
      Innermost (fun r => ∃ s ∈ scopesAround t p, s.place = r ∧ f s = true) p q := by
  have hfirst : ∀ s, (scopesAround t p).find? f = some s →
      Innermost (fun r => ∃ s ∈ scopesAround t p, s.place = r ∧ f s = true) p s.place := by
    intro s hs
    obtain ⟨hfs, inner, outer, hsplit, hinner⟩ := List.find?_eq_some_iff_append.mp hs
    exact innermost_of_split h hsplit hfs fun s' hs' => by simpa using hinner s' hs'
  constructor
  · rintro ⟨s, hs, rfl⟩
    exact hfirst s hs
  · intro hq
    obtain ⟨-, ⟨s, hs, hplace, hfs⟩, hmax⟩ := id hq
    have hsome : ∃ s', (scopesAround t p).find? f = some s' := by
      rw [← Option.isSome_iff_exists, List.find?_isSome]
      exact ⟨s, hs, hfs⟩
    obtain ⟨s', hs'⟩ := hsome
    exact ⟨s', hs', (hfirst s' hs').unique hq⟩

/-- The innermost of the scopes around a place. -/
theorem head?_scopesAround_iff (h : t.get? p = some n) :
    (∃ s, (scopesAround t p).head? = some s ∧ s.place = q) ↔ Innermost (OpensScope t) p q := by
  have hhead : (scopesAround t p).head? = (scopesAround t p).find? fun _ => true := by
    cases scopesAround t p <;> rfl
  rw [hhead, find?_scopesAround_iff h]
  refine Innermost.congr fun r hr => ?_
  simp only [and_true, (exists_mem_scopesAround_iff h).1]
  exact ⟨And.right, fun hopen => ⟨hr, hopen⟩⟩

/-- The innermost of the scopes that hold what `var` declares. -/
theorem functionScope?_scopesAround_iff (h : t.get? p = some n) :
    (∃ s, functionScope? (scopesAround t p) = some s ∧ s.place = q) ↔
      Innermost (HoldsVars t) p q := by
  rw [functionScope?, find?_scopesAround_iff h]
  refine Innermost.congr fun r hr => ?_
  rw [(exists_mem_scopesAround_iff h).2]
  exact ⟨And.right, fun hopen => ⟨hr, hopen⟩⟩

/-! ## Declarations by place -/

/-- The pattern at a place binds an identifier. -/
def PatternBinds (t : Node) (start : Position) (x : Name) : Prop :=
  ∃ c, t.get? start = some c ∧ x ∈ patternNames start c

/-- The identifier at a place. -/
def IsName (t : Node) (p : Position) (x : Name) : Prop :=
  x.place = p ∧ ∃ slots, t.get? p = some (.mk (.identifier x.name) slots)

/-- **What declares a name.**  `Introduces t p q x`: the node at `p` puts the name of the identifier
`x` into the scope that opens at `q`. -/
inductive Introduces (t : Node) : Position → Position → Name → Prop
  | var {r q : Position} {s : Step} {m n : Node} {x : Name} : t.get? r = some m →
      m.kind = .variableDeclaration .var → t.get? (r ++ [s]) = some n →
      n.kind = .variableDeclarator → PatternBinds t (r ++ [s] ++ [first]) x →
      Innermost (HoldsVars t) r q → Introduces t (r ++ [s]) q x
  | lexical {r q : Position} {s : Step} {m n : Node} {kind : VariableKind} {x : Name} :
      t.get? r = some m → m.kind = .variableDeclaration kind → kind ≠ .var →
      t.get? (r ++ [s]) = some n → n.kind = .variableDeclarator →
      PatternBinds t (r ++ [s] ++ [first]) x → Innermost (OpensScope t) r q →
      Introduces t (r ++ [s]) q x
  | functionStatement {r q : Position} {s : Step} {n : Node} {flags : FunctionFlags} {x : Name} :
      t.get? (r ++ [s]) = some n → n.kind = .functionDeclaration flags →
      IsName t (r ++ [s] ++ [first]) x → Innermost (OpensScope t) r q → Introduces t (r ++ [s]) q x
  | classStatement {r q : Position} {s : Step} {n : Node} {x : Name} :
      t.get? (r ++ [s]) = some n → n.kind = .classDeclaration →
      IsName t (r ++ [s] ++ [first]) x → Innermost (OpensScope t) r q → Introduces t (r ++ [s]) q x
  | ownName {p : Position} {n : Node} {flags : FunctionFlags} {x : Name} : t.get? p = some n →
      n.kind = .functionExpression flags → IsName t (p ++ [first]) x → Introduces t p p x
  | param {p : Position} {s : Step} {n : Node} {x : Name} : t.get? p = some n →
      n.kind.isFunction = true → n.slotName? s = some "params" → PatternBinds t (p ++ [s]) x →
      Introduces t p p x
  | caught {p : Position} {n : Node} {x : Name} : t.get? p = some n → n.kind = .catchClause →
      PatternBinds t (p ++ [first]) x → Introduces t p p x

/-- The scope at `q` holds a name. -/
def HoldsName (t : Node) (q : Position) (name : String) : Prop :=
  ∃ p x, Introduces t p q x ∧ x.name = name

theorem patternBinds_iff {start : Position} {x : Name} :
    PatternBinds t start x ↔ PatternPath t start x.place ∧
      ∃ slots, t.get? x.place = some (.mk (.identifier x.name) slots) := by
  constructor
  · rintro ⟨c, hc, hx⟩
    exact (mem_patternNames_iff hc).mp hx
  · rintro ⟨hpath, slots, hx⟩
    obtain ⟨c, hc⟩ := Node.exists_get?_of_prefix hx hpath.isPrefix
    exact ⟨c, hc, (mem_patternNames_iff hc).mpr ⟨hpath, slots, hx⟩⟩

theorem IsName.patternBinds {x : Name} (h : IsName t p x) : PatternBinds t p x := by
  obtain ⟨rfl, slots, hx⟩ := h
  exact patternBinds_iff.mpr ⟨.here, slots, hx⟩

/-- Where a home puts a name that the node at `above ++ [last]` declares. -/
def Home.Reaches (t : Node) (above : Position) (last : Step) (q : Position) : Home → Prop
  | .inner => Innermost (OpensScope t) (above ++ [last]) q
  | .outer => Innermost (OpensScope t) above q
  | .function => Innermost (HoldsVars t) above q

theorem Home.reaches_iff {above : Position} {last : Step}
    (hn : t.get? (above ++ [last]) = some n) (home : Home) :
    home.Reaches t above last q ↔
      ∃ s, home.pick (scopesAround t (above ++ [last])) (scopesAround t above) = some s ∧
        s.place = q := by
  obtain ⟨m, hm⟩ := Node.exists_get?_of_prefix hn (List.prefix_append above [last])
  cases home with
  | inner => exact (head?_scopesAround_iff hn).symm
  | outer => exact (head?_scopesAround_iff hm).symm
  | function => exact (functionScope?_scopesAround_iff hm).symm

/-- The table of binding steps has it that the node at `p` puts a name into the scope at `q`. -/
def BindsName (t : Node) (p q : Position) (x : Name) : Prop :=
  ∃ above last parent node s home kind, p = above ++ [last] ∧ t.get? above = some parent ∧
    t.get? (above ++ [last]) = some node ∧
    bindsBy parent.kind node.kind node.skeleton s = some (home, kind) ∧
    PatternBinds t (above ++ [last] ++ [s]) x ∧
    (namesItself node.kind s = true → x.place = above ++ [last] ++ [s]) ∧
    home.Reaches t above last q

/-- The declarations of the analysis, by place and by what binds the name. -/
theorem exists_declaration_iff {x : Name} :
    (∃ d ∈ declarations t, d.place = p ∧ d.scope.place = q ∧ d.name = x) ↔ BindsName t p q x := by
  constructor
  · rintro ⟨d, hd, rfl, rfl, rfl⟩
    obtain ⟨above, last, parent, node, s, home, hd⟩ := mem_declarations_iff.mp hd
    exact ⟨above, last, parent, node, s, home, d.kind, hd.place_eq, hd.get_parent, hd.get_node,
      hd.binds, patternBinds_iff.mpr ⟨hd.path, hd.get_name⟩, hd.own,
      (home.reaches_iff hd.get_node).mpr ⟨d.scope, hd.scope_eq, rfl⟩⟩
  · rintro ⟨above, last, parent, node, s, home, kind, rfl, hparent, hnode, hb, hx, hown, hreach⟩
    obtain ⟨scope, hpick, rfl⟩ := (home.reaches_iff hnode).mp hreach
    obtain ⟨hpath, hid⟩ := patternBinds_iff.mp hx
    exact ⟨⟨scope, x, kind, above ++ [last]⟩, mem_declarations_iff.mpr ⟨above, last, parent, node, s,
      home, rfl, hparent, hnode, hb, hpath, hid, hown, hpick⟩, rfl, rfl, rfl⟩

/-- In a tree that keeps to the layout, the kind of a node tells which of its slots hold lists. -/
theorem skeleton_eq (hc : t.conforms = true) (hn : t.get? p = some n) :
    n.skeleton = n.kind.slotNames.map Kind.SlotName.isList :=
  Node.skeleton_of_fits (Node.conforms_iff.mp hc p n hn)

/-- Where a function holds its parameters. -/
theorem params_slot {s : Step} (hfun : n.kind.isFunction = true)
    (hslot : n.slotName? s = some "params") :
    (s.slot = 1 ∧ ((∃ flags, n.kind = .functionDeclaration flags) ∨
      ∃ flags, n.kind = .functionExpression flags)) ∨
      (s.slot = 0 ∧ ∃ flags, n.kind = .arrowFunction flags) := by
  obtain ⟨k, slots⟩ := n
  obtain ⟨slot, index⟩ := s
  cases k <;> try cases hfun
  case functionDeclaration =>
    match slot with
    | 0 => exact absurd (show some "id" = some "params" from hslot) (by decide)
    | 1 => exact Or.inl ⟨rfl, Or.inl ⟨_, rfl⟩⟩
    | 2 => exact absurd (show some "body" = some "params" from hslot) (by decide)
    | _ + 3 => exact absurd (show none = some "params" from hslot) (by decide)
  case functionExpression =>
    match slot with
    | 0 => exact absurd (show some "id" = some "params" from hslot) (by decide)
    | 1 => exact Or.inl ⟨rfl, Or.inr ⟨_, rfl⟩⟩
    | 2 => exact absurd (show some "body" = some "params" from hslot) (by decide)
    | _ + 3 => exact absurd (show none = some "params" from hslot) (by decide)
  case arrowFunction =>
    match slot with
    | 0 => exact Or.inr ⟨rfl, _, rfl⟩
    | 1 => exact absurd (show some "body" = some "params" from hslot) (by decide)
    | _ + 2 => exact absurd (show none = some "params" from hslot) (by decide)

/-- The parameters of a function are bound in the scope of the function. -/
theorem bindsBy_params {c : Node} {s : Step} (hc : t.conforms = true) (hn : t.get? p = some n)
    (hfun : n.kind.isFunction = true) (hslot : n.slotName? s = some "params")
    (hchild : n.child? s = some c) (parent : Kind) :
    bindsBy parent n.kind n.skeleton s = some (.inner, .param) ∧ namesItself n.kind s = false := by
  have hindex := Node.skeleton_of_child? hchild
  rw [skeleton_eq hc hn] at hindex ⊢
  obtain ⟨slot, index⟩ := s
  rcases params_slot hfun hslot with ⟨rfl, ⟨flags, hk⟩ | ⟨flags, hk⟩⟩ | ⟨rfl, flags, hk⟩ <;>
    rw [hk] at hindex ⊢ <;> cases index with
  | none => cases hindex
  | some i => exact ⟨rfl, rfl⟩

/-- What is not a program has a parent. -/
theorem exists_parent_of_not_program (hroot : t.kind = .program source) (hn : t.get? p = some n)
    (hk : ∀ source, n.kind ≠ .program source) :
    ∃ above last parent, p = above ++ [last] ∧ t.get? above = some parent := by
  rcases List.eq_nil_or_concat p with rfl | ⟨above, last, rfl⟩
  · cases hn
    exact absurd hroot (hk source)
  · rw [List.concat_eq_append] at hn ⊢
    obtain ⟨parent, hparent⟩ := Node.exists_get?_of_prefix hn (List.prefix_append above [last])
    exact ⟨above, last, parent, rfl, hparent⟩

/-- What a node declares, a binding step of it binds. -/
theorem Introduces.bindsName (hroot : t.kind = .program source) (hc : t.conforms = true) {x : Name}
    (h : Introduces t p q x) : BindsName t p q x := by
  cases h with
  | @var r q s m n x hm hmk hn hnk hx hq =>
      refine ⟨r, s, m, n, first, .function, .var, rfl, hm, hn, ?_, hx, ?_, hq⟩
      · rw [skeleton_eq hc hn, hnk, hmk]
        rfl
      · rw [hnk]
        nofun
  | @lexical r q s m n kind x hm hmk hkind hn hnk hx hq =>
      refine ⟨r, s, m, n, first, .outer, .ofVariable kind, rfl, hm, hn, ?_, hx, ?_, hq⟩
      · rw [skeleton_eq hc hn, hnk, hmk]
        cases kind with
        | var => exact absurd rfl hkind
        | «let» => rfl
        | const => rfl
      · rw [hnk]
        nofun
  | @functionStatement r q s n flags x hn hnk hx hq =>
      obtain ⟨m, hm⟩ := Node.exists_get?_of_prefix hn (List.prefix_append r [s])
      refine ⟨r, s, m, n, first, .outer, .hoisted, rfl, hm, hn, ?_, hx.patternBinds, fun _ => hx.1,
        hq⟩
      rw [skeleton_eq hc hn, hnk]
      rfl
  | @classStatement r q s n x hn hnk hx hq =>
      obtain ⟨m, hm⟩ := Node.exists_get?_of_prefix hn (List.prefix_append r [s])
      refine ⟨r, s, m, n, first, .outer, .let, rfl, hm, hn, ?_, hx.patternBinds, fun _ => hx.1, hq⟩
      rw [skeleton_eq hc hn, hnk]
      rfl
  | @ownName p n flags x hn hnk hx =>
      obtain ⟨above, last, m, rfl, hm⟩ := exists_parent_of_not_program hroot hn (by simp [hnk])
      refine ⟨above, last, m, n, first, .inner, .local, rfl, hm, hn, ?_, hx.patternBinds,
        fun _ => hx.1, .self (.function hn (by rw [hnk]; rfl))⟩
      rw [skeleton_eq hc hn, hnk]
      rfl
  | @param p s n x hn hfun hslot hx =>
      have hk : ∀ source, n.kind ≠ .program source := by
        intro source hk
        rw [hk] at hfun
        cases hfun
      obtain ⟨above, last, m, rfl, hm⟩ := exists_parent_of_not_program hroot hn hk
      obtain ⟨c, hget, -⟩ := id hx
      rw [Node.get?_concat, hn, Option.bind_some] at hget
      refine ⟨above, last, m, n, s, .inner, .param, rfl, hm, hn,
        (bindsBy_params hc hn hfun hslot hget _).1, hx, fun hown => ?_, .self (.function hn hfun)⟩
      rw [(bindsBy_params hc hn hfun hslot hget m.kind).2] at hown
      cases hown
  | @caught p n x hn hnk hx =>
      obtain ⟨above, last, m, rfl, hm⟩ := exists_parent_of_not_program hroot hn (by simp [hnk])
      refine ⟨above, last, m, n, first, .inner, .let, rfl, hm, hn, ?_, hx, ?_,
        .self (.statement hn (by rw [hnk]; rfl))⟩
      · rw [skeleton_eq hc hn, hnk]
        rfl
      · rw [hnk]
        nofun

/-- What a binding step binds, its node declares. -/
theorem BindsName.introduces {x : Name} (h : BindsName t p q x) : Introduces t p q x := by
  obtain ⟨above, last, parent, node, s, home, kind, rfl, hparent, hnode, hb, hx, hown, hreach⟩ := h
  have hname : s = first → namesItself node.kind s = true → IsName t (above ++ [last] ++ [first]) x :=
    fun hs hself => by
      have hplace : x.place = above ++ [last] ++ [first] := hs ▸ hown hself
      exact ⟨hplace, hplace ▸ (patternBinds_iff.mp hx).2⟩
  -- a name in the scope that the node opens
  have hinner : home = .inner → OpensScope t (above ++ [last]) → q = above ++ [last] := by
    rintro rfl hopen
    exact hreach.unique (.self hopen)
  have hparam : home = .inner → node.kind.isFunction = true →
      node.slotName? s = some "params" → Introduces t (above ++ [last]) q x := by
    intro hhome hfun hslot
    rw [hinner hhome (.function hnode hfun)]
    exact .param hnode hfun hslot hx
  unfold bindsBy at hb
  split at hb
  · rename_i hk hshape hslot hindex
    obtain rfl := Step.eq_one hslot hindex
    cases hb
    exact .functionStatement hnode hk (hname rfl (by rw [hk]; rfl)) hreach
  · rename_i hk hshape hslot hindex
    obtain ⟨i, rfl⟩ := Step.eq_many hslot hindex
    cases hb
    exact hparam rfl (by rw [hk]; rfl) (by rw [Node.slotName?, hk]; rfl)
  · rename_i hk hshape hslot hindex
    obtain rfl := Step.eq_one hslot hindex
    cases hb
    rw [hinner rfl (.function hnode (by rw [hk]; rfl))]
    exact .ownName hnode hk (hname rfl (by rw [hk]; rfl))
  · rename_i hk hshape hslot hindex
    obtain ⟨i, rfl⟩ := Step.eq_many hslot hindex
    cases hb
    exact hparam rfl (by rw [hk]; rfl) (by rw [Node.slotName?, hk]; rfl)
  · rename_i hk hshape hslot hindex
    obtain ⟨i, rfl⟩ := Step.eq_many hslot hindex
    cases hb
    exact hparam rfl (by rw [hk]; rfl) (by rw [Node.slotName?, hk]; rfl)
  · rename_i hk hshape hslot hindex
    obtain rfl := Step.eq_one hslot hindex
    cases hb
    rw [hinner rfl (.statement hnode (by rw [hk]; rfl))]
    exact .caught hnode hk hx
  · rename_i hk hshape hslot hindex
    obtain rfl := Step.eq_one hslot hindex
    cases hb
    exact .classStatement hnode hk (hname rfl (by rw [hk]; rfl)) hreach
  · rename_i hk hshape hslot hindex
    obtain rfl := Step.eq_one hslot hindex
    unfold variableHome at hb
    split at hb
    · rename_i hpk
      cases hb
      exact .var hparent hpk hnode hk hx hreach
    · rename_i hpk
      cases hb
      exact .lexical hparent hpk (by simp) hnode hk hx hreach
    · rename_i hpk
      cases hb
      exact .lexical hparent hpk (by simp) hnode hk hx hreach
    · cases hb
  · cases hb

/-- **What a tree declares** is what the analysis finds declared. -/
theorem introduces_iff (hroot : t.kind = .program source)
    (hc : t.conforms = true) {x : Name} :
    Introduces t p q x ↔ ∃ d ∈ declarations t, d.place = p ∧ d.scope.place = q ∧ d.name = x := by
  rw [exists_declaration_iff]
  exact ⟨fun h => h.bindsName hroot hc, BindsName.introduces⟩

/-- What the analysis finds declared in a scope. -/
theorem declaresIn_iff (hroot : t.kind = .program source)
    (hc : t.conforms = true) {scope : Scope} {name : String} :
    declaresIn (declarations t) scope name ↔ HoldsName t scope.place name := by
  unfold declaresIn HoldsName
  simp only [introduces_iff hroot hc, Declaration.key, Prod.mk.injEq]
  constructor
  · rintro ⟨d, hd, hscope, hname⟩
    exact ⟨d.place, d.name, ⟨d, hd, rfl, hscope, rfl⟩, hname⟩
  · rintro ⟨p, x, ⟨d, hd, -, hscope, rfl⟩, hname⟩
    exact ⟨d, hd, hscope, hname⟩

/-! ## The identifiers that are looked up -/

/-- The identifiers that declare: those that some node introduces, and the own names of class
expressions, which no scope holds. -/
def DeclaringName (t : Node) (p : Position) : Prop :=
  (∃ r q name, Introduces t r q ⟨p, name⟩) ∨
    ∃ r n, t.get? r = some n ∧ n.kind = .classExpression ∧ p = r ++ [first]

/-- The slot in which an identifier is the name of a property, a key or a label. -/
def Kind.nameSlot? : Kind → Option String
  | .member false => some "property"
  | .property false _ _ _ => some "key"
  | .methodDefinition false _ _ => some "key"
  | .labeled => some "label"
  | .breakStatement => some "label"
  | .continueStatement => some "label"
  | _ => none

/-- Does an identifier behind a step only name?  Both parts of a meta property do. -/
def Node.onlyNames (n : Node) (s : Step) : Bool :=
  match n.kind.nameSlot? with
  | some slot => n.slotName? s == some slot
  | none => n.kind == .metaProperty

/-- The identifiers that only name a property, a key, a label or a part of a meta property. -/
def NameOnly (t : Node) (p : Position) : Prop :=
  ∃ r s n, p = r ++ [s] ∧ t.get? r = some n ∧ n.onlyNames s = true

theorem standsForValue_eq_not_onlyNames (n : Node) (s : Step) :
    standsForValue (some n) (some s) = !n.onlyNames s := by
  obtain ⟨k, slots⟩ := n
  obtain ⟨slot, index⟩ := s
  cases k <;> try rfl
  case member computed =>
    cases computed <;> match slot with
    | 0 => rfl
    | 1 => rfl
    | _ + 2 => rfl
  case property computed _ _ _ =>
    cases computed <;> match slot with
    | 0 => rfl
    | 1 => rfl
    | _ + 2 => rfl
  case methodDefinition computed _ _ =>
    cases computed <;> match slot with
    | 0 => rfl
    | 1 => rfl
    | _ + 2 => rfl
  case labeled =>
    match slot with
    | 0 => rfl
    | 1 => rfl
    | _ + 2 => rfl
  case breakStatement =>
    match slot with
    | 0 => rfl
    | _ + 1 => rfl
  case continueStatement =>
    match slot with
    | 0 => rfl
    | _ + 1 => rfl

/-- An identifier stands for a value unless it only names. -/
theorem standsForValue_eq_false_iff (hget : t.get? p = some n) :
    standsForValue (p.parent?.bind t.get?) p.getLast? = false ↔ NameOnly t p := by
  rcases List.eq_nil_or_concat p with rfl | ⟨r, s, rfl⟩
  · simp [NameOnly, standsForValue, Position.parent?]
  · rw [List.concat_eq_append] at hget ⊢
    obtain ⟨m, hm⟩ := Node.exists_get?_of_prefix hget (List.prefix_append r [s])
    rw [Position.parent?_concat, Option.bind_some, hm, List.getLast?_concat,
      standsForValue_eq_not_onlyNames, Bool.not_eq_false']
    constructor
    · exact fun h => ⟨r, s, m, rfl, hm, h⟩
    · rintro ⟨r', s', m', he, hm', h⟩
      obtain ⟨rfl, hs⟩ := List.append_inj' he rfl
      cases hs
      cases hm.symm.trans hm'
      exact h

/-- **An identifier is looked up** unless it declares or only names. -/
theorem occurs_iff_not_declaring (hroot : t.kind = .program source)
    (hc : t.conforms = true) {name : String} :
    Occurs t p name ↔ (∃ slots, t.get? p = some (.mk (.identifier name) slots)) ∧
      ¬ DeclaringName t p ∧ ¬ NameOnly t p := by
  have hself : ∀ {slots : List Slot}, t.get? p = some (.mk (.identifier name) slots) →
      (p ∈ selfNamePlaces t ↔ ∃ r n, t.get? r = some n ∧ n.kind = .classExpression ∧
        p = r ++ [first]) := by
    intro slots hget
    rw [mem_selfNamePlaces]
    constructor
    · rintro ⟨r, n, c, he, -, hn, hk, -⟩
      exact ⟨r, n, hn, hk, he⟩
    · rintro ⟨r, n, hn, hk, rfl⟩
      have hne : r ≠ [] := by
        rintro rfl
        cases hn
        rw [hroot] at hk
        cases hk
      rw [Node.get?_concat, hn] at hget
      exact ⟨r, n, _, rfl, hne, hn, hk, hget⟩
  have hdeclares : (∃ r q name, Introduces t r q ⟨p, name⟩) ↔ ∃ d ∈ declarations t, d.name.place = p := by
    simp only [introduces_iff hroot hc]
    constructor
    · rintro ⟨r, q, name, d, hd, -, -, hname⟩
      exact ⟨d, hd, by rw [hname]⟩
    · rintro ⟨d, hd, rfl⟩
      exact ⟨d.place, d.scope.place, d.name.name, d, hd, rfl, rfl, rfl⟩
  constructor
  · intro h
    obtain ⟨slots, hget⟩ := h.get
    refine ⟨h.get, ?_, ?_⟩
    · rintro (hdec | hexpr)
      · obtain ⟨d, hd, hplace⟩ := hdeclares.mp hdec
        exact h.not_declaring d hd hplace
      · exact h.not_self ((hself hget).mpr hexpr)
    · intro hname
      have := h.value
      rw [(standsForValue_eq_false_iff hget).mpr hname] at this
      cases this
  · rintro ⟨⟨slots, hget⟩, hdec, hname⟩
    refine ⟨⟨slots, hget⟩, ?_, ?_, ?_⟩
    · rw [← Bool.not_eq_false]
      exact fun h => hname ((standsForValue_eq_false_iff hget).mp h)
    · exact fun d hd hplace => hdec (Or.inl (hdeclares.mpr ⟨d, hd, hplace⟩))
    · exact fun h => hdec (Or.inr ((hself hget).mp h))

/-! ## Resolution -/

/-- The scope at `q` opens there and declares a name. -/
def DeclaringScope (t : Node) (name : String) (q : Position) : Prop :=
  OpensScope t q ∧ HoldsName t q name

/-- The binding with a number is that of a name in the scope at `q`. -/
def BoundAt (t : Node) (i : Nat) (q : Position) (name : String) : Prop :=
  ∃ b, (analyze t).bindings[i]? = some b ∧ b.scope.place = q ∧ b.name = name

section

variable {source name : String} {i j : Nat}

theorem boundAt_iff : BoundAt t i q name ↔
    ∃ d, (firstDeclarations [] (declarations t))[i]? = some d ∧ d.key = (q, name) := by
  simp only [BoundAt, getElem?_bindings, Option.map_eq_some_iff, Declaration.key, Prod.mk.injEq]
  constructor
  · rintro ⟨b, ⟨d, hd, rfl⟩, hscope, hname⟩
    exact ⟨d, hd, hscope, hname⟩
  · rintro ⟨d, hd, hscope, hname⟩
    exact ⟨_, ⟨d, hd, rfl⟩, hscope, hname⟩

/-- No name has two bindings in one scope. -/
theorem BoundAt.unique (hi : BoundAt t i q name) (hj : BoundAt t j q name) : i = j := by
  obtain ⟨d, hd, hdkey⟩ := boundAt_iff.mp hi
  obtain ⟨e, he, hekey⟩ := boundAt_iff.mp hj
  exact first_eq_of_key_eq hd he (hdkey.trans hekey.symm)

/-- The names that have a binding in a scope are those that the scope holds. -/
theorem exists_boundAt_iff (hroot : t.kind = .program source) (hc : t.conforms = true) :
    (∃ i, BoundAt t i q name) ↔ HoldsName t q name := by
  have hholds : declaresIn (declarations t) ⟨q, false⟩ name ↔ HoldsName t q name :=
    declaresIn_iff hroot hc
  rw [← hholds]
  simp only [boundAt_iff]
  constructor
  · rintro ⟨i, d, hd, hkey⟩
    exact ⟨d, (mem_of_mem_firstDeclarations (List.mem_of_getElem? hd)).1, hkey⟩
  · rintro ⟨d, hd, hkey⟩
    obtain ⟨e, he, hekey⟩ := exists_first_of_mem hd
    obtain ⟨i, hi⟩ := List.mem_iff_getElem?.mp he
    exact ⟨i, e, hi, hekey.trans hkey⟩

/-- Of the scopes around a place, those that the analysis finds declaring are those that declare. -/
theorem innermost_declaresIn_iff (hroot : t.kind = .program source) (hc : t.conforms = true)
    (hget : t.get? p = some n) :
    Innermost (fun r => ∃ s ∈ scopesAround t p, s.place = r ∧ declaresIn (declarations t) s name) p q ↔
      Innermost (DeclaringScope t name) p q := by
  refine Innermost.congr fun r hr => ?_
  simp only [declaresIn_iff hroot hc, DeclaringScope]
  constructor
  · rintro ⟨s, hs, rfl, hname⟩
    exact ⟨((exists_mem_scopesAround_iff hget).1.mp ⟨s, hs, rfl⟩).2, hname⟩
  · rintro ⟨hopen, hname⟩
    obtain ⟨s, hs, rfl⟩ := (exists_mem_scopesAround_iff hget).1.mpr ⟨hr, hopen⟩
    exact ⟨s, hs, rfl, hname⟩

/-- A name is looked up in the nearest scope that declares it. -/
theorem resolve?_eq_some_iff (hroot : t.kind = .program source) (hc : t.conforms = true)
    (hget : t.get? p = some n) :
    resolve? (firstDeclarations [] (declarations t)) (scopesAround t p) name = some i ↔
      ∃ q, Innermost (DeclaringScope t name) p q ∧ BoundAt t i q name := by
  have hfound : ∀ {j : Nat}, resolve? (firstDeclarations [] (declarations t)) (scopesAround t p) name =
      some j → ∃ q, Innermost (DeclaringScope t name) p q ∧ BoundAt t j q name := by
    intro j h
    obtain ⟨inner, scope, outer, d, hsplit, hd, hkey, hinner⟩ := resolve?_eq_some h
    have hdeclares : declaresIn (declarations t) scope name :=
      ⟨d, (mem_of_mem_firstDeclarations (List.mem_of_getElem? hd)).1, hkey⟩
    exact ⟨scope.place, (innermost_declaresIn_iff hroot hc hget).mp
      (innermost_of_split hget hsplit hdeclares hinner), boundAt_iff.mpr ⟨d, hd, hkey⟩⟩
  refine ⟨hfound, ?_⟩
  rintro ⟨q, hq, hi⟩
  obtain ⟨-, ⟨s, hs, rfl, hdeclares⟩, -⟩ := (innermost_declaresIn_iff hroot hc hget).mpr hq
  cases hr : resolve? (firstDeclarations [] (declarations t)) (scopesAround t p) name with
  | none => exact absurd hdeclares (resolve?_eq_none_iff.mp hr s hs)
  | some j =>
      obtain ⟨q', hq', hj⟩ := hfound hr
      rw [hq'.unique hq] at hj
      rw [hj.unique hi]

/-- Every number that the analysis gives to an identifier is that of a binding. -/
theorem bindingFor?_eq_none_iff :
    (analyze t).bindingFor? p = none ↔ (analyze t).bindingNumber? p = none := by
  constructor
  · intro h
    refine Option.eq_none_iff_forall_ne_some.mpr fun i hi => ?_
    obtain ⟨name, hocc, hbinding⟩ := bindingNumber?_eq_some.mp hi
    obtain ⟨_, _, _, d, -, hd, -, -⟩ := resolve?_eq_some hbinding
    rw [bindingFor?_eq_some.mpr ⟨hi, (getElem?_bindings t i).trans (by rw [hd]; rfl)⟩] at h
    cases h
  · intro h
    refine Option.eq_none_iff_forall_ne_some.mpr fun ib hib => ?_
    rw [(bindingFor?_eq_some.mp hib).1] at h
    cases h

/-- A name is global where no scope around it declares it. -/
theorem resolve?_eq_none_iff_scopes (hroot : t.kind = .program source) (hc : t.conforms = true)
    (hget : t.get? p = some n) :
    resolve? (firstDeclarations [] (declarations t)) (scopesAround t p) name = none ↔
      ∀ q, q <+: p → ¬ DeclaringScope t name q := by
  rw [resolve?_eq_none_iff]
  constructor
  · rintro h q hq ⟨hopen, hname⟩
    obtain ⟨s, hs, rfl⟩ := (exists_mem_scopesAround_iff hget).1.mpr ⟨hq, hopen⟩
    exact h s hs ((declaresIn_iff hroot hc).mpr hname)
  · intro h s hs hdeclares
    obtain ⟨hq, hopen⟩ := (exists_mem_scopesAround_iff hget).1.mp ⟨s, hs, rfl⟩
    exact h s.place hq ⟨hopen, (declaresIn_iff hroot hc).mp hdeclares⟩

end

/-- **Names refer to the nearest enclosing declaration**, wherever in its scope that stands.  An
identifier that is looked up gets the binding of its name in the innermost scope around it that
declares the name, and none if no scope around it does; every declared name of a scope has one
binding, however often it is declared. -/
theorem bindingFor?_eq_some_iff_innermost {t : Node} {source : String}
    (hroot : t.kind = .program source) (hc : t.conforms = true) :
    (∀ p name slots, t.get? p = some (.mk (.identifier name) slots) → ¬ DeclaringName t p →
      ¬ NameOnly t p →
      (∀ i b, (analyze t).bindingFor? p = some (i, b) ↔ (analyze t).bindings[i]? = some b ∧
        b.name = name ∧ Innermost (DeclaringScope t name) p b.scope.place) ∧
      ((analyze t).bindingFor? p = none ↔ ∀ q, q <+: p → ¬ DeclaringScope t name q)) ∧
    ∀ q name, (HoldsName t q name ↔ ∃ i, BoundAt t i q name) ∧
      ∀ i j, BoundAt t i q name → BoundAt t j q name → i = j := by
  refine ⟨fun p name slots hget hdeclaring honly => ?_, fun q name =>
    ⟨(exists_boundAt_iff hroot hc).symm, fun i j => BoundAt.unique⟩⟩
  have hocc : Occurs t p name :=
    (occurs_iff_not_declaring hroot hc).mpr ⟨⟨slots, hget⟩, hdeclaring, honly⟩
  have hnumber : (analyze t).bindingNumber? p =
      resolve? (firstDeclarations [] (declarations t)) (scopesAround t p) name :=
    bindingNumber?_of_occurs hocc
  constructor
  · intro i b
    rw [bindingFor?_eq_some, hnumber, resolve?_eq_some_iff hroot hc hget]
    constructor
    · rintro ⟨⟨q, hq, b', hb', rfl, hname⟩, hb⟩
      cases hb.symm.trans hb'
      exact ⟨hb, hname, hq⟩
    · rintro ⟨hb, hname, hq⟩
      exact ⟨⟨_, hq, b, hb, rfl, hname⟩, hb⟩
  · rw [bindingFor?_eq_none_iff, hnumber, resolve?_eq_none_iff_scopes hroot hc hget]

/-- `function f(x) { { use(x); let x; var y; } y = x; } use(y);` -/
def lateDeclarations : Node :=
  .mk (.program "script") [.many [
    some (.mk (.functionDeclaration ⟨false, false, false⟩) [
      .one (some (.ident "f")),
      .many [some (.ident "x")],
      .one (some (.mk .block [.many [
        some (.mk .block [.many [
          some (.mk (.expressionStatement none) [
            .one (some (.callOf (.ident "use") [some (.ident "x")]))]),
          some (.mk (.variableDeclaration .let) [.many [some (.declarator (.ident "x") none)]]),
          some (.mk (.variableDeclaration .var) [.many [some (.declarator (.ident "y") none)]])]]),
        some (.mk (.expressionStatement none) [
          .one (some (.binary2 (.assignment "=") (.ident "y") (.ident "x")))])]]))]),
    some (.mk (.expressionStatement none) [
      .one (some (.callOf (.ident "use") [some (.ident "y")]))])]]

/-- The call in the block means the `x` declared behind it and not the parameter, the assignment the
`y` of the function declared further in, and the last call no declared name. -/
theorem bindingFor?_eq_some_iff_innermost_lateDeclarations :
    ∃ px py pz : Position, lateDeclarations.conforms = true ∧
      (∀ p ∈ [px, py, pz], ¬ DeclaringName lateDeclarations p ∧ ¬ NameOnly lateDeclarations p) ∧
      (∃ b, (analyze lateDeclarations).bindingFor? px = some (2, b) ∧ b.kind = .let ∧
        Innermost (DeclaringScope lateDeclarations "x") px b.scope.place) ∧
      (∃ b, (analyze lateDeclarations).bindingFor? py = some (3, b) ∧ b.kind = .var ∧
        Innermost (DeclaringScope lateDeclarations "y") py b.scope.place) ∧
      (∀ q, q <+: pz → ¬ DeclaringScope lateDeclarations "y" q) := by
  have hc : lateDeclarations.conforms = true := by decide
  have hocc : ∀ {p o}, (analyze lateDeclarations).occurrence? p = some o →
      ¬ DeclaringName lateDeclarations p ∧ ¬ NameOnly lateDeclarations p := by
    intro p o ho
    obtain ⟨name, hocc, -⟩ := occurrence?_eq_some_iff.mp ho
    exact ((occurs_iff_not_declaring rfl hc).mp hocc).2
  have hx := hocc (p := [⟨0, some 0⟩, ⟨2, none⟩, ⟨0, some 0⟩, ⟨0, some 0⟩, first, ⟨1, some 0⟩]) rfl
  have hy := hocc (p := [⟨0, some 0⟩, ⟨2, none⟩, ⟨0, some 1⟩, first, first]) rfl
  have hz := hocc (p := [⟨0, some 1⟩, first, ⟨1, some 0⟩]) rfl
  have h := (bindingFor?_eq_some_iff_innermost (t := lateDeclarations) rfl hc).1
  refine ⟨_, _, _, hc, by simp only [List.forall_mem_cons]; exact ⟨hx, hy, hz, by simp⟩, ⟨_, rfl, rfl,
    ((((h _ "x" _ rfl hx.1 hx.2).1 _ _).mp rfl).2).2⟩, ⟨_, rfl, rfl,
    ((((h _ "y" _ rfl hy.1 hy.2).1 _ _).mp rfl).2).2⟩, (h _ "y" _ rfl hz.1 hz.2).2.mp rfl⟩

end Descramble

import Descramble.Proofs.Scope.Pattern

/-!
# Enclosing scopes and declarations by place

* `scopesAround_concat` — the scopes around a child: those around its parent and perhaps its own.
* `prefix_of_mem_scopesAround`, `scopesAround_of_prefix` — the scopes around a place lie above it,
  and the scopes around a place above are the last of them.
* `mem_declarations_iff` — what declares a name: a node with a binding step, and a path through the
  pattern behind that step.
* `nodup_declarations` — no declaration is listed twice.
-/

set_option autoImplicit false

namespace Descramble

/-! ## Scopes -/

/-- The scopes around the inside of a node, given those around the inside of its parent. -/
def enterScope (parent : Option Node) (place : Position) (node : Node) (outer : List Scope) :
    List Scope :=
  match opensScope? parent node with
  | some isFunction => ⟨place, isFunction⟩ :: outer
  | none => outer

theorem scopesAlong_nil (parent : Option Node) (place : Position) (outer : List Scope) (n : Node) :
    scopesAlong parent place outer n [] = enterScope parent place n outer := rfl

theorem scopesAlong_cons {parent : Option Node} {place : Position} {outer : List Scope} {n c : Node}
    {s : Step} {path : Position} (h : n.child? s = some c) :
    scopesAlong parent place outer n (s :: path) =
      scopesAlong (some n) (place ++ [s]) (enterScope parent place n outer) c path := by
  rw [scopesAlong, h]
  rfl

theorem scopesAlong_concat {s : Step} : ∀ {path : Position} {parent : Option Node}
    {place : Position} {outer : List Scope} {n m c : Node}, n.get? path = some m →
      m.child? s = some c →
      scopesAlong parent place outer n (path ++ [s]) =
        enterScope (some m) (place ++ path ++ [s]) c (scopesAlong parent place outer n path)
  | [], parent, place, outer, n, m, c, hm, hc => by
      cases hm
      rw [List.nil_append, scopesAlong_cons hc, scopesAlong_nil, scopesAlong_nil]
      simp
  | s' :: path, parent, place, outer, n, m, c, hm, hc => by
      rw [Node.get?_cons] at hm
      obtain ⟨d, hd, hm⟩ := Option.bind_eq_some_iff.mp hm
      rw [List.cons_append, scopesAlong_cons hd, scopesAlong_cons hd, scopesAlong_concat hm hc]
      simp

@[simp] theorem scopesAround_nil (t : Node) : scopesAround t [] = [⟨[], true⟩] := rfl

theorem scopesAround_concat {t n c : Node} {p : Position} {s : Step} (hn : t.get? p = some n)
    (hc : n.child? s = some c) :
    scopesAround t (p ++ [s]) = enterScope (some n) (p ++ [s]) c (scopesAround t p) := by
  unfold scopesAround
  rw [scopesAlong_concat hn hc]
  rfl

theorem mem_enterScope {parent : Option Node} {place : Position} {n : Node} {outer : List Scope}
    {s : Scope} :
    s ∈ enterScope parent place n outer ↔
      (s.place = place ∧ opensScope? parent n = some s.isFunction) ∨ s ∈ outer := by
  unfold enterScope
  cases hopen : opensScope? parent n with
  | none => simp
  | some isFunction =>
      obtain ⟨q, f⟩ := s
      simp [eq_comm]

/-- The scopes around a place lie at or above it. -/
theorem prefix_of_mem_scopesAround {t n : Node} {p : Position} (h : t.get? p = some n) :
    ∀ s ∈ scopesAround t p, s.place <+: p := by
  refine Node.placeInduction ?_ ?_ p n h
  · intro s hs
    simp only [scopesAround_nil, List.mem_singleton] at hs
    subst hs
    exact List.prefix_refl _
  · intro p step n c hn hc ih s hs
    rw [scopesAround_concat hn hc, mem_enterScope] at hs
    rcases hs with ⟨he, -⟩ | hs
    · exact Position.prefix_of_eq he
    · exact (ih s hs).trans (List.prefix_append ..)

/-- Going down adds scopes in front, and these lie further down. -/
theorem scopesAround_of_prefix {t n : Node} {p q : Position} (h : t.get? p = some n)
    (hq : q <+: p) : ∃ extra, scopesAround t p = extra ++ scopesAround t q ∧
      ∀ s ∈ extra, q <+: s.place ∧ s.place ≠ q := by
  revert hq
  refine Node.placeInduction ?_ ?_ p n h
  · intro hq
    have : q = [] := List.prefix_nil.mp hq
    subst this
    exact ⟨[], rfl, by simp⟩
  · intro p step n c hn hc ih hq
    by_cases he : q = p ++ [step]
    · subst he
      exact ⟨[], rfl, by simp⟩
    · have hqp := Position.prefix_of_prefix_append hq he
      obtain ⟨extra, hextra, hin⟩ := ih hqp
      rw [scopesAround_concat hn hc, hextra]
      unfold enterScope
      split
      · rename_i isFunction _
        refine ⟨⟨p ++ [step], isFunction⟩ :: extra, rfl, ?_⟩
        intro s hs
        rcases List.mem_cons.mp hs with rfl | hs
        · exact ⟨hq, fun h => he h.symm⟩
        · exact hin s hs
      · exact ⟨extra, rfl, hin⟩

theorem root_mem_scopesAround {t n : Node} {p : Position} (h : t.get? p = some n) :
    ⟨[], true⟩ ∈ scopesAround t p := by
  obtain ⟨extra, he, -⟩ := scopesAround_of_prefix h (List.nil_prefix)
  rw [he, scopesAround_nil]
  simp

/-- A scope is opened by the node at its place, and it is known from the scopes around the node. -/
theorem mem_scopesAround_self {t n : Node} {p : Position} (h : t.get? p = some n) :
    ∀ s ∈ scopesAround t p, s ∈ scopesAround t s.place := by
  refine Node.placeInduction ?_ ?_ p n h
  · intro s hs
    simp only [scopesAround_nil, List.mem_singleton] at hs
    subst hs
    simp
  · intro p step n c hn hc ih s hs
    have hs' := hs
    rw [scopesAround_concat hn hc, mem_enterScope] at hs'
    rcases hs' with ⟨he, -⟩ | hs'
    · rw [he]
      exact hs
    · exact ih s hs'

/-! ## Declarations -/

/-- Which of the scopes at hand holds a declared name. -/
inductive Home where
  /-- The scope that the declaring node opens. -/
  | inner
  /-- The nearest scope outside the declaring node. -/
  | outer
  /-- The nearest scope of a function outside the declaring node. -/
  | function
  deriving DecidableEq, Repr

def Home.pick (inner outer : List Scope) : Home → Option Scope
  | .inner => inner.head?
  | .outer => outer.head?
  | .function => functionScope? outer

/-- Where the declarators of a variable declaration put their names. -/
def variableHome : Kind → Option (Home × BindingKind)
  | .variableDeclaration .var => some (.function, .var)
  | .variableDeclaration .let => some (.outer, .let)
  | .variableDeclaration .const => some (.outer, .const)
  | _ => none

/-- The steps that lead from a node to the patterns whose names it declares, by the kind of the
node's parent, the node's own kind and its slots. -/
def bindsBy (parent kind : Kind) (shape : List Bool) (s : Step) : Option (Home × BindingKind) :=
  match kind, shape, s.slot, s.index.isSome with
  | .functionDeclaration _, [false, true, _], 0, false => some (.outer, .hoisted)
  | .functionDeclaration _, [false, true, _], 1, true => some (.inner, .param)
  | .functionExpression _, [false, true, _], 0, false => some (.inner, .local)
  | .functionExpression _, [false, true, _], 1, true => some (.inner, .param)
  | .arrowFunction _, [true, _], 0, true => some (.inner, .param)
  | .catchClause, [false, _], 0, false => some (.inner, .let)
  | .classDeclaration, false :: _, 0, false => some (.outer, .let)
  | .variableDeclarator, [false, _], 0, false => variableHome parent
  | _, _, _, _ => none

/-- Is a step the one to the own name of a function or a class? -/
def namesItself (kind : Kind) (s : Step) : Bool :=
  match kind, s.slot, s.index.isSome with
  | .functionDeclaration _, 0, false => true
  | .functionExpression _, 0, false => true
  | .classDeclaration, 0, false => true
  | _, _, _ => false

theorem eq_of_namesItself {kind : Kind} {s : Step} (h : namesItself kind s = true) :
    s = ⟨0, none⟩ := by
  unfold namesItself at h
  split at h
  · exact Step.eq_one ‹_› ‹_›
  · exact Step.eq_one ‹_› ‹_›
  · exact Step.eq_one ‹_› ‹_›
  · cases h

/-- A node declares the names that the patterns behind its binding steps bind.  An own name is an
identifier. -/
def DeclaresAt (inner outer : List Scope) (parent : Node) (site : Site) (d : Declaration) : Prop :=
  ∃ s c home, bindsBy parent.kind site.node.kind site.node.skeleton s = some (home, d.kind) ∧
    site.node.child? s = some c ∧ d.name ∈ patternNames (site.place ++ [s]) c ∧
    (namesItself site.node.kind s = true → d.name.place = site.place ++ [s]) ∧
    home.pick inner outer = some d.scope ∧ d.place = site.place

theorem mem_parameterNames {place : Position} {slot : Nat} {params : List (Option Node)}
    {name : Name} :
    name ∈ parameterNames place slot params ↔ ∃ (i : Nat) (c : Node),
      params[i]? = some (some c) ∧ name ∈ patternNames (place ++ [⟨slot, some i⟩]) c := by
  unfold parameterNames
  rw [List.mem_flatMap]
  constructor
  · rintro ⟨⟨param, i⟩, hmem, h⟩
    rw [List.mem_zipIdx_iff_getElem?] at hmem
    cases param with
    | none => cases h
    | some c => exact ⟨i, c, hmem, h⟩
  · rintro ⟨i, c, hc, h⟩
    exact ⟨(some c, i), List.mem_zipIdx_iff_getElem?.mpr hc, h⟩

theorem mem_declareIn {scope : Option Scope} {kind : BindingKind} {names : List Name}
    {place : Position} {d : Declaration} :
    d ∈ declareIn place scope kind names ↔
      scope = some d.scope ∧ d.kind = kind ∧ d.place = place ∧ d.name ∈ names := by
  unfold declareIn
  obtain ⟨dscope, dname, dkind, dplace⟩ := d
  cases scope with
  | none => simp
  | some scope =>
      simp only [List.mem_map, Declaration.mk.injEq, Option.some.injEq]
      constructor
      · rintro ⟨name, hname, rfl, rfl, rfl, rfl⟩
        exact ⟨rfl, rfl, rfl, hname⟩
      · rintro ⟨rfl, rfl, rfl, hname⟩
        exact ⟨dname, hname, rfl, rfl, rfl, rfl⟩

/-- An own name is bound by a pattern that is an identifier. -/
theorem mem_ownName {id : Option Node} {place : Position} {name : Name} :
    name ∈ ownName place id ↔
      ∃ c, id = some c ∧ name ∈ patternNames place c ∧ name.place = place := by
  constructor
  · intro h
    unfold ownName at h
    split at h
    · simp only [List.mem_singleton] at h
      subst h
      exact ⟨_, rfl, by simp [patternNames], rfl⟩
    · cases h
  · rintro ⟨c, rfl, hname, hplace⟩
    obtain ⟨place', name'⟩ := name
    simp only at hplace
    subst hplace
    rcases mem_patternNames_cases hname with ⟨hk, -⟩ | ⟨s, c', -, -, h⟩ | ⟨s, m, s', c', -, -, -, -, h⟩
    · obtain ⟨k, slots⟩ := c
      simp only [Node.kind_mk] at hk
      subst hk
      simp [ownName]
    · exact absurd (prefix_of_mem_patternNames c' h) (Position.not_append_prefix (by simp))
    · exact absurd (prefix_of_mem_patternNames c' h) (Position.not_append_prefix (by simp))

theorem declaresAt_of_mem {inner outer : List Scope} {parent : Node} {site : Site} {d : Declaration}
    (h : d ∈ declarationsAt inner outer (some parent) site) :
    DeclaresAt inner outer parent site d := by
  obtain ⟨place, node⟩ := site
  unfold declarationsAt at h
  simp only at h
  split at h
  · cases h
  · rw [List.mem_append, mem_declareIn, mem_declareIn, mem_ownName] at h
    rcases h with ⟨hs, hk, hp, c, rfl, hname, hown⟩ | ⟨hs, hk, hp, hname⟩
    · exact ⟨⟨0, none⟩, c, .outer, by rw [hk]; rfl, rfl, hname, fun _ => hown, hs, hp⟩
    · obtain ⟨i, c, hc, hname⟩ := mem_parameterNames.mp hname
      refine ⟨⟨1, some i⟩, c, .inner, by rw [hk]; rfl, ?_, hname, nofun, hs, hp⟩
      simp [Node.child?_mk, hc]
  · rw [List.mem_append, mem_declareIn, mem_declareIn, mem_ownName] at h
    rcases h with ⟨hs, hk, hp, c, rfl, hname, hown⟩ | ⟨hs, hk, hp, hname⟩
    · exact ⟨⟨0, none⟩, c, .inner, by rw [hk]; rfl, rfl, hname, fun _ => hown, hs, hp⟩
    · obtain ⟨i, c, hc, hname⟩ := mem_parameterNames.mp hname
      refine ⟨⟨1, some i⟩, c, .inner, by rw [hk]; rfl, ?_, hname, nofun, hs, hp⟩
      simp [Node.child?_mk, hc]
  · obtain ⟨hs, hk, hp, hname⟩ := mem_declareIn.mp h
    obtain ⟨i, c, hc, hname⟩ := mem_parameterNames.mp hname
    refine ⟨⟨0, some i⟩, c, .inner, by rw [hk]; rfl, ?_, hname, nofun, hs, hp⟩
    simp [Node.child?_mk, hc]
  · obtain ⟨hs, hk, hp, hname⟩ := mem_declareIn.mp h
    exact ⟨⟨0, none⟩, _, .inner, by rw [hk]; rfl, rfl, hname, nofun, hs, hp⟩
  · obtain ⟨hs, hk, hp, hname⟩ := mem_declareIn.mp h
    obtain ⟨c, rfl, hname, hown⟩ := mem_ownName.mp hname
    exact ⟨⟨0, none⟩, c, .outer, by rw [hk]; rfl, rfl, hname, fun _ => hown, hs, hp⟩
  · rename_i kind _ _ _ heq
    cases heq
    obtain ⟨hs, hk, hp, hname⟩ := mem_declareIn.mp h
    cases kind with
    | var => exact ⟨⟨0, none⟩, _, .function, by rw [hk]; rfl, rfl, hname, nofun, hs, hp⟩
    | «let» => exact ⟨⟨0, none⟩, _, .outer, by rw [hk]; rfl, rfl, hname, nofun, hs, hp⟩
    | const => exact ⟨⟨0, none⟩, _, .outer, by rw [hk]; rfl, rfl, hname, nofun, hs, hp⟩
  · cases h

theorem mem_declarationsAt_iff {inner outer : List Scope} {parent : Node} {site : Site}
    {d : Declaration} :
    d ∈ declarationsAt inner outer (some parent) site ↔ DeclaresAt inner outer parent site d := by
  refine ⟨declaresAt_of_mem, ?_⟩
  obtain ⟨place, ⟨kind, slots⟩⟩ := site
  obtain ⟨pkind, pslots⟩ := parent
  obtain ⟨dscope, dname, dkind, dplace⟩ := d
  rintro ⟨s, c, home, hb, hc, hname, hown, hpick, hplace⟩
  rw [Node.child?_mk] at hc
  simp only [Node.kind_mk, Node.skeleton_mk] at hb
  unfold bindsBy at hb
  split at hb
  · rename_i hshape hslot hindex
    cases hb
    obtain rfl := Step.eq_one hslot hindex
    match slots, hshape, hc with
    | [.one id, .many _, _], _, hc =>
        simp only [declarationsAt, List.mem_append, mem_declareIn, mem_ownName]
        exact Or.inl ⟨hpick, trivial, hplace, c, hc, hname, hown rfl⟩
  · rename_i hshape hslot hindex
    cases hb
    obtain ⟨i, rfl⟩ := Step.eq_many hslot hindex
    match slots, hshape, hc with
    | [.one id, .many params, _], _, hc =>
        simp only [Node.childOfSlots_cons_succ, Node.childOfSlots_many, Node.join_eq_some] at hc
        simp only [declarationsAt, List.mem_append, mem_declareIn, mem_parameterNames]
        exact Or.inr ⟨hpick, trivial, hplace, i, c, hc, hname⟩
  · rename_i hshape hslot hindex
    cases hb
    obtain rfl := Step.eq_one hslot hindex
    match slots, hshape, hc with
    | [.one id, .many _, _], _, hc =>
        simp only [declarationsAt, List.mem_append, mem_declareIn, mem_ownName]
        exact Or.inl ⟨hpick, trivial, hplace, c, hc, hname, hown rfl⟩
  · rename_i hshape hslot hindex
    cases hb
    obtain ⟨i, rfl⟩ := Step.eq_many hslot hindex
    match slots, hshape, hc with
    | [.one id, .many params, _], _, hc =>
        simp only [Node.childOfSlots_cons_succ, Node.childOfSlots_many, Node.join_eq_some] at hc
        simp only [declarationsAt, List.mem_append, mem_declareIn, mem_parameterNames]
        exact Or.inr ⟨hpick, trivial, hplace, i, c, hc, hname⟩
  · rename_i hshape hslot hindex
    cases hb
    obtain ⟨i, rfl⟩ := Step.eq_many hslot hindex
    match slots, hshape, hc with
    | [.many params, _], _, hc =>
        simp only [Node.childOfSlots_many, Node.join_eq_some] at hc
        simp only [declarationsAt, mem_declareIn, mem_parameterNames]
        exact ⟨hpick, trivial, hplace, i, c, hc, hname⟩
  · rename_i hshape hslot hindex
    cases hb
    obtain rfl := Step.eq_one hslot hindex
    match slots, hshape, hc with
    | [.one (some _), _], _, hc =>
        cases hc
        simp only [declarationsAt, mem_declareIn]
        exact ⟨hpick, trivial, hplace, hname⟩
  · rename_i hshape hslot hindex
    cases hb
    obtain rfl := Step.eq_one hslot hindex
    match slots, hshape, hc with
    | .one id :: _, _, hc =>
        simp only [declarationsAt, mem_declareIn, mem_ownName]
        exact ⟨hpick, trivial, hplace, c, hc, hname, hown rfl⟩
  · rename_i hshape hslot hindex
    obtain rfl := Step.eq_one hslot hindex
    match slots, hshape, hc with
    | [.one (some _), _], _, hc =>
        cases hc
        unfold variableHome at hb
        split at hb <;> cases hb <;> simp only [declarationsAt, mem_declareIn] <;>
          exact ⟨hpick, rfl, hplace, hname⟩
  · cases hb

/-- **What declares a name**: a node below some parent, with a binding step to a pattern and a path
through that pattern to the identifier. -/
structure Declares (t : Node) (d : Declaration) (above : Position) (last : Step) (parent node : Node)
    (s : Step) (home : Home) : Prop where
  place_eq : d.place = above ++ [last]
  get_parent : t.get? above = some parent
  get_node : t.get? (above ++ [last]) = some node
  binds : bindsBy parent.kind node.kind node.skeleton s = some (home, d.kind)
  path : PatternPath t (above ++ [last] ++ [s]) d.name.place
  get_name : ∃ slots, t.get? d.name.place = some (.mk (.identifier d.name.name) slots)
  own : namesItself node.kind s = true → d.name.place = above ++ [last] ++ [s]
  scope_eq : home.pick (scopesAround t (above ++ [last])) (scopesAround t above) = some d.scope

theorem Declares.get_child {t : Node} {d : Declaration} {above : Position} {last s : Step}
    {parent node : Node} {home : Home} (hd : Declares t d above last parent node s home) :
    parent.child? last = some node := by
  have h := hd.get_node
  rwa [Node.get?_concat, hd.get_parent] at h

theorem mem_declarations_iff {t : Node} {d : Declaration} :
    d ∈ declarations t ↔
      ∃ above last parent node s home, Declares t d above last parent node s home := by
  unfold declarations
  rw [List.mem_flatMap]
  constructor
  · rintro ⟨⟨place, node⟩, hsite, hd⟩
    have hnode := Node.mem_sites_iff.mp hsite
    simp only at hnode hd
    split at hd
    · cases hd
    · rename_i above habove
      obtain ⟨last, rfl⟩ := Position.parent?_eq_some.mp habove
      have hnode' := hnode
      rw [Node.get?_concat] at hnode'
      obtain ⟨parent, hparent, hchild⟩ := Option.bind_eq_some_iff.mp hnode'
      rw [hparent] at hd
      obtain ⟨s, c, home, hb, hc, hname, hown, hpick, hplace⟩ := mem_declarationsAt_iff.mp hd
      have hget : t.get? (above ++ [last] ++ [s]) = some c := by
        rw [Node.get?_concat, hnode]
        exact hc
      obtain ⟨hpath, hid⟩ := (mem_patternNames_iff hget).mp hname
      exact ⟨above, last, parent, node, s, home, hplace, hparent, hnode, hb, hpath, hid, hown, hpick⟩
  · rintro ⟨above, last, parent, node, s, home, h⟩
    refine ⟨⟨above ++ [last], node⟩, Node.mem_sites_iff.mpr h.get_node, ?_⟩
    simp only [Position.parent?_concat, h.get_parent]
    rw [mem_declarationsAt_iff]
    obtain ⟨slots, hid⟩ := h.get_name
    obtain ⟨c, hc⟩ := Node.exists_get?_of_prefix hid h.path.isPrefix
    have hchild : node.child? s = some c := by
      rw [Node.get?_concat, h.get_node] at hc
      exact hc
    exact ⟨s, c, home, h.binds, hchild, (mem_patternNames_iff hc).mpr ⟨h.path, slots, hid⟩,
      h.own, h.scope_eq, h.place_eq⟩

/-! ## No declaration twice -/

theorem nodup_ownName (place : Position) (id : Option Node) :
    ((ownName place id).map Name.place).Nodup := by
  unfold ownName
  split <;> simp

theorem nodup_parameterNames (place : Position) (slot : Nat) (params : List (Option Node)) :
    ((parameterNames place slot params).map Name.place).Nodup := by
  unfold parameterNames
  rw [List.Nodup, List.pairwise_map, List.pairwise_flatMap]
  constructor
  · rintro ⟨param, i⟩ -
    cases param with
    | none => exact List.Pairwise.nil
    | some c => exact List.pairwise_map.mp (nodup_patternNames c _)
  · -- names of different parameters stand below different steps
    have hlt : (params.zipIdx.map Prod.snd).Pairwise (· < ·) := by
      rw [List.zipIdx_map_snd]
      exact List.pairwise_lt_range'
    refine List.Pairwise.imp ?_ (List.pairwise_map.mp hlt)
    rintro ⟨param, i⟩ ⟨param', j⟩ hij x hx y hy he
    cases param with
    | none => cases hx
    | some c =>
        cases param' with
        | none => cases hy
        | some c' =>
            have hi := prefix_of_mem_patternNames c hx
            have hj := prefix_of_mem_patternNames c' hy
            rw [← he] at hj
            have := Position.step_eq_of_isPrefixOf hi hj
            simp only [Step.mk.injEq, Option.some.injEq, true_and] at this
            simp only at hij
            omega

theorem nodup_declareIn (place : Position) (scope : Option Scope) (kind : BindingKind)
    {names : List Name} (h : (names.map Name.place).Nodup) :
    ((declareIn place scope kind names).map fun d => d.name.place).Nodup := by
  unfold declareIn
  cases scope with
  | none => simp
  | some scope => simpa [List.map_map, Function.comp_def] using h

/-- A function declares its own name before its parameters. -/
theorem nodup_function {place : Position} {scope scope' : Option Scope} {kind kind' : BindingKind}
    {id : Option Node} {params : List (Option Node)} :
    ((declareIn place scope kind (ownName (place ++ [⟨0, none⟩]) id) ++
      declareIn place scope' kind' (parameterNames place 1 params)).map fun d => d.name.place).Nodup := by
  rw [List.map_append, List.nodup_append]
  refine ⟨nodup_declareIn _ _ _ (nodup_ownName _ _),
    nodup_declareIn _ _ _ (nodup_parameterNames _ _ _), ?_⟩
  rintro p hp q hq rfl
  obtain ⟨d, hd, rfl⟩ := List.mem_map.mp hp
  obtain ⟨e, he, heq⟩ := List.mem_map.mp hq
  obtain ⟨-, -, -, hown⟩ := mem_declareIn.mp hd
  obtain ⟨-, -, -, hparam⟩ := mem_declareIn.mp he
  obtain ⟨c, -, hown, -⟩ := mem_ownName.mp hown
  obtain ⟨i, c', -, hparam⟩ := mem_parameterNames.mp hparam
  have h0 := prefix_of_mem_patternNames c hown
  have h1 := prefix_of_mem_patternNames c' hparam
  rw [heq] at h1
  have := Position.step_eq_of_isPrefixOf h0 h1
  simp at this

theorem nodup_declarationsAt (inner outer : List Scope) (parent : Option Node) (site : Site) :
    ((declarationsAt inner outer parent site).map fun d => d.name.place).Nodup := by
  simp only [declarationsAt]
  split
  · simp
  · exact nodup_function
  · exact nodup_function
  · exact nodup_declareIn _ _ _ (nodup_parameterNames _ _ _)
  · exact nodup_declareIn _ _ _ (nodup_patternNames _ _)
  · exact nodup_declareIn _ _ _ (nodup_ownName _ _)
  · exact nodup_declareIn _ _ _ (nodup_patternNames _ _)
  · simp

theorem place_of_mem_declarationsAt {inner outer : List Scope} {parent : Option Node} {site : Site}
    {d : Declaration} (h : d ∈ declarationsAt inner outer parent site) : d.place = site.place := by
  cases parent with
  | none => cases h
  | some parent =>
      obtain ⟨_, _, _, -, -, -, -, -, hplace⟩ := declaresAt_of_mem h
      exact hplace

/-- **No identifier is declared twice by the same node.** -/
theorem nodup_declarations (t : Node) : (declarations t).Nodup := by
  unfold declarations
  rw [List.Nodup, List.pairwise_flatMap]
  constructor
  · rintro site -
    split
    · exact List.Pairwise.nil
    · refine List.Pairwise.imp ?_ (List.pairwise_map.mp (nodup_declarationsAt _ _ _ site))
      rintro d e hne rfl
      exact hne rfl
  · refine List.Pairwise.imp ?_ (List.pairwise_map.mp (Node.places_nodup t))
    rintro site site' hne d hd e he rfl
    split at hd
    · cases hd
    · split at he
      · cases he
      · exact hne ((place_of_mem_declarationsAt hd).symm.trans (place_of_mem_declarationsAt he))

end Descramble

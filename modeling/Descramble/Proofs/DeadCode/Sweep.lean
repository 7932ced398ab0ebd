import Descramble.Proofs.DeadCode.Rounds
import Descramble.Proofs.Pass.Names
import Descramble.Proofs.Tree.Pruned

/-!
# Names after a sweep

A sweep removes declarations together with everything that uses them.  What stays refers to
declarations that stay.

* `mem_doomedPlaces` — the places that a sweep removes.
* `key_of_doomed_declaration` — a removed declarator or function declares one dead name only.
* `exists_dead_above` — what a sweep removes above a name, within its scope, holds a dead declaration.
* `survives_of_not_dead` — the declarations of a binding that is not dead stay, where its scope does.
* `Inherits.swept` — no name becomes unresolved by a sweep.
-/

set_option autoImplicit false

namespace Descramble

/-- What a binding is known by. -/
def Binding.key (b : Binding) : Position × String := (b.scope.place, b.name)

/-- Is a place removed by the sweep of a tree? -/
def sweeps (t : Node) (p : Position) : Bool := (doomedPlaces t (deadBindings t)).contains p

theorem sweptTree_eq (t : Node) : sweptTree t = t.prune (sweeps t) := rfl

theorem mem_stubPlaces {t : Node} {p : Position} :
    p ∈ stubPlaces t ↔ ∃ n, t.get? p = some n ∧ inList p = true ∧ isGuardStub n = true := by
  simp only [stubPlaces, List.mem_map, List.mem_filter, Bool.and_eq_true, Node.mem_sites_iff]
  constructor
  · rintro ⟨⟨q, n⟩, ⟨hn, hin, hstub⟩, rfl⟩
    exact ⟨n, hn, hin, hstub⟩
  · rintro ⟨n, hn, hin, hstub⟩
    exact ⟨⟨p, n⟩, ⟨hn, hin, hstub⟩, rfl⟩

/-- **What a sweep removes**: dead declarations, declarations that lose all declarators, and stubs. -/
theorem mem_doomedPlaces {t : Node} {dead : List Binding} {p : Position} :
    p ∈ doomedPlaces t dead ↔ (∃ b ∈ dead, b.place = p) ∨
      (∃ n, t.get? p = some n ∧ losesAll (dead.map Binding.place) ⟨p, n⟩ = true) ∨
      p ∈ stubPlaces t := by
  simp only [doomedPlaces, List.mem_append, List.mem_map, List.mem_filter, Node.mem_sites_iff,
    or_assoc]
  refine or_congr Iff.rfl (or_congr ?_ Iff.rfl)
  constructor
  · rintro ⟨⟨q, n⟩, ⟨hn, hall⟩, rfl⟩
    exact ⟨n, hn, hall⟩
  · rintro ⟨n, hn, hall⟩
    exact ⟨⟨p, n⟩, ⟨hn, hall⟩, rfl⟩

theorem sweeps_iff {t : Node} {p : Position} :
    sweeps t p = true ↔ p ∈ doomedPlaces t (deadBindings t) := by
  unfold sweeps
  rw [List.contains_iff_mem]

/-- Nothing at or above what survives is removed. -/
theorem Node.Survives.not_mem_doomedPlaces {t : Node} {p q : Position}
    (h : Node.Survives (sweeps t) p) (hq : q <+: p) (hne : q ≠ []) :
    q ∉ doomedPlaces t (deadBindings t) := by
  rw [← sweeps_iff, Bool.not_eq_true]
  exact h q hq hne

theorem kind_of_isGuardStub {n : Node} (h : isGuardStub n = true) :
    ∃ directive, n.kind = .expressionStatement directive := by
  unfold isGuardStub at h
  split at h
  · exact ⟨_, rfl⟩
  · exact ⟨_, rfl⟩
  · cases h

/-- A declaration that loses all declarators loses each of its children. -/
theorem losesAll_cases {dead : List Position} {p : Position} {n : Node}
    (h : losesAll dead ⟨p, n⟩ = true) :
    (∃ kind, n.kind = .variableDeclaration kind) ∧
      ∀ s c, n.child? s = some c → p ++ [s] ∈ dead := by
  unfold losesAll at h
  split at h
  · rename_i kind first rest hn
    simp only at hn
    subst hn
    refine ⟨⟨kind, rfl⟩, ?_⟩
    rintro ⟨i, index⟩ c hc
    rw [Node.child?_mk] at hc
    match i, index, hc with
    | 0, some j, hc =>
        rw [Node.childOfSlots_many, Node.join_eq_some] at hc
        obtain ⟨hj, -⟩ := List.getElem?_eq_some_iff.mp hc
        simp only [List.all_eq_true, List.mem_range, List.contains_iff_mem] at h
        exact h j hj
    | 0, none, hc => cases hc
    | i + 1, index, hc => simp at hc
  · cases h

/-- What can be removed: the declaration of a function in a list, or a pure declarator of one
identifier that its declaration can do without. -/
theorem isRemovable_cases {t : Node} {b : Binding} (h : isRemovable t b = true) :
    (b.kind = .hoisted ∧ inList b.place = true ∧
        ∃ flags slots, t.get? b.place = some (.mk (.functionDeclaration flags) slots)) ∨
      (canLoseDeclarator t b.place.dropLast = true ∧ ∃ name slots init,
        t.get? b.place = some (.declarator (.mk (.identifier name) slots) init)) := by
  unfold isRemovable at h
  split at h
  · rename_i hk hget
    exact Or.inl ⟨hk, h, _, _, hget⟩
  · rename_i hget
    simp only [Bool.and_eq_true] at h
    exact Or.inr ⟨h.2, _, _, _, hget⟩
  · cases h

/-! ## One dead name for each removed declaration -/

/-- Two declarations at one place by one step to one identifier are the same. -/
theorem Declares.key_eq {t : Node} {d e : Declaration} {above above' : Position}
    {last last' s s' : Step} {parent parent' node node' : Node} {home home' : Home}
    (hd : Declares t d above last parent node s home)
    (he : Declares t e above' last' parent' node' s' home') (hplace : d.place = e.place)
    (hname : d.name.place = e.name.place) (hhome : home = home') : d.key = e.key := by
  have hp := hplace
  rw [hd.place_eq, he.place_eq] at hp
  obtain ⟨rfl, hlast⟩ := List.append_inj' hp rfl
  simp only [List.cons.injEq, and_true] at hlast
  subst hlast hhome
  obtain ⟨slots, hdn⟩ := hd.get_name
  obtain ⟨slots', hen⟩ := he.get_name
  rw [hname, hen] at hdn
  simp only [Option.some.injEq, Node.mk.injEq, Kind.identifier.injEq] at hdn
  have hscope := hd.scope_eq
  rw [he.scope_eq] at hscope
  simp only [Option.some.injEq] at hscope
  rw [Declaration.key, Declaration.key, hscope, hdn.1]

/-- The first declaration of a binding. -/
theorem exists_declares_of_mem_bindings {t : Node} {b : Binding} (h : b ∈ (analyze t).bindings) :
    ∃ e ∈ declarations t, e.key = b.key ∧ e.place = b.place ∧ e.kind = b.kind := by
  obtain ⟨i, d, hd, rfl⟩ := mem_bindings_iff.mp h
  exact ⟨d, (mem_of_mem_firstDeclarations (List.mem_of_getElem? hd)).1, rfl, rfl, rfl⟩

theorem exists_get?_of_mem_bindings {t : Node} {b : Binding} (h : b ∈ (analyze t).bindings) :
    ∃ n, t.get? b.place = some n := by
  obtain ⟨e, he, -, hep, -⟩ := exists_declares_of_mem_bindings h
  obtain ⟨above, last, parent, node, s, home, he⟩ := mem_declarations_iff.mp he
  exact ⟨node, by rw [← hep, he.place_eq, he.get_node]⟩

/-- The root declares nothing. -/
theorem place_ne_nil_of_mem_bindings {t : Node} {b : Binding} (h : b ∈ (analyze t).bindings) :
    b.place ≠ [] := by
  obtain ⟨e, he, -, hep, -⟩ := exists_declares_of_mem_bindings h
  obtain ⟨above, last, parent, node, s, home, he⟩ := mem_declarations_iff.mp he
  rw [← hep, he.place_eq]
  simp

/-- A function declaration has one name in a scope outside it: its own. -/
theorem Declares.key_eq_of_function {t : Node} {d e : Declaration} {above above' : Position}
    {last last' s s' : Step} {parent parent' node : Node} {home home' : Home}
    (hd : Declares t d above last parent node s home)
    (he : Declares t e above' last' parent' node s' home') (hplace : d.place = e.place)
    {flags : FunctionFlags} (hk : node.kind = .functionDeclaration flags) (hinner : home ≠ .inner)
    (hhoisted : e.kind = .hoisted) : d.key = e.key := by
  have hpe : above ++ [last] = above' ++ [last'] := by rw [← hd.place_eq, ← he.place_eq, hplace]
  rcases bindsBy_cases hd.binds with ⟨h, -⟩ | ⟨hhome, -, -, hown⟩ | ⟨h, -⟩
  · exact absurd h hinner
  · rcases bindsBy_cases he.binds with ⟨h, -⟩ | ⟨hhome', -, -, hown'⟩ | ⟨h, -⟩
    · -- a parameter is not hoisted
      exact absurd hhoisted (ne_of_bindsBy_inner (h ▸ he.binds)).1
    · refine hd.key_eq he hplace ?_ (by rw [hhome, hhome'])
      rw [hd.own hown, he.own hown', hpe, eq_of_namesItself hown, eq_of_namesItself hown']
    · rw [hk] at h
      cases h
  · rw [hk] at h
    cases h

/-- A declarator of an identifier declares that identifier only. -/
theorem Declares.key_eq_of_declarator {t : Node} {d e : Declaration} {above above' : Position}
    {last last' s s' : Step} {parent parent' : Node} {name : String} {slots : List Slot}
    {init : Option Node} {home home' : Home}
    (hd : Declares t d above last parent (.declarator (.mk (.identifier name) slots) init) s home)
    (he : Declares t e above' last' parent' (.declarator (.mk (.identifier name) slots) init) s' home')
    (hplace : d.place = e.place) : d.key = e.key := by
  obtain ⟨rfl, hv⟩ := bindsBy_declarator hd.binds
  obtain ⟨rfl, hv'⟩ := bindsBy_declarator he.binds
  have hpe : above ++ [last] = above' ++ [last'] := by rw [← hd.place_eq, ← he.place_eq, hplace]
  have hident : t.get? (above ++ [last] ++ [⟨0, none⟩]) = some (.mk (.identifier name) slots) := by
    rw [Node.get?_concat, hd.get_node]
    rfl
  refine hd.key_eq he hplace ?_ ?_
  · rw [hd.path.eq_of_identifier hident]
    rw [hpe] at hident ⊢
    rw [he.path.eq_of_identifier hident]
  · obtain ⟨rfl, -⟩ := List.append_inj' hpe rfl
    have hp := hd.get_parent
    rw [he.get_parent] at hp
    cases hp
    rw [hv] at hv'
    simp only [Option.some.injEq, Prod.mk.injEq] at hv'
    exact hv'.1

/-- **A name at the place of a removed declaration**, in a scope outside it, is the dead name. -/
theorem key_of_doomed_declaration {t : Node} {b : Binding} (hb : b ∈ (analyze t).bindings)
    (hrem : isRemovable t b = true) {d : Declaration} (hd : d ∈ declarations t)
    (hplace : d.place = b.place) (hscope : d.scope.place ≠ d.place) : d.key = b.key := by
  obtain ⟨e, he, hek, hep, hekind⟩ := exists_declares_of_mem_bindings hb
  rw [← hek]
  obtain ⟨above, last, parent, node, s, home, hd⟩ := mem_declarations_iff.mp hd
  obtain ⟨above', last', parent', node', s', home', he⟩ := mem_declarations_iff.mp he
  have hnode := hd.get_node
  have hnode' := he.get_node
  rw [← hd.place_eq, hplace] at hnode
  rw [← he.place_eq, hep] at hnode'
  rcases isRemovable_cases hrem with ⟨hkind, -, flags, slots, hget⟩ | ⟨-, name, slots, init, hget⟩
  · rw [hget] at hnode hnode'
    cases hnode
    cases hnode'
    exact hd.key_eq_of_function he (by rw [hplace, hep]) rfl
      (fun h => hscope (hd.scope_place_of_inner h)) (by rw [hekind, hkind])
  · rw [hget] at hnode hnode'
    cases hnode
    cases hnode'
    exact hd.key_eq_of_declarator he (by rw [hplace, hep])

/-! ## What stays -/

section
variable {t : Node}

theorem isClosed_declarator : Kind.isClosed .variableDeclarator := fun _ _ => rfl

theorem isClosed_variableDeclaration (kind : VariableKind) :
    Kind.isClosed (.variableDeclaration kind) := fun _ _ => rfl

theorem isClosed_expressionStatement (directive : Option String) :
    Kind.isClosed (.expressionStatement directive) := fun _ _ => rfl

/-- A name below a node that is neither a pattern nor an identifier is declared below it. -/
theorem Declares.below {d : Declaration} {above : Position} {last s : Step} {parent node : Node}
    {home : Home} (hd : Declares t d above last parent node s home) {q : Position} {m : Node}
    (hq : t.get? q = some m) (hpat : m.kind.isPattern = false)
    (hid : ∀ name, m.kind ≠ .identifier name) (hqn : q <+: d.name.place) : q <+: d.place := by
  rcases hd.below_of_name_below hq hpat hqn with h | h
  · exact h
  · obtain ⟨slots, hname⟩ := hd.get_name
    rw [← h, hq] at hname
    cases hname
    exact absurd rfl (hid _)

/-- A declaration inside a removed one, with a scope outside, is the removed one. -/
theorem place_eq_of_removable (hplaced : declarationsPlaced t = true) {b : Binding}
    (hrem : isRemovable t b = true) {d : Declaration} (hd : d ∈ declarations t)
    (hb : b.place <+: d.name.place) (hscope : ¬ b.place <+: d.scope.place) : d.place = b.place := by
  obtain ⟨above, last, parent, node, s, home, hd⟩ := mem_declarations_iff.mp hd
  refine Classical.byContradiction fun hne => hscope ?_
  rcases isRemovable_cases hrem with ⟨-, -, flags, slots, hget⟩ | ⟨-, name, slots, init, hget⟩
  · have hbelow := hd.below hget rfl (by simp) hb
    have hbelow' := hbelow
    rw [hd.place_eq] at hbelow'
    have habove := Position.prefix_of_prefix_append hbelow' (by
      rw [← hd.place_eq]
      exact fun h => hne h.symm)
    exact pick_below_function hget rfl hd.get_node hd.get_parent hbelow' habove hd.scope_eq
  · have hbelow := hd.below hget rfl (by simp) hb
    refine hd.scope_below hplaced hget isClosed_declarator hbelow (fun h => hne h.symm) ?_
    intro hk he
    rw [he, hd.get_parent] at hget
    cases hget
    have hbinds := hd.binds
    rw [hk] at hbinds
    cases (bindsBy_declarator hbinds).2

/-- A dead declaration above a name, with a scope outside, declares the name. -/
theorem key_eq_of_dead_above (hplaced : declarationsPlaced t = true) {b : Binding}
    (hb : b ∈ deadBindings t) {d : Declaration} (hd : d ∈ declarations t)
    (habove : b.place <+: d.name.place) (hscope : ¬ b.place <+: d.scope.place) : d.key = b.key := by
  obtain ⟨hbind, hrem, -⟩ := mem_deadCandidates.mp ((roundInv_deadBindings t).candidate b hb)
  have hplace := place_eq_of_removable hplaced hrem hd habove hscope
  refine key_of_doomed_declaration hbind hrem hd hplace fun h => ?_
  exact hscope (Position.prefix_of_eq (by rw [h, hplace]))

/-- A statement is no declaring node: a variable declaration leaves that to its declarators. -/
theorem Declares.kind_ne {d : Declaration} {above : Position} {last s : Step} {parent node : Node}
    {home : Home} (hd : Declares t d above last parent node s home) :
    (∀ kind, node.kind ≠ .variableDeclaration kind) ∧
      ∀ directive, node.kind ≠ .expressionStatement directive := by
  constructor
  · intro kind hk
    rcases bindsBy_cases hd.binds with ⟨-, h | h⟩ | ⟨-, -, hne, -⟩ | ⟨h, -⟩
    · simp [hk, Kind.isFunction] at h
    · simp [hk] at h
    · exact hne kind hk
    · simp [hk] at h
  · intro directive hk
    rcases bindsBy_cases hd.binds with ⟨-, h | h⟩ | ⟨-, h, -⟩ | ⟨h, -⟩
    · simp [hk, Kind.isFunction] at h
    · simp [hk] at h
    · simp [hk, Kind.isDeclaration] at h
    · simp [hk] at h

/-- **What is removed above a name whose scope is outside** contains a dead declaration above the
name: stubs and whole statements take no name out of its scope by themselves. -/
theorem exists_dead_above (hplaced : declarationsPlaced t = true) {d : Declaration} {above : Position}
    {last s : Step} {parent node : Node} {home : Home}
    (hd : Declares t d above last parent node s home) {q : Position}
    (hdoomed : q ∈ doomedPlaces t (deadBindings t)) (hq : q <+: d.name.place)
    (hscope : ¬ q <+: d.scope.place) :
    ∃ b ∈ deadBindings t, b.place <+: d.name.place ∧ ¬ b.place <+: d.scope.place := by
  have hne : ∀ {n : Node}, t.get? q = some n → n.kind ≠ node.kind → q ≠ d.place := by
    rintro n hn hk rfl
    rw [hd.place_eq, hd.get_node] at hn
    cases hn
    exact hk rfl
  rcases mem_doomedPlaces.mp hdoomed with ⟨b, hb, rfl⟩ | ⟨n, hn, hall⟩ | hstub
  · exact ⟨b, hb, hq, hscope⟩
  · obtain ⟨⟨kind, hk⟩, hchildren⟩ := losesAll_cases hall
    have hbelow := hd.below hn (by rw [hk]; rfl) (by simp [hk]) hq
    by_cases habove : q = above
    · -- the declarator of the name is among those that are dead
      subst habove
      rw [hd.get_parent] at hn
      cases hn
      obtain ⟨b, hb, hplace⟩ := List.mem_map.mp (hchildren last node hd.get_child)
      refine ⟨b, hb, ?_, fun h => hscope ?_⟩
      · rw [hplace]
        exact (List.prefix_append _ _).trans hd.path.isPrefix
      · rw [hplace] at h
        exact (List.prefix_append _ _).trans h
    · refine absurd (hd.scope_below hplaced hn ?_ hbelow ?_ fun _ => habove) hscope
      · rw [hk]
        exact isClosed_variableDeclaration kind
      · exact hne hn fun h => hd.kind_ne.1 kind (h ▸ hk)
  · obtain ⟨n, hn, -, hguard⟩ := mem_stubPlaces.mp hstub
    obtain ⟨directive, hk⟩ := kind_of_isGuardStub hguard
    have hbelow := hd.below hn (by rw [hk]; rfl) (by simp [hk]) hq
    refine absurd (hd.scope_below hplaced hn ?_ hbelow ?_ ?_) hscope
    · rw [hk]
      exact isClosed_expressionStatement directive
    · exact hne hn fun h => hd.kind_ne.2 directive (h ▸ hk)
    · -- a declarator stands in a variable declaration
      rintro hnode rfl
      rw [hd.get_parent] at hn
      cases hn
      have hbinds := hd.binds
      rw [hnode] at hbinds
      obtain ⟨-, hhome⟩ := bindsBy_declarator hbinds
      rw [hk] at hhome
      cases hhome

/-- **The declarations of a binding that is not dead stay**, where its scope does. -/
theorem survives_of_not_dead (hplaced : declarationsPlaced t = true) {d : Declaration}
    (hd : d ∈ declarations t) (hscope : Node.Survives (sweeps t) d.scope.place)
    (hdead : ∀ b ∈ deadBindings t, b.key ≠ d.key) : Node.Survives (sweeps t) d.name.place := by
  obtain ⟨above, last, parent, node, s, home, hdec⟩ := mem_declarations_iff.mp hd
  intro q hq hne
  rw [← Bool.not_eq_true, sweeps_iff]
  intro hdoomed
  have hout : ¬ q <+: d.scope.place := fun h => hscope.not_mem_doomedPlaces h hne hdoomed
  obtain ⟨b, hb, habove, hnot⟩ := exists_dead_above hplaced hdec hdoomed hq hout
  exact hdead b hb (key_eq_of_dead_above hplaced hb hd habove hnot).symm

end

/-! ## Names after a sweep -/

/-- What uses a dead binding goes. -/
theorem not_survives_of_dead {t : Node} {b : Binding} (hb : b ∈ deadBindings t) {use : Position}
    (huse : use ∈ b.references ++ b.violations) : ¬ Node.Survives (sweeps t) use := by
  intro hs
  have hin : ∀ q, q ∈ doomedPlaces t (deadBindings t) → use.isInside q = true → q = [] := by
    intro q hq hinside
    refine Classical.byContradiction fun hne => ?_
    exact hs.not_mem_doomedPlaces (Position.isInside_iff.mp hinside).1 hne hq
  have hroot : ∀ c ∈ deadBindings t, c.place ≠ [] := by
    intro c hc
    obtain ⟨hbind, -, -⟩ := mem_deadCandidates.mp ((roundInv_deadBindings t).candidate c hc)
    exact place_ne_nil_of_mem_bindings hbind
  rcases isLive_eq_false_iff.mp (not_live_of_mem_deadBindings hb) use huse with h | ⟨q, hq, h⟩
  · exact hroot b hb (hin _ (mem_doomedPlaces.mpr (Or.inl ⟨b, hb, rfl⟩)) h)
  · rcases List.mem_append.mp hq with hq | hq
    · have hne := hin q (mem_doomedPlaces.mpr (Or.inr (Or.inr hq))) h
      obtain ⟨n, -, hlist, -⟩ := mem_stubPlaces.mp hq
      rw [hne] at hlist
      cases hlist
    · obtain ⟨c, hc, rfl⟩ := List.mem_map.mp hq
      exact hroot c hc (hin _ (mem_doomedPlaces.mpr (Or.inl ⟨c, hc, rfl⟩)) h)

/-- **A sweep leaves no name unresolved that was resolved.** -/
theorem Inherits.swept {t t₀ : Node} (h : Inherits t t₀) : Inherits (sweptTree t) t₀ := by
  have hembeds := embeds_prune (sweeps t) t
  refine ⟨?_, hembeds.placed h.placed (fun _ _ _ _ => trivial), ?_⟩
  · obtain ⟨sourceType, hroot⟩ := h.root
    exact ⟨sourceType, by rw [sweptTree_eq, Node.prune, Node.kind_pruneAt, hroot]⟩
  · intro name hun
    refine h.unresolved name (hembeds.unresolved ?_ hun)
    intro p name i d hocc hb hd
    obtain ⟨slots, hget⟩ := hocc.get
    obtain ⟨hsurvives, -⟩ := Node.get?_prune (sweeps t) hget
    have hocc₀ := (hembeds.occurs_map hocc).2
    obtain ⟨slots₀, hget₀⟩ := hocc₀.get
    have hdmem := (mem_of_mem_firstDeclarations (List.mem_of_getElem? hd)).1
    -- the identifier uses the binding, so the binding is not dead
    have hdead : ∀ b ∈ deadBindings t, b.key ≠ d.key := by
      intro b hbd hkey
      obtain ⟨hbind, -, -⟩ := mem_deadCandidates.mp ((roundInv_deadBindings t).candidate b hbd)
      obtain ⟨j, e, he, rfl⟩ := mem_bindings_iff.mp hbind
      have hij : j = i := first_eq_of_key_eq he hd hkey
      subst hij
      refine not_survives_of_dead hbd ?_ hsurvives
      rw [mem_uses_iff]
      exact Or.inr ⟨name, hocc₀, hb⟩
    have hscope : Node.Survives (sweeps t) d.scope.place := by
      refine hsurvives.of_prefix (sweeps t) ?_
      obtain ⟨inner, scope, outer, e, hsplit, he, hkey, -⟩ := resolve?_eq_some hb
      rw [hd] at he
      cases he
      rw [show d.scope.place = scope.place from congrArg Prod.fst hkey]
      refine prefix_of_mem_scopesAround hget₀ scope ?_
      change scopesAround t _ = _ at hsplit
      rw [hsplit]
      simp
    have hstays := survives_of_not_dead h.placed hdmem hscope hdead
    obtain ⟨above, last, parent, node, s, home, hdec⟩ := mem_declarations_iff.mp hdmem
    obtain ⟨nslots, hname⟩ := hdec.get_name
    obtain ⟨q, hq, hqget⟩ := Node.exists_get?_prune (sweeps t) hname hstays
    obtain ⟨d', hd', he, -⟩ := hembeds.exists_declares hdmem hqget trivial hq
    exact ⟨d', hd', by rw [he]⟩

end Descramble

import Descramble.Proofs.Scope.Embedding

/-!
# Where declarations stand

Declarations of variables, functions and classes are statements.  Inside an expression they occur
only in the body of a function, so an expression declares nothing that is visible around it.

* `statementPlace` — may a statement, or the head of a loop, stand at a place?
* `declarationsPlaced` — do all declarations of a tree stand at such places?
* `statementsFit` — does each other statement stand in a slot of its parent that is for statements?
* `statementPlace_of_isStatement` — then they all stand at such places too.
* `exists_function_between` — below a node that holds no statements, a function opens before the next
  statement.
* `scope_below` — what is declared inside such a node belongs to a scope inside it.
-/

set_option autoImplicit false

namespace Descramble

/-- The declarations that are statements. -/
def Kind.isDeclaration : Kind → Bool
  | .variableDeclaration _ => true
  | .functionDeclaration _ => true
  | .classDeclaration => true
  | _ => false

/-- May a statement, the head of a loop, or a part of a statement that holds statements stand in a
slot?  `allowed` says whether the parent stands at such a place itself; the body of a function starts
afresh. -/
def statementSlot (allowed : Bool) (kind : Kind) (slot : Nat) : Bool :=
  match kind, slot with
  | .functionDeclaration _, 2 => true
  | .functionExpression _, 2 => true
  | .arrowFunction _, 1 => true
  | .program _, 0 => allowed
  | .block, 0 => allowed
  | .ifStatement, 1 => allowed
  | .ifStatement, 2 => allowed
  | .labeled, 1 => allowed
  | .whileStatement, 1 => allowed
  | .doWhileStatement, 0 => allowed
  | .withStatement, 1 => allowed
  | .forStatement, 0 => allowed
  | .forStatement, 3 => allowed
  | .forInStatement _, 0 => allowed
  | .forInStatement _, 2 => allowed
  | .forOfStatement, 0 => allowed
  | .forOfStatement, 2 => allowed
  | .switchStatement, 1 => allowed
  | .switchCase, 1 => allowed
  | .tryStatement, 0 => allowed
  | .tryStatement, 1 => allowed
  | .tryStatement, 2 => allowed
  | .catchClause, 1 => allowed
  | _, _ => false

/-- May a statement stand at the end of a path from a node? -/
def statementPlace (allowed : Bool) (node : Node) : Position → Bool
  | [] => allowed
  | step :: rest =>
    match node.child? step with
    | some child => statementPlace (statementSlot allowed node.kind step.slot) child rest
    | none => false

/-- Do all declarations of a tree stand where statements may stand? -/
def declarationsPlaced (tree : Node) : Bool :=
  tree.sites.all fun site =>
    !site.node.kind.isDeclaration || statementPlace true tree site.place

/-- What is asked of the places of some kinds of nodes. -/
theorem all_sites_iff {t : Node} {asked : Kind → Bool} {holds : Position → Bool} :
    (t.sites.all fun site => !asked site.node.kind || holds site.place) = true ↔
      ∀ p n, t.get? p = some n → asked n.kind = true → holds p = true := by
  simp only [List.all_eq_true, Bool.or_eq_true, Bool.not_eq_true']
  constructor
  · intro h p n hn hk
    rcases h ⟨p, n⟩ (Node.mem_sites_iff.mpr hn) with h | h
    · rw [hk] at h
      cases h
    · exact h
  · rintro h ⟨p, n⟩ hsite
    cases hk : asked n.kind with
    | false => exact Or.inl rfl
    | true => exact Or.inr (h p n (Node.mem_sites_iff.mp hsite) hk)

theorem declarationsPlaced_iff {t : Node} :
    declarationsPlaced t = true ↔ ∀ p n, t.get? p = some n → n.kind.isDeclaration = true →
      statementPlace true t p = true := all_sites_iff

theorem statementPlace_concat {s : Step} : ∀ {p : Position} {allowed : Bool} {t n c : Node},
    t.get? p = some n → n.child? s = some c →
      statementPlace allowed t (p ++ [s]) =
        statementSlot (statementPlace allowed t p) n.kind s.slot
  | [], allowed, t, n, c, hn, hc => by
      cases hn
      simp only [List.nil_append, statementPlace, hc]
  | r :: p, allowed, t, n, c, hn, hc => by
      rw [Node.get?_cons] at hn
      obtain ⟨d, hd, hn⟩ := Option.bind_eq_some_iff.mp hn
      simp only [List.cons_append, statementPlace, hd]
      exact statementPlace_concat hn hc

/-! ## Statements that declare nothing -/

/-- The statements that declare nothing, and the clauses and the program, which hold statements. -/
def Kind.isStatement : Kind → Bool
  | .program _ => true
  | .block => true
  | .breakStatement => true
  | .catchClause => true
  | .continueStatement => true
  | .debuggerStatement => true
  | .doWhileStatement => true
  | .emptyStatement => true
  | .expressionStatement _ => true
  | .forInStatement _ => true
  | .forOfStatement => true
  | .forStatement => true
  | .ifStatement => true
  | .labeled => true
  | .returnStatement => true
  | .switchCase => true
  | .switchStatement => true
  | .throwStatement => true
  | .tryStatement => true
  | .whileStatement => true
  | .withStatement => true
  | _ => false

/-- Is the slot at a place one for statements, whatever stands around its node?  The root is in no
slot. -/
def inStatementSlot (tree : Node) (place : Position) : Bool :=
  match place.parent?.bind tree.get?, place.getLast? with
  | some parent, some step => statementSlot true parent.kind step.slot
  | _, _ => true

/-- Do the statements of a tree that declare nothing stand in slots for statements?  So it is in each
tree of a script: a statement is no part of an expression. -/
def statementsFit (tree : Node) : Bool :=
  tree.sites.all fun site => !site.node.kind.isStatement || inStatementSlot tree site.place

theorem statementsFit_iff {t : Node} :
    statementsFit t = true ↔ ∀ p n, t.get? p = some n → n.kind.isStatement = true →
      inStatementSlot t p = true := all_sites_iff

/-- Only the body of a function holds statements whatever stands around it; the other slots for
statements belong to statements. -/
theorem isStatement_of_statementSlot {k : Kind} {slot : Nat} (h : statementSlot true k slot = true) :
    statementSlot false k slot = true ∨ k.isStatement = true := by
  unfold statementSlot at h ⊢
  split at h
  all_goals first
    | exact Or.inl rfl
    | exact Or.inr rfl
    | cases h

/-- **Statements stand where statements may stand**, if each one's slot is for statements. -/
theorem statementPlace_of_isStatement {t : Node} (h : statementsFit t = true) {p : Position}
    {n : Node} (hp : t.get? p = some n) :
    n.kind.isStatement = true → statementPlace true t p = true := by
  rw [statementsFit_iff] at h
  suffices hall : ∀ m, t.get? p = some m → m.kind.isStatement = true → statementPlace true t p = true
    from hall n hp
  refine Node.placeInduction (fun _ _ _ => rfl) ?_ p n hp
  intro p s n c hn hc ih m hm hk
  have hslot := h _ m hm hk
  rw [inStatementSlot, Position.parent?_concat, List.getLast?_concat, Option.bind_some, hn] at hslot
  rw [statementPlace_concat hn hc]
  rcases isStatement_of_statementSlot hslot with hbody | hparent
  · cases statementPlace true t p
    · exact hbody
    · exact hslot
  · rw [ih n hn hparent]
    exact hslot

/-- A statement stands in the body of a function or below a statement. -/
theorem statementSlot_cases {allowed : Bool} {k : Kind} {slot : Nat}
    (h : statementSlot allowed k slot = true) : k.isFunction = true ∨ allowed = true := by
  unfold statementSlot at h
  split at h
  · exact Or.inl rfl
  · exact Or.inl rfl
  · exact Or.inl rfl
  all_goals first
    | exact Or.inr h
    | cases h

namespace Embeds

variable {t' t : Node} {kept : Position → Prop} {φ : Position → Position}

theorem statementPlace_map (h : Embeds t' t kept φ) {p : Position} {n : Node}
    (hp : t'.get? p = some n) : kept p → statementPlace true t (φ p) = statementPlace true t' p := by
  refine Node.placeInduction ?_ ?_ p n hp
  · intro _
    rw [h.root]
    rfl
  · intro p s n c hn hc ih hkept
    have hget : t'.get? (p ++ [s]) = some c := by rw [Node.get?_concat, hn, Option.bind_some, hc]
    have hkeptp := h.kept_of_step p s hkept
    obtain ⟨s', hs, hsim⟩ := h.step p s c hget hkept
    obtain ⟨n₀, hn₀, hnk, -⟩ := h.node p n hn hkeptp
    obtain ⟨c₀, hc₀, -⟩ := h.node _ c hget hkept
    rw [hs, Node.get?_concat, hn₀, Option.bind_some] at hc₀
    rw [hs, statementPlace_concat hn₀ hc₀, statementPlace_concat hn hc, ih hkeptp, hsim.1]
    rcases Kind.scopeForm_cases hnk with h | ⟨_, _, h, h'⟩ | ⟨_, _, _, _, _, h, h'⟩
    · rw [h]
    · rw [h, h']
      rfl
    · rw [h, h']
      rfl

/-- **Kept declarations stay where they may stand.** -/
theorem placed (h : Embeds t' t kept φ) (hplaced : declarationsPlaced t = true)
    (hnew : ∀ p n, t'.get? p = some n → n.kind.isDeclaration = true → kept p) :
    declarationsPlaced t' = true := by
  rw [declarationsPlaced_iff] at hplaced ⊢
  intro p n hn hk
  have hkept := hnew p n hn hk
  obtain ⟨n₀, hn₀, hnk, -⟩ := h.node p n hn hkept
  rw [← h.statementPlace_map hn hkept]
  refine hplaced _ n₀ hn₀ ?_
  rcases Kind.scopeForm_cases hnk with h | ⟨_, _, -, h⟩ | ⟨_, _, _, _, _, -, h⟩
  · rw [h, hk]
  · rw [h] at hk
    cases hk
  · rw [h] at hk
    cases hk

end Embeds

/-! ## Nodes without statements -/

/-- No slot of the kind holds statements. -/
def Kind.isClosed (k : Kind) : Prop := ∀ allowed slot, statementSlot allowed k slot = false

/-- Below a node that holds no statements, a function opens before the next statement. -/
theorem exists_function_between {t m n : Node} {q p : Position} (hq : t.get? q = some m)
    (hclosed : m.kind.isClosed) (hp : t.get? p = some n) :
    q <+: p → q ≠ p → statementPlace true t p = true →
      ∃ f g, q <+: f ∧ f <+: p ∧ f ≠ p ∧ t.get? f = some g ∧ g.kind.isFunction = true := by
  refine Node.placeInduction ?_ ?_ p n hp
  · intro h hne
    exact absurd (List.prefix_nil.mp h) hne
  · intro p s n c hn hc ih hqp hne hplace
    rw [statementPlace_concat hn hc] at hplace
    have hqp' := Position.prefix_of_prefix_append hqp hne
    by_cases he : q = p
    · subst he
      rw [hq] at hn
      cases hn
      rw [hclosed] at hplace
      cases hplace
    · rcases statementSlot_cases hplace with hfun | hallowed
      · exact ⟨p, n, hqp', List.prefix_append .., by simp, hn, hfun⟩
      · obtain ⟨f, g, hqf, hfp, -, hg, hfun⟩ := ih hqp' he hallowed
        refine ⟨f, g, hqf, hfp.trans (List.prefix_append ..), ?_, hg, hfun⟩
        rintro rfl
        exact Position.not_append_prefix (by simp) hfp

/-! ## The scopes of declarations -/

/-- A function is the scope of a function. -/
theorem function_mem_scopesAround {t g : Node} {f : Position} (hg : t.get? f = some g)
    (hfun : g.kind.isFunction = true) : ∃ outer, scopesAround t f = ⟨f, true⟩ :: outer := by
  rcases List.eq_nil_or_concat f with rfl | ⟨p, s, rfl⟩
  · exact ⟨[], rfl⟩
  · rw [List.concat_eq_append] at *
    have hg' := hg
    rw [Node.get?_concat] at hg'
    obtain ⟨n, hn, hc⟩ := Option.bind_eq_some_iff.mp hg'
    rw [scopesAround_concat hn hc]
    have hopen : opensScope? (some n) g = some true := by
      unfold Kind.isFunction at hfun
      unfold opensScope?
      split at hfun <;> simp_all
    unfold enterScope
    rw [hopen]
    exact ⟨_, rfl⟩

/-- Inside a function, names are put into scopes at or inside the function. -/
theorem pick_below_function {t g n m : Node} {f p q : Position} {home : Home} {scope : Scope}
    (hg : t.get? f = some g) (hfun : g.kind.isFunction = true) (hn : t.get? p = some n)
    (hm : t.get? q = some m) (hfp : f <+: p) (hfq : f <+: q)
    (hpick : home.pick (scopesAround t p) (scopesAround t q) = some scope) :
    f <+: scope.place := by
  obtain ⟨outer, houter⟩ := function_mem_scopesAround hg hfun
  have key : ∀ {r : Position} {k : Node}, t.get? r = some k → f <+: r →
      ∃ extra, scopesAround t r = extra ++ ⟨f, true⟩ :: outer ∧ ∀ s ∈ extra, f <+: s.place := by
    intro r k hk hr
    obtain ⟨extra, he, hin⟩ := scopesAround_of_prefix hk hr
    exact ⟨extra, by rw [he, houter], fun s hs => (hin s hs).1⟩
  have hhead : ∀ {r : Position} {k : Node}, t.get? r = some k → f <+: r →
      ∀ {s : Scope}, (scopesAround t r).head? = some s → f <+: s.place := by
    intro r k hk hr s hs
    obtain ⟨extra, he, hin⟩ := key hk hr
    rw [he] at hs
    cases extra with
    | nil =>
        simp only [List.nil_append, List.head?_cons, Option.some.injEq] at hs
        subst hs
        exact List.prefix_refl _
    | cons a rest =>
        simp only [List.cons_append, List.head?_cons, Option.some.injEq] at hs
        subst hs
        exact hin a List.mem_cons_self
  cases home with
  | inner => exact hhead hn hfp hpick
  | outer => exact hhead hm hfq hpick
  | function =>
      obtain ⟨extra, he, hin⟩ := key hm hfq
      simp only [Home.pick, functionScope?, he, List.find?_append, List.find?_cons_of_pos,
        Option.or_eq_some_iff] at hpick
      rcases hpick with h | ⟨-, h⟩
      · exact hin scope (List.mem_of_find?_eq_some h)
      · cases h
        exact List.prefix_refl _

/-- The nodes that declare: a function or a catch clause, with a name in its own scope; the
declaration of a function or a class; and a declarator of a variable declaration. -/
theorem bindsBy_cases {p k : Kind} {shape : List Bool} {s : Step} {home : Home} {kind : BindingKind}
    (h : bindsBy p k shape s = some (home, kind)) :
    (home = .inner ∧ (k.isFunction = true ∨ k = .catchClause)) ∨
      (home = .outer ∧ k.isDeclaration = true ∧ (∀ v, k ≠ .variableDeclaration v) ∧
        namesItself k s = true) ∨
      (k = .variableDeclarator ∧ ∃ v, p = .variableDeclaration v) := by
  unfold bindsBy at h
  split at h
  · rename_i hslot hindex
    cases h
    exact Or.inr (Or.inl ⟨rfl, rfl, by simp, by simp [namesItself, hslot, hindex]⟩)
  · cases h
    exact Or.inl ⟨rfl, Or.inl rfl⟩
  · cases h
    exact Or.inl ⟨rfl, Or.inl rfl⟩
  · cases h
    exact Or.inl ⟨rfl, Or.inl rfl⟩
  · cases h
    exact Or.inl ⟨rfl, Or.inl rfl⟩
  · cases h
    exact Or.inl ⟨rfl, Or.inr rfl⟩
  · rename_i hslot hindex
    cases h
    exact Or.inr (Or.inl ⟨rfl, rfl, by simp, by simp [namesItself, hslot, hindex]⟩)
  · unfold variableHome at h
    split at h
    · exact Or.inr (Or.inr ⟨rfl, _, rfl⟩)
    · exact Or.inr (Or.inr ⟨rfl, _, rfl⟩)
    · exact Or.inr (Or.inr ⟨rfl, _, rfl⟩)
    · cases h
  · cases h

/-- A declarator binds below its first slot, with the home of its declaration. -/
theorem bindsBy_declarator {p : Kind} {shape : List Bool} {s : Step} {home : Home} {kind : BindingKind}
    (h : bindsBy p .variableDeclarator shape s = some (home, kind)) :
    s = ⟨0, none⟩ ∧ variableHome p = some (home, kind) := by
  unfold bindsBy at h
  split at h
  all_goals first
    | contradiction
    | exact ⟨Step.eq_one (by assumption) (by assumption), h⟩

theorem variableHome_ne_inner (p : Kind) (kind : BindingKind) :
    variableHome p ≠ some (.inner, kind) := by
  unfold variableHome
  split <;> simp

/-- What a node binds inside itself is neither a hoisted function nor the name of a declarator. -/
theorem ne_of_bindsBy_inner {p k : Kind} {shape : List Bool} {s : Step} {kind : BindingKind}
    (h : bindsBy p k shape s = some (.inner, kind)) : kind ≠ .hoisted ∧ k ≠ .variableDeclarator := by
  unfold bindsBy at h
  split at h
  · cases h
  · cases h
    exact ⟨by simp, by simp⟩
  · cases h
    exact ⟨by simp, by simp⟩
  · cases h
    exact ⟨by simp, by simp⟩
  · cases h
    exact ⟨by simp, by simp⟩
  · cases h
    exact ⟨by simp, by simp⟩
  · cases h
  · exact absurd h (variableHome_ne_inner p kind)
  · cases h

namespace Declares

variable {t : Node} {d : Declaration} {above : Position} {last s : Step} {parent node : Node}
  {home : Home}

/-- A name in the own scope of the declaring node. -/
theorem scope_place_of_inner (hd : Declares t d above last parent node s home) (hhome : home = .inner) :
    d.scope.place = d.place := by
  have hscope := hd.scope_eq
  rw [scopesAround_concat hd.get_parent hd.get_child, hhome] at hscope
  rcases bindsBy_cases hd.binds with ⟨-, hk⟩ | ⟨h, -⟩ | ⟨hk, -⟩
  · have hopen : ∃ isFunction, opensScope? (some parent) node = some isFunction := by
      rcases hk with hk | hk
      · unfold Kind.isFunction at hk
        unfold opensScope?
        split at hk <;> simp_all
      · exact ⟨false, by simp [opensScope?, hk]⟩
    obtain ⟨isFunction, hopen⟩ := hopen
    simp only [enterScope, hopen, Home.pick, List.head?_cons, Option.some.injEq] at hscope
    rw [← hscope, hd.place_eq]
  · rw [hhome] at h
    cases h
  · exact absurd hk (ne_of_bindsBy_inner (hhome ▸ hd.binds)).2

/-- **What is declared inside a node without statements belongs to a scope inside it**, unless the
node is the declaration itself. -/
theorem scope_below (hplaced : declarationsPlaced t = true)
    (hd : Declares t d above last parent node s home) {q : Position} {m : Node}
    (hq : t.get? q = some m) (hclosed : m.kind.isClosed) (hqd : q <+: d.place) (hne : q ≠ d.place)
    (hne' : node.kind = .variableDeclarator → q ≠ above) : q <+: d.scope.place := by
  have hqd' := hqd
  have hne₀ := hne
  rw [hd.place_eq] at hqd' hne₀
  have hqa := Position.prefix_of_prefix_append hqd' hne₀
  have habove : ∀ {f : Position}, f <+: above ++ [last] → f ≠ above ++ [last] → f <+: above :=
    fun h h' => Position.prefix_of_prefix_append h h'
  rcases bindsBy_cases hd.binds with ⟨hhome, -⟩ | ⟨-, hk, -⟩ | ⟨hk, v, hv⟩
  · rw [hd.scope_place_of_inner hhome]
    exact hqd
  · have hplace := declarationsPlaced_iff.mp hplaced _ _ hd.get_node hk
    obtain ⟨f, g, hqf, hfp, hfne, hg, hfun⟩ :=
      exists_function_between hq hclosed hd.get_node hqd' hne₀ hplace
    exact hqf.trans (pick_below_function hg hfun hd.get_node hd.get_parent hfp (habove hfp hfne)
      hd.scope_eq)
  · have hplace := declarationsPlaced_iff.mp hplaced _ _ hd.get_parent (by rw [hv]; rfl)
    obtain ⟨f, g, hqf, hfp, -, hg, hfun⟩ :=
      exists_function_between hq hclosed hd.get_parent hqa (hne' hk) hplace
    exact hqf.trans (pick_below_function hg hfun hd.get_node hd.get_parent
      (hfp.trans (List.prefix_append ..)) hfp hd.scope_eq)

end Declares

/-! ## Paths through patterns pass patterns only -/

/-- The nodes that a pattern passes on the way to an identifier. -/
def Kind.isPattern : Kind → Bool
  | .arrayPattern => true
  | .assignmentPattern => true
  | .restElement => true
  | .objectPattern => true
  | .property _ _ _ _ => true
  | _ => false

theorem isPattern_of_continues {k : Kind} {shape : List Bool} {s : Step}
    (h : continuesPattern k shape s = true) : k.isPattern = true := by
  unfold continuesPattern at h
  split at h
  · rfl
  · rfl
  · rfl
  · cases h

theorem isPattern_of_continuesObject {k : Kind} {shape shape' : List Bool} {s s' : Step}
    (h : continuesObject shape s k shape' s' = true) : k.isPattern = true := by
  unfold continuesObject at h
  split at h
  · rename_i hk _ _ _ _
    obtain ⟨_, _, _, _, rfl⟩ := boundSlot_eq_one hk
    rfl
  · rename_i hk _ _ _ _
    obtain rfl := boundSlot_eq_zero hk
    rfl
  · cases h

theorem PatternPath.isPattern_of_between {t : Node} {a p q : Position} {m : Node}
    (hpath : PatternPath t a p) (haq : a <+: q) (hqp : q <+: p) (hne : q ≠ p)
    (hm : t.get? q = some m) : m.kind.isPattern = true := by
  induction hpath with
  | here => exact absurd (hqp.eq_of_length (Nat.le_antisymm hqp.length_le haq.length_le)) hne
  | @part p n s _ hn hs ih =>
      have hqp' := Position.prefix_of_prefix_append hqp hne
      by_cases he : q = p
      · subst he
        rw [hm] at hn
        cases hn
        exact isPattern_of_continues hs
      · exact ih hqp' he
  | @object p n m' s r _ hn hk hm' hs ih =>
      rw [show p ++ [s, r] = p ++ [s] ++ [r] by simp] at hqp hne
      have hqp' := Position.prefix_of_prefix_append hqp hne
      by_cases he : q = p ++ [s]
      · subst he
        rw [hm] at hm'
        cases hm'
        exact isPattern_of_continuesObject hs
      · have hqp'' := Position.prefix_of_prefix_append hqp' he
        by_cases he' : q = p
        · subst he'
          rw [hm] at hn
          cases hn
          rw [hk]
          rfl
        · exact ih hqp'' he'

/-- The pattern below an identifier is the identifier. -/
theorem PatternPath.eq_of_identifier {t : Node} {a p : Position} {name : String} {slots : List Slot}
    (hpath : PatternPath t a p) (ha : t.get? a = some (.mk (.identifier name) slots)) : p = a := by
  refine Classical.byContradiction fun hne => ?_
  have := hpath.isPattern_of_between (List.prefix_refl _) hpath.isPrefix (fun h => hne h.symm) ha
  cases this

/-- A node that is no pattern lies below the declarations of the names below it, or it is the name
itself. -/
theorem Declares.below_of_name_below {t : Node} {d : Declaration} {above : Position} {last s : Step}
    {parent node : Node} {home : Home} (hd : Declares t d above last parent node s home)
    {q : Position} {m : Node} (hq : t.get? q = some m) (hm : m.kind.isPattern = false)
    (hqn : q <+: d.name.place) : q <+: d.place ∨ q = d.name.place := by
  have hpath := hd.path.isPrefix
  rw [← hd.place_eq] at hpath
  rcases Position.prefix_total hqn hpath with h | h
  · rcases List.prefix_concat_iff.mp h with h | h
    · by_cases he : q = d.name.place
      · exact Or.inr he
      · have hpat := hd.path.isPattern_of_between (Position.prefix_of_eq (by rw [h, hd.place_eq]))
          hqn he hq
        rw [hm] at hpat
        cases hpat
    · exact Or.inl h
  · by_cases he : q = d.name.place
    · exact Or.inr he
    · have hpat := hd.path.isPattern_of_between (by rw [← hd.place_eq]; exact h) hqn he hq
      rw [hm] at hpat
      cases hpat

end Descramble

import Descramble.Pass.Inline
import Descramble.Pass.Normalize
import Descramble.Proofs.Scope.Placement

/-!
# One edit of a pass

A pass replaces an expression by a literal, or turns a computed access into a plain one.  Nothing
outside the replaced expression changes its meaning for names.

* `Kind.isEvaluable` — the expressions that passes replace.
* `Edits` — the trees agree outside a place, as far as names go.
* `Edits.placed`, `Edits.unresolved`, `Edits.declared` — an edit keeps declarations where they may
  stand, and no name becomes unresolved or declared by it.
* `edits_replaceAt`, `edits_inlineAt`, `edits_withPlainName` — what the passes do are such edits.
-/

set_option autoImplicit false

namespace Descramble

namespace Node

/-- What scopes and declarations depend on. -/
def outline (n : Node) : Kind × List Bool := (n.kind.scopeForm, n.skeleton)

end Node

/-- The kind without the spelling of a property. -/
def Kind.nameForm : Kind → Kind
  | .property computed kind method _ => .property computed kind method false
  | kind => kind

theorem Kind.nameForm_cases {k k' : Kind} (h : k.nameForm = k'.nameForm) :
    k = k' ∨ ∃ c kind method s s', k = .property c kind method s ∧ k' = .property c kind method s' := by
  unfold Kind.nameForm at h
  split at h
  · split at h
    · cases h
      exact Or.inr ⟨_, _, _, _, _, rfl, rfl⟩
    · rename_i hne
      subst h
      exact absurd rfl (hne _ _ _ _)
  · rename_i hne
    split at h
    · subst h
      exact absurd rfl (hne _ _ _ _)
    · exact Or.inl h

/-- Only the kinds of properties are lost. -/
theorem Kind.eq_of_nameForm {k k' : Kind} (h : k.nameForm = k'.nameForm)
    (hk : ∀ computed kind method shorthand, k' ≠ .property computed kind method shorthand) : k = k' := by
  rcases nameForm_cases h with rfl | ⟨_, _, _, _, _, -, rfl⟩
  · rfl
  · exact absurd rfl (hk _ _ _ _)

theorem Kind.scopeForm_of_nameForm {k k' : Kind} (h : k.nameForm = k'.nameForm) :
    k.scopeForm = k'.scopeForm := by
  rcases nameForm_cases h with rfl | ⟨_, _, _, _, _, rfl, rfl⟩ <;> rfl

/-- What decides whether a child stands for a value. -/
def Node.valueView (n : Node) : Kind × List Bool := (n.kind.nameForm, n.skeleton)

theorem Node.valueView_modifyChild (g : Node → Node) (n : Node) (s : Step) :
    (modifyChild g n s).valueView = n.valueView := by
  simp [valueView]

theorem Node.outline_of_valueView {n m : Node} (h : n.valueView = m.valueView) :
    n.outline = m.outline := by
  simp only [valueView, Prod.mk.injEq] at h
  simp only [outline, Kind.scopeForm_of_nameForm h.1, h.2]

theorem map_outline_of_valueView {a b : Option Node}
    (h : a.map Node.valueView = b.map Node.valueView) :
    a.map Node.outline = b.map Node.outline := by
  cases a with
  | none =>
      cases b with
      | none => rfl
      | some m => cases h
  | some n =>
      cases b with
      | none => cases h
      | some m =>
          simp only [Option.map_some, Option.some.injEq] at h ⊢
          exact Node.outline_of_valueView h

theorem standsForValue_congr {a b : Option Node}
    (h : a.map Node.valueView = b.map Node.valueView) (s : Step) :
    standsForValue a (some s) = standsForValue b (some s) := by
  obtain ⟨i, index⟩ := s
  cases a with
  | none =>
      cases b with
      | none => rfl
      | some m => cases h
  | some n =>
      cases b with
      | none => cases h
      | some m =>
          obtain ⟨k, slots⟩ := n
          obtain ⟨k', slots'⟩ := m
          simp only [Option.map_some, Option.some.injEq, Node.valueView, Node.kind_mk,
            Prod.mk.injEq] at h
          rcases Kind.nameForm_cases h.1 with rfl | ⟨_, _, _, _, _, rfl, rfl⟩
          · match i with
            | 0 => cases k <;> rfl
            | 1 => cases k <;> rfl
            | _ + 2 => cases k <;> rfl
          · match i with
            | 0 => rfl
            | 1 => rfl
            | _ + 2 => rfl

/-! ## Edits -/

/-- The expressions whose values may be computed. -/
def Kind.isEvaluable : Kind → Bool
  | .literal _ _ _ => true
  | .identifier _ => true
  | .templateLiteral => true
  | .unary _ _ => true
  | .binary _ => true
  | .logical _ => true
  | .conditional => true
  | .sequence => true
  | .arrayExpression => true
  | .member _ => true
  | .call => true
  | _ => false

theorem isClosed_of_isEvaluable {k : Kind} (h : k.isEvaluable = true) : k.isClosed := by
  intro allowed slot
  cases k <;> first | rfl | cases h

theorem isPattern_of_isEvaluable {k : Kind} (h : k.isEvaluable = true) : k.isPattern = false := by
  cases k <;> first | rfl | cases h

theorem isFunction_of_isEvaluable {k : Kind} (h : k.isEvaluable = true) : k.isFunction = false := by
  cases k <;> first | rfl | cases h

theorem isDeclaration_of_isEvaluable {k : Kind} (h : k.isEvaluable = true) :
    k.isDeclaration = false := by
  cases k <;> first | rfl | cases h

/-- What is declared in a scope outside a place has its name outside. -/
def NamesOutside (t : Node) (q : Position) : Prop :=
  ∀ d ∈ declarations t, ¬ q <+: d.scope.place → ¬ q <+: d.name.place

/-- The trees agree outside a place as far as names go, and what stands at the place in the first
one neither refers nor declares. -/
structure Edits (q : Position) (t' t : Node) : Prop where
  ne_root : q ≠ []
  outline : ∀ p, ¬ q <+: p → (t'.get? p).map Node.outline = (t.get? p).map Node.outline
  value : ∀ p s c, t'.get? (p ++ [s]) = some c → ¬ q <+: p ++ [s] →
    standsForValue (t.get? p) (some s) = standsForValue (t'.get? p) (some s)
  evaluable : ∀ p n, q <+: p → t'.get? p = some n → n.kind.isEvaluable = true
  inert : ∀ p name slots, t'.get? p = some (.mk (.identifier name) slots) → q <+: p →
    ∃ r s m, p = r ++ [s] ∧ t'.get? r = some m ∧ m.kind = .member false ∧ s.slot = 1

namespace Edits

variable {q : Position} {t' t : Node}

theorem exists_node (h : Edits q t' t) {p : Position} (hp : ¬ q <+: p) {n' : Node}
    (hn : t'.get? p = some n') : ∃ n, t.get? p = some n ∧ n.outline = n'.outline := by
  have ho := h.outline p hp
  rw [hn, Option.map_some] at ho
  exact Option.map_eq_some_iff.mp ho.symm

theorem exists_node' (h : Edits q t' t) {p : Position} (hp : ¬ q <+: p) {n : Node}
    (hn : t.get? p = some n) : ∃ n', t'.get? p = some n' ∧ n'.outline = n.outline := by
  have ho := h.outline p hp
  rw [hn, Option.map_some] at ho
  exact Option.map_eq_some_iff.mp ho

/-- An edit keeps all places outside the edited one. -/
theorem embeds (h : Edits q t' t) : Embeds t' t (fun p => ¬ q <+: p) id where
  root := rfl
  kept_root := fun hq => h.ne_root (List.prefix_nil.mp hq)
  kept_of_step := fun p s hp hq => hp (hq.trans (List.prefix_append ..))
  node := by
    intro p n' hn hp
    obtain ⟨n, hn, ho⟩ := h.exists_node hp hn
    simp only [Node.outline, Prod.mk.injEq] at ho
    exact ⟨n, hn, ho.1, ho.2⟩
  step := fun p s c _ _ => ⟨s, rfl, rfl, rfl⟩
  value := h.value
  inj := fun p q n m _ _ _ _ hpq => hpq
  inert := fun p name slots hget hp => h.inert p name slots hget (Classical.not_not.mp hp)

/-- **An edit keeps declarations where they may stand.** -/
theorem placed (h : Edits q t' t) (hplaced : declarationsPlaced t = true) :
    declarationsPlaced t' = true := by
  refine h.embeds.placed hplaced ?_
  intro p n hn hk hq
  rw [isDeclaration_of_isEvaluable (h.evaluable p n hq hn)] at hk
  cases hk

/-- An edit declares nothing new. -/
theorem declared (h : Edits q t' t) {d : Declaration} (hd : d ∈ declarations t') :
    d ∈ declarations t := h.embeds.mem_declarations_map hd

/-- A declaration inside an expression belongs to a scope inside it. -/
theorem scope_below_of_evaluable (hplaced : declarationsPlaced t = true)
    (hq : ∀ m, t.get? q = some m → m.kind.isEvaluable = true) {d : Declaration}
    (hd : d ∈ declarations t) (hqd : q <+: d.place) : q <+: d.scope.place := by
  obtain ⟨above, last, parent, node, s, home, hd⟩ := mem_declarations_iff.mp hd
  obtain ⟨m, hm⟩ : ∃ m, t.get? q = some m := by
    refine Node.exists_get?_of_prefix hd.get_node ?_
    rwa [← hd.place_eq]
  have hk := hq m hm
  refine hd.scope_below hplaced hm (isClosed_of_isEvaluable hk) hqd ?_ ?_
  · rintro rfl
    rw [hd.place_eq, hd.get_node] at hm
    cases hm
    rcases bindsBy_cases hd.binds with ⟨-, hk' | hk'⟩ | ⟨-, hk', -⟩ | ⟨hk', -⟩
    · rw [isFunction_of_isEvaluable hk] at hk'
      cases hk'
    · rw [hk'] at hk
      cases hk
    · rw [isDeclaration_of_isEvaluable hk] at hk'
      cases hk'
    · rw [hk'] at hk
      cases hk
  · rintro hnode rfl
    rw [hd.get_parent] at hm
    cases hm
    rcases bindsBy_cases hd.binds with ⟨-, hk' | hk'⟩ | ⟨-, hk', -⟩ | ⟨-, v, hv⟩
    · rw [hnode] at hk'
      cases hk'
    · rw [hnode] at hk'
      cases hk'
    · rw [hnode] at hk'
      cases hk'
    · rw [hv] at hk
      cases hk

/-- A declaration that is seen outside an expression which declares no name itself stands outside. -/
theorem namesOutside (hplaced : declarationsPlaced t = true)
    (hq : ∀ m, t.get? q = some m → m.kind.isEvaluable = true)
    (hname : ∀ d ∈ declarations t, d.name.place ≠ q) : NamesOutside t q := by
  intro d hd hscope hqn
  obtain ⟨above, last, parent, node, s, home, hdec⟩ := mem_declarations_iff.mp hd
  obtain ⟨slots, hget⟩ := hdec.get_name
  obtain ⟨m, hm⟩ := Node.exists_get?_of_prefix hget hqn
  rcases hdec.below_of_name_below hm (isPattern_of_isEvaluable (hq m hm)) hqn with hqd | he
  · exact hscope (scope_below_of_evaluable hplaced hq hd hqd)
  · exact hname d hd he.symm

/-- What is declared in a scope outside the edited expression stays declared there. -/
theorem mem_declarations_of_scope (h : Edits q t' t) (hnames : NamesOutside t q) {d : Declaration}
    (hd : d ∈ declarations t) (hscope : ¬ q <+: d.scope.place) : d ∈ declarations t' := by
  have hout := hnames d hd hscope
  obtain ⟨above, last, parent, node, s, home, hdec⟩ := mem_declarations_iff.mp hd
  obtain ⟨slots, hget⟩ := hdec.get_name
  obtain ⟨n', hn', -⟩ := h.exists_node' hout hget
  obtain ⟨d', hd', he, -⟩ := h.embeds.exists_declares hd hn' hout rfl
  have : d' = d := he
  rw [← this]
  exact hd'

/-- **An edit of an expression leaves no name unresolved that was resolved.** -/
theorem unresolved (h : Edits q t' t) (hnames : NamesOutside t q) {name : String}
    (hun : Unresolved t' name) : Unresolved t name := by
  refine h.embeds.unresolved ?_ hun
  intro p name i d hocc hb hd
  obtain ⟨hkept, hocc₀⟩ := h.embeds.occurs_map hocc
  obtain ⟨slots, hget⟩ := hocc₀.get
  obtain ⟨inner, scope, outer, e, hsplit, he, hkey, -⟩ := resolve?_eq_some hb
  rw [hd] at he
  cases he
  refine ⟨d, h.mem_declarations_of_scope hnames
    (mem_of_mem_firstDeclarations (List.mem_of_getElem? hd)).1 ?_, rfl⟩
  intro hqs
  rw [show d.scope.place = scope.place from congrArg Prod.fst hkey] at hqs
  have hscope : scope ∈ scopesAround t p := by
    change scopesAround t p = _ at hsplit
    rw [hsplit]
    simp
  exact hkept (hqs.trans (prefix_of_mem_scopesAround hget scope hscope))

end Edits

/-! ## Literals in place of expressions -/

/-- The tree is made of literals and unary operators. -/
def Node.IsNameless (m : Node) : Prop :=
  ∀ r n, m.get? r = some n →
    (∃ value raw regex, n.kind = .literal value raw regex) ∨ ∃ operator leading, n.kind = .unary operator leading

theorem isNameless_lit (value : Constant) (raw : String) : (Node.lit value raw).IsNameless := by
  intro r n h
  cases r with
  | nil =>
      cases h
      exact Or.inl ⟨_, _, _, rfl⟩
  | cons s r =>
      rw [Node.get?_cons, Node.child?_mk, Node.childOfSlots_nil] at h
      cases h

theorem isNameless_unary {m : Node} (hm : m.IsNameless) (operator : String) (leading : Bool) :
    (Node.unary1 (.unary operator leading) m).IsNameless := by
  intro r n h
  cases r with
  | nil =>
      cases h
      exact Or.inr ⟨_, _, rfl⟩
  | cons s r =>
      rw [Node.get?_cons] at h
      obtain ⟨c, hc, h⟩ := Option.bind_eq_some_iff.mp h
      have : c = m := by
        obtain ⟨i, index⟩ := s
        rw [Node.child?_mk] at hc
        match i, index, hc with
        | 0, none, hc => cases hc; rfl
        | 0, some _, hc => cases hc
        | i + 1, index, hc => simp at hc
      rw [this] at h
      exact hm r n h

/-- What the passes write: a literal or a negated number. -/
def Node.IsWritten (m : Node) : Prop :=
  (∃ value raw, m = .lit value raw) ∨ ∃ n raw, m = .negated (.lit (.number n) raw)

theorem Node.IsWritten.isNameless {m : Node} (h : m.IsWritten) : m.IsNameless := by
  rcases h with ⟨value, raw, rfl⟩ | ⟨n, raw, rfl⟩
  · exact isNameless_lit _ _
  · exact isNameless_unary (isNameless_lit _ _) _ _

theorem ofMagnitude_eq (n : Number) (d : Double) :
    ∃ k raw, Node.ofMagnitude n d = .lit (.number k) raw := by
  unfold Node.ofMagnitude
  split <;> exact ⟨_, _, rfl⟩

theorem isWritten_ofNumber {n : Number} {m : Node} (h : Node.ofNumber n = .ok m) : m.IsWritten := by
  have hplain : ∀ n d, (Node.ofMagnitude n d).IsWritten := by
    intro n d
    obtain ⟨k, raw, hk⟩ := ofMagnitude_eq n d
    exact Or.inl ⟨_, _, hk⟩
  have hnegated : ∀ n d, (Node.negated (Node.ofMagnitude n d)).IsWritten := by
    intro n d
    obtain ⟨k, raw, hk⟩ := ofMagnitude_eq n d
    exact Or.inr ⟨k, raw, by rw [hk]⟩
  unfold Node.ofNumber at h
  split at h
  · cases h
  · split at h
    · cases h
    · split at h <;> split at h <;> cases h
      · exact hnegated _ _
      · exact hplain _ _
      · exact hnegated _ _
      · exact hplain _ _

/-- The literal of a value is written by a pass. -/
theorem isWritten_literal? {v : Value} {m : Node} (h : v.literal? = some m) : m.IsWritten := by
  unfold Value.literal? at h
  split at h
  · rename_i c _
    split at h
    · rename_i hm
      cases h
      cases c with
      | null => cases hm; exact Or.inl ⟨_, _, rfl⟩
      | bool b => cases hm; exact Or.inl ⟨_, _, rfl⟩
      | text s => cases hm; exact Or.inl ⟨_, _, rfl⟩
      | number n => exact isWritten_ofNumber hm
    · cases h
  · cases h

theorem number_of_isNumberLiteral {n : Node} (h : n.isNumberLiteral = true) :
    ∃ k raw regex slots, n = .mk (.literal (.number k) raw regex) slots := by
  unfold Node.isNumberLiteral Node.constant? at h
  split at h
  · rename_i heq
    split at heq
    · cases heq
      exact ⟨_, _, _, _, rfl⟩
    · cases heq
  · cases h

/-- The copy of a literal is written by a pass. -/
theorem isWritten_copyLiteral {m : Node} (h : m.isLiteralLike = true) : m.copyLiteral.IsWritten := by
  unfold Node.isLiteralLike at h
  split at h
  · rw [Node.copyLiteral]
    exact Or.inl ⟨_, _, rfl⟩
  · obtain ⟨k, raw, regex, slots, rfl⟩ := number_of_isNumberLiteral h
    rw [Node.copyLiteral, Node.copyLiteral]
    exact Or.inr ⟨k, raw, rfl⟩
  · cases h

/-- Trees that agree outside a place where one of them holds a literal differ by an edit. -/
theorem edits_of_agree {q : Position} {t' t : Node} (hq : q ≠ [])
    (hview : ∀ p, ¬ q <+: p → (t'.get? p).map Node.valueView = (t.get? p).map Node.valueView)
    (hbelow : ∀ r n, t'.get? (q ++ r) = some n →
      (∃ value raw regex, n.kind = .literal value raw regex) ∨
        ∃ operator leading, n.kind = .unary operator leading) : Edits q t' t where
  ne_root := hq
  outline := fun p hp => map_outline_of_valueView (hview p hp)
  value := by
    intro p s c _ hp
    have hp' : ¬ q <+: p := fun h => hp (h.trans (List.prefix_append ..))
    exact standsForValue_congr (hview p hp').symm s
  evaluable := by
    rintro p n ⟨r, rfl⟩ hn
    rcases hbelow r n hn with ⟨_, _, _, h⟩ | ⟨_, _, h⟩ <;> rw [h] <;> rfl
  inert := by
    rintro p name slots hn ⟨r, rfl⟩
    rcases hbelow r _ hn with ⟨_, _, _, h⟩ | ⟨_, _, h⟩ <;> cases h

/-- **The replacement of a node by a literal is an edit.** -/
theorem edits_replaceAt {q : Position} {t m : Node} (hq : q ≠ []) (hm : m.IsNameless) :
    Edits q (t.replaceAt q m) t := by
  refine edits_of_agree hq ?_ ?_
  · intro p hp
    exact Node.map_get?_modifyAt_of_not_prefix Node.valueView_modifyChild _ t q p hp
  · intro r n hn
    rw [Node.get?_replaceAt_append] at hn
    obtain ⟨-, -, hn⟩ := Option.bind_eq_some_iff.mp hn
    exact hm r n hn

theorem valueView_withoutShorthand (n : Node) : (withoutShorthand n).valueView = n.valueView := by
  unfold withoutShorthand
  split <;> rfl

theorem child?_withoutShorthand (n : Node) (s : Step) :
    (withoutShorthand n).child? s = n.child? s := by
  unfold withoutShorthand
  split <;> rfl

/-- Inlining keeps, outside the reference, every view of nodes that neither their children nor the
spelling of a property change. -/
theorem map_view_inlineAt {α : Type} {view : Node → α}
    (hchild : ∀ g n s, view (Node.modifyChild g n s) = view n)
    (hopened : ∀ n, view (withoutShorthand n) = view n) (literal : Node) (r : Revision)
    {q p : Position} (hq : ¬ q <+: p) :
    ((inlineAt literal r q).tree.get? p).map view = (r.tree.get? p).map view := by
  rcases List.eq_nil_or_concat q with rfl | ⟨above, last, rfl⟩
  · exact absurd List.nil_prefix hq
  · rw [List.concat_eq_append] at hq ⊢
    simp only [inlineAt, Position.parent?_concat, Revision.replace]
    have h := Node.map_get?_modifyAt_of_not_prefix hchild
      (fun _ => literal.copyLiteral) (r.tree.modifyAt withoutShorthand above) _ p hq
    exact h.trans (Node.map_get?_modifyAt hchild hopened child?_withoutShorthand r.tree above p)

/-- Inlining keeps, outside the reference, what names depend on. -/
theorem map_valueView_inlineAt (literal : Node) (r : Revision) {q p : Position} (hq : ¬ q <+: p) :
    ((inlineAt literal r q).tree.get? p).map Node.valueView = (r.tree.get? p).map Node.valueView :=
  map_view_inlineAt Node.valueView_modifyChild valueView_withoutShorthand literal r hq

/-- **The replacement of a reference by a literal is an edit**, also where it was a shorthand. -/
theorem edits_inlineAt {q : Position} {r : Revision} {literal : Node} (hq : q ≠ [])
    (hm : literal.copyLiteral.IsNameless) : Edits q (inlineAt literal r q).tree r.tree := by
  refine edits_of_agree hq (fun p hp => map_valueView_inlineAt literal r hp) ?_
  intro p n hn
  simp only [inlineAt, Revision.replace, Node.get?_replaceAt_append] at hn
  obtain ⟨-, -, hn⟩ := Option.bind_eq_some_iff.mp hn
  exact hm p n hn

/-- A member that can have a plain name. -/
theorem plainMember?_eq_some {n : Node} {name : String} (h : plainMember? n = some name) :
    ∃ object value raw regex slots, n = .memberOf true object (.mk (.literal value raw regex) slots) := by
  unfold plainMember? at h
  split at h
  · exact ⟨_, _, _, _, _, rfl⟩
  · cases h

/-- An access has the same object, and no other child but the key, in both ways to write it. -/
theorem child?_memberOf {computed computed' : Bool} {object property property' : Node} {s : Step}
    (hs : s ≠ second) : (Node.memberOf computed object property).child? s =
      (Node.memberOf computed' object property').child? s := by
  obtain ⟨i, index⟩ := s
  match i, index with
  | 0, _ => rfl
  | 1, none => exact absurd rfl hs
  | 1, some _ => rfl
  | _ + 2, _ => rfl

/-- The object of an access stands for a value. -/
theorem standsForValue_memberOf {computed : Bool} {object property c : Node} {s : Step}
    (hs : s ≠ second) (hc : (Node.memberOf computed object property).child? s = some c) :
    standsForValue (some (.memberOf computed object property)) (some s) = true := by
  obtain ⟨i, index⟩ := s
  match i, index with
  | 0, _ => rfl
  | 1, none => exact absurd rfl hs
  | 1, some _ => cases hc
  | _ + 2, _ => cases hc

section
variable {p : Position} {t object property : Node} {name : String}

/-- What stands at and below the place of an access with a plain name. -/
theorem get?_plainlyNamed (hget : t.get? p = some (.memberOf true object property)) (r : Position) :
    (t.replaceAt p (.memberOf false object (.ident name))).get? (p ++ r) =
      (Node.memberOf false object (.ident name)).get? r := by
  rw [Node.get?_replaceAt_append, hget]
  rfl

theorem get?_plainlyNamed_self (hget : t.get? p = some (.memberOf true object property)) :
    (t.replaceAt p (.memberOf false object (.ident name))).get? p =
      some (.memberOf false object (.ident name)) := by
  have h := @get?_plainlyNamed p t object property name hget []
  rwa [List.append_nil] at h

/-- Below an access with a plain name, only the key is another. -/
theorem get?_plainlyNamed_of_ne (hget : t.get? p = some (.memberOf true object property)) {s : Step}
    (hs : s ≠ second) (r : Position) :
    (t.replaceAt p (.memberOf false object (.ident name))).get? (p ++ s :: r) =
      t.get? (p ++ s :: r) := by
  rw [get?_plainlyNamed hget, Node.get?_append, hget, Option.bind_some, Node.get?_cons,
    Node.get?_cons, child?_memberOf hs]

/-- Outside the access, a plain name changes nothing that names depend on. -/
theorem valueView_plainlyNamed {q : Position} (hq : ¬ p <+: q) :
    ((t.replaceAt p (.memberOf false object (.ident name))).get? q).map Node.valueView =
      (t.get? q).map Node.valueView :=
  Node.map_get?_modifyAt_of_not_prefix Node.valueView_modifyChild _ t p q hq

theorem outline_plainlyNamed (hget : t.get? p = some (.memberOf true object property)) {q : Position}
    (hq : ¬ p ++ [second] <+: q) :
    ((t.replaceAt p (.memberOf false object (.ident name))).get? q).map Node.outline =
      (t.get? q).map Node.outline := by
  by_cases hp : p <+: q
  · obtain ⟨_ | ⟨s, r⟩, rfl⟩ := hp
    · rw [get?_plainlyNamed hget, List.append_nil, hget]
      rfl
    · rw [get?_plainlyNamed_of_ne hget]
      rintro rfl
      exact hq ⟨r, by simp⟩
  · exact map_outline_of_valueView (valueView_plainlyNamed hp)

theorem standsForValue_plainlyNamed (hget : t.get? p = some (.memberOf true object property))
    {q : Position} {s : Step} {c : Node}
    (hc : (t.replaceAt p (.memberOf false object (.ident name))).get? (q ++ [s]) = some c)
    (hq : ¬ p ++ [second] <+: q ++ [s]) : standsForValue (t.get? q) (some s) =
      standsForValue ((t.replaceAt p (.memberOf false object (.ident name))).get? q) (some s) := by
  by_cases hp : p <+: q
  · obtain ⟨_ | ⟨s', r⟩, rfl⟩ := hp
    · -- the access itself: the step leads to its object
      have hs : s ≠ second := by
        rintro rfl
        exact hq (by simp)
      rw [List.append_nil] at hc ⊢
      rw [Node.get?_concat, get?_plainlyNamed_self hget, Option.bind_some] at hc
      rw [get?_plainlyNamed_self hget, hget, standsForValue_memberOf hs hc,
        standsForValue_memberOf hs ((child?_memberOf hs).trans hc)]
    · rw [get?_plainlyNamed_of_ne hget]
      rintro rfl
      exact hq ⟨r ++ [s], by simp⟩
  · exact standsForValue_congr (valueView_plainlyNamed hp).symm s

end

/-- **Writing an access with a plain name is an edit** of the expression that computes the name. -/
theorem edits_withPlainName {p : Position} {t n : Node} {name : String} (hget : t.get? p = some n)
    (hn : plainMember? n = some name) :
    Edits (p ++ [second]) (t.replaceAt p (withPlainName name n)) t := by
  obtain ⟨object, value, raw, regex, slots, rfl⟩ := plainMember?_eq_some hn
  have hkey : ∀ r, (t.replaceAt p (.memberOf false object (.ident name))).get? (p ++ [second] ++ r) =
      (Node.ident name).get? r := by
    intro r
    rw [List.append_assoc, get?_plainlyNamed hget]
    rfl
  change Edits (p ++ [second]) (t.replaceAt p (.memberOf false object (.ident name))) t
  refine ⟨by simp, fun q hq => outline_plainlyNamed hget hq,
    fun q s c hc hq => standsForValue_plainlyNamed hget hc hq, ?_, ?_⟩
  · rintro q n ⟨r, rfl⟩ hn
    rw [hkey] at hn
    cases r with
    | nil => cases hn; rfl
    | cons s r => cases hn
  · rintro q ident slots' hn ⟨r, rfl⟩
    rw [hkey] at hn
    cases r with
    | nil => exact ⟨p, second, _, by simp, get?_plainlyNamed_self hget, rfl, rfl⟩
    | cons s r => cases hn

end Descramble

import Descramble.Proofs.Scope.Writes
import Descramble.Proofs.Tree.Everywhere

/-!
# Names that are declared once

Where every name of a tree is declared once, an occurrence refers to the declaration of its name if
it stands below the scope of that declaration, and to nothing otherwise.

* `DeclaredOnce` — no two declarations of a tree have the same name.
* `DeclaredOnce.binding_iff` — what an occurrence refers to.
* `DeclaredOnce.mem_uses_iff`, `DeclaredOnce.constant_of_reads` — the uses of a binding, and when it
  is constant.
* `Node.Ordinary` — a tree without patterns and classes, in which all identifiers stand for values.
* `Node.Ordinary.occurs_iff` — in such a tree every identifier occurs unless it declares.
-/

set_option autoImplicit false

namespace Descramble

/-- A declared name belongs to a scope around the declaring node. -/
theorem Declares.scope_mem {t : Node} {d : Declaration} {above : Position} {last s : Step}
    {parent node : Node} {home : Home} (hd : Declares t d above last parent node s home) :
    d.scope ∈ scopesAround t (above ++ [last]) ∨ d.scope ∈ scopesAround t above := by
  have hpick := hd.scope_eq
  cases home with
  | inner => exact Or.inl (List.mem_of_mem_head? hpick)
  | outer => exact Or.inr (List.mem_of_mem_head? hpick)
  | function => exact Or.inr (List.mem_of_find?_eq_some hpick)

/-- The scope of a declaration is around all that lies below its place. -/
theorem scope_mem_of_below {t n : Node} {d : Declaration} (hd : d ∈ declarations t) {p : Position}
    (hget : t.get? p = some n) (hp : d.scope.place <+: p) : d.scope ∈ scopesAround t p := by
  obtain ⟨above, last, parent, node, s, home, hdec⟩ := mem_declarations_iff.mp hd
  have hself : d.scope ∈ scopesAround t d.scope.place := by
    rcases hdec.scope_mem with hmem | hmem
    · exact mem_scopesAround_self hdec.get_node _ hmem
    · exact mem_scopesAround_self hdec.get_parent _ hmem
  obtain ⟨extra, he, -⟩ := scopesAround_of_prefix hget hp
  rw [he]
  exact List.mem_append_right _ hself

theorem firstDeclarations_eq_self : ∀ {ds : List Declaration} {seen : List (Position × String)},
    (ds.map Declaration.key).Nodup → (∀ d ∈ ds, d.key ∉ seen) → firstDeclarations seen ds = ds
  | [], _, _, _ => rfl
  | d :: ds, seen, hnodup, hseen => by
      obtain ⟨hd, hds⟩ := List.nodup_cons.mp hnodup
      rw [firstDeclarations_cons, if_neg (hseen d List.mem_cons_self)]
      refine congrArg (d :: ·) (firstDeclarations_eq_self hds fun e he => ?_)
      rw [List.mem_cons, not_or]
      refine ⟨fun heq => hd ?_, hseen e (List.mem_cons_of_mem _ he)⟩
      rw [← heq]
      exact List.mem_map_of_mem he

/-- No two declarations of the tree have the same name. -/
def DeclaredOnce (t : Node) : Prop := ((declarations t).map fun d => d.name.name).Nodup

namespace DeclaredOnce

variable {t : Node} {d : Declaration} {i : Nat} {p : Position}

/-- Each declaration is the first one of its name. -/
theorem firsts (h : DeclaredOnce t) : firstDeclarations [] (declarations t) = declarations t := by
  refine firstDeclarations_eq_self ?_ (by simp)
  rw [DeclaredOnce, List.nodup_iff_pairwise_ne, List.pairwise_map] at h
  rw [List.nodup_iff_pairwise_ne, List.pairwise_map]
  exact h.imp fun hne heq => hne (Prod.mk.inj heq).2

theorem index_eq (h : DeclaredOnce t) {e : Declaration} {j : Nat} (hd : (declarations t)[i]? = some d)
    (he : (declarations t)[j]? = some e) (hname : d.name.name = e.name.name) : i = j := by
  have hi := (List.getElem?_eq_some_iff.mp hd).1
  refine (List.getElem?_inj (by simpa using hi) h).mp ?_
  simp [hd, he, hname]

theorem eq_of_name (h : DeclaredOnce t) {e : Declaration} (hd : d ∈ declarations t)
    (he : e ∈ declarations t) (hname : d.name.name = e.name.name) : d = e := by
  obtain ⟨i, hi⟩ := List.mem_iff_getElem?.mp hd
  obtain ⟨j, hj⟩ := List.mem_iff_getElem?.mp he
  obtain rfl := h.index_eq hi hj hname
  rw [hi] at hj
  exact Option.some.inj hj

/-- **An occurrence refers to the declaration of its name** if it stands below the scope of the
declaration. -/
theorem binding_iff (h : DeclaredOnce t) {n : Node} {name : String} (hget : t.get? p = some n) :
    (occurrenceAt t p name).binding = some i ↔
      ∃ d, (declarations t)[i]? = some d ∧ d.name.name = name ∧ d.scope.place <+: p := by
  have hsound : ∀ {j : Nat}, (occurrenceAt t p name).binding = some j →
      ∃ d, (declarations t)[j]? = some d ∧ d.name.name = name ∧ d.scope.place <+: p := by
    intro j hj
    obtain ⟨inner, scope, outer, d, hscopes, hd, hkey, -⟩ := resolve?_eq_some hj
    rw [h.firsts] at hd
    obtain ⟨hplace, hname⟩ := Prod.mk.inj hkey
    refine ⟨d, hd, hname, ?_⟩
    rw [hplace]
    exact prefix_of_mem_scopesAround hget scope (by simp [hscopes])
  refine ⟨hsound, ?_⟩
  rintro ⟨d, hd, hname, hprefix⟩
  have hmem : d ∈ declarations t := List.mem_of_getElem? hd
  cases hb : (occurrenceAt t p name).binding with
  | none =>
      refine absurd ⟨d, hmem, ?_⟩ (resolve?_eq_none_iff.mp hb d.scope (scope_mem_of_below hmem hget hprefix))
      rw [Declaration.key, hname]
  | some j =>
      obtain ⟨e, he, hname', -⟩ := hsound hb
      rw [h.index_eq hd he (hname.trans hname'.symm)]

/-- The binding that an occurrence of a declared name refers to. -/
theorem bindingFor?_eq (h : DeclaredOnce t) (hd : (declarations t)[i]? = some d)
    (hocc : Occurs t p d.name.name) (hp : d.scope.place <+: p) :
    (analyze t).bindingFor? p =
      some (i, bindingOf (declarations t) (analyze t).occurrences d i) := by
  obtain ⟨slots, hget⟩ := hocc.get
  have hnumber : (analyze t).bindingNumber? p = some i := by
    rw [bindingNumber?_of_occurs hocc, h.binding_iff hget]
    exact ⟨d, hd, rfl, hp⟩
  have hbinding := getElem?_bindings t i
  rw [h.firsts, hd] at hbinding
  simp [Analysis.bindingFor?, hnumber, hbinding]

theorem mem_bindings_iff (h : DeclaredOnce t) {b : Binding} :
    b ∈ (analyze t).bindings ↔ ∃ i d, (declarations t)[i]? = some d ∧
      b = bindingOf (declarations t) (analyze t).occurrences d i := by
  rw [Descramble.mem_bindings_iff, h.firsts]

/-- A name is not declared again. -/
theorem filter_sameKey (h : DeclaredOnce t) (hd : d ∈ declarations t) :
    (declarations t).filter (sameKey d) = [d] := by
  obtain ⟨rest, hrest⟩ := filter_key_eq_cons (h.firsts.symm ▸ hd)
  have hnodup : (d :: rest).Nodup := hrest ▸ (nodup_declarations t).filter _
  rw [hrest]
  refine congrArg (d :: ·) (List.eq_nil_iff_forall_not_mem.mpr fun e he => ?_)
  have hmem : e ∈ (declarations t).filter (sameKey d) := hrest ▸ List.mem_cons_of_mem _ he
  obtain ⟨hmem, hkey⟩ := List.mem_filter.mp hmem
  obtain rfl := h.eq_of_name hmem hd (Prod.mk.inj (sameKey_iff.mp hkey)).2
  exact (List.nodup_cons.mp hnodup).1 he

/-- The uses of a declared name are its occurrences below the scope of the declaration. -/
theorem mem_uses_iff (h : DeclaredOnce t) (hd : (declarations t)[i]? = some d) :
    p ∈ (bindingOf (declarations t) (analyze t).occurrences d i).references ++
        (bindingOf (declarations t) (analyze t).occurrences d i).violations ↔
      Occurs t p d.name.name ∧ d.scope.place <+: p := by
  rw [Descramble.mem_uses_iff, h.filter_sameKey (List.mem_of_getElem? hd)]
  constructor
  · rintro (⟨e, he, -⟩ | ⟨name, hocc, hbinding⟩)
    · cases he
    · obtain ⟨slots, hget⟩ := hocc.get
      obtain ⟨e, he, hname, hp⟩ := (h.binding_iff hget).mp hbinding
      rw [hd] at he
      cases he
      exact ⟨hname ▸ hocc, hp⟩
  · rintro ⟨hocc, hp⟩
    obtain ⟨slots, hget⟩ := hocc.get
    exact Or.inr ⟨_, hocc, (h.binding_iff hget).mpr ⟨d, hd, rfl, hp⟩⟩

/-- A declared name is constant if no occurrence of it writes. -/
theorem constant_of_reads (h : DeclaredOnce t) (hd : (declarations t)[i]? = some d)
    (hreads : ∀ p, Occurs t p d.name.name → (occurrenceAt t p d.name.name).use.writes = false) :
    (bindingOf (declarations t) (analyze t).occurrences d i).constant = true := by
  rw [Binding.constant, List.isEmpty_iff, List.eq_nil_iff_forall_not_mem]
  intro p hp
  rcases mem_violations_iff.mp hp with ⟨e, he, -⟩ | ⟨name, hocc, hbinding, hwrites⟩
  · rw [h.filter_sameKey (List.mem_of_getElem? hd)] at he
    cases he
  · obtain ⟨slots, hget⟩ := hocc.get
    obtain ⟨e, he, hname, -⟩ := (h.binding_iff hget).mp hbinding
    rw [hd] at he
    cases he
    subst hname
    rw [hreads p hocc] at hwrites
    cases hwrites

end DeclaredOnce

/-! ## Trees without patterns -/

/-- Nodes of this kind bind no parts of values, name themselves by nothing, and have no identifiers
below them that do not stand for values. -/
def Kind.isOrdinary : Kind → Bool
  | .member computed => computed
  | .methodDefinition _ _ _ => false
  | .labeled => false
  | .breakStatement => false
  | .continueStatement => false
  | .metaProperty => false
  | .classExpression => false
  | kind => !kind.isPattern

theorem isPattern_of_isOrdinary {k : Kind} (h : k.isOrdinary = true) : k.isPattern = false := by
  cases k <;> first | rfl | cases h

theorem standsForValue_of_isOrdinary {n : Node} (h : n.kind.isOrdinary = true) (step : Option Step) :
    standsForValue (some n) step = true := by
  obtain ⟨k, slots⟩ := n
  unfold standsForValue
  split <;> first | rfl | (rename_i heq; cases heq; first | exact h | cases h)

/-- Every node of the tree is of an ordinary kind. -/
def Node.Ordinary (t : Node) : Prop := t.Everywhere fun n => n.kind.isOrdinary = true

namespace Node.Ordinary

variable {t : Node} {p : Position} {name : String}

theorem selfNamePlaces_eq_nil (h : t.Ordinary) : selfNamePlaces t = [] := by
  refine List.eq_nil_iff_forall_not_mem.mpr fun p hp => ?_
  obtain ⟨q, n, c, -, -, hn, hk, -⟩ := mem_selfNamePlaces.mp hp
  have hordinary : n.kind.isOrdinary = true := h q n hn
  rw [hk] at hordinary
  cases hordinary

theorem assignedByPattern_eq_nil (h : t.Ordinary) : assignedByPattern t = [] := by
  refine List.eq_nil_iff_forall_not_mem.mpr fun p hp => ?_
  obtain ⟨r, n, op, target, -, hn, -, htarget, hident, hpath, name, slots, hname⟩ :=
    mem_assignedByPattern.mp hp
  have hget : t.get? (r ++ [⟨0, none⟩]) = some target := by
    rw [Node.get?_concat, hn]
    exact htarget
  by_cases he : r ++ [⟨0, none⟩] = p
  · rw [← he, hget] at hname
    cases hname
    exact hident name rfl
  · have hpattern := hpath.isPattern_of_between (List.prefix_refl _) hpath.isPrefix he hget
    rw [isPattern_of_isOrdinary (h _ _ hget)] at hpattern
    cases hpattern

/-- **Every identifier occurs** unless it declares. -/
theorem occurs_iff (h : t.Ordinary) :
    Occurs t p name ↔ (∃ slots, t.get? p = some (.mk (.identifier name) slots)) ∧
      ∀ d ∈ declarations t, d.name.place ≠ p := by
  constructor
  · intro hocc
    exact ⟨hocc.get, hocc.not_declaring⟩
  · rintro ⟨hget, hdeclares⟩
    refine ⟨hget, ?_, hdeclares, by simp [h.selfNamePlaces_eq_nil]⟩
    obtain ⟨slots, hget⟩ := hget
    induction p using Position.stepInduction with
    | root => rfl
    | step q s ih =>
        rw [Node.get?_concat] at hget
        obtain ⟨n, hn, -⟩ := Option.bind_eq_some_iff.mp hget
        rw [Position.parent?_concat, Option.bind_some, hn]
        exact standsForValue_of_isOrdinary (h q n hn) _

/-- A declared name is a child of the node that declares it. -/
theorem binds_of_declares (h : t.Ordinary) {d : Declaration} (hd : d ∈ declarations t) :
    ∃ node s parent home, t.get? d.place = some node ∧ d.name.place = d.place ++ [s] ∧
      bindsBy parent node.kind node.skeleton s = some (home, d.kind) := by
  obtain ⟨above, last, parent, node, s, home, hdec⟩ := mem_declarations_iff.mp hd
  refine ⟨node, s, parent.kind, home, hdec.place_eq ▸ hdec.get_node, ?_, hdec.binds⟩
  rw [hdec.place_eq]
  refine Classical.byContradiction fun hne => ?_
  obtain ⟨slots, hname⟩ := hdec.get_name
  obtain ⟨m, hm⟩ := Node.exists_get?_of_prefix hname hdec.path.isPrefix
  have hpattern := hdec.path.isPattern_of_between (List.prefix_refl _) hdec.path.isPrefix
    (Ne.symm hne) hm
  rw [isPattern_of_isOrdinary (h _ _ hm)] at hpattern
  cases hpattern

/-- An identifier occurs if its parent does not bind it. -/
theorem occurs_of_parent (h : t.Ordinary) {n : Node} {s : Step} {slots : List Slot}
    (hn : t.get? p = some n) (hname : t.get? (p ++ [s]) = some (.mk (.identifier name) slots))
    (hbinds : ∀ parent, bindsBy parent n.kind n.skeleton s = none) : Occurs t (p ++ [s]) name := by
  refine h.occurs_iff.mpr ⟨⟨slots, hname⟩, fun d hd he => ?_⟩
  obtain ⟨node, s', parent, home, hnode, hplace, hb⟩ := h.binds_of_declares hd
  rw [hplace] at he
  have hp : d.place = p := List.append_inj_left' he rfl
  cases List.append_inj_right' he rfl
  rw [hp, hn] at hnode
  cases hnode
  rw [hbinds] at hb
  cases hb

/-- What an identifier does with its name is seen from its parent. -/
theorem use_eq (h : t.Ordinary) {n : Node} {s : Step} (hn : t.get? p = some n) :
    (occurrenceAt t (p ++ [s]) name).use = useOf (some n) (some s) false := by
  rw [use_concat hn, h.assignedByPattern_eq_nil]
  rfl

end Node.Ordinary

end Descramble

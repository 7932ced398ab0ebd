import Descramble.Proofs.Evaluation.Agreement
import Descramble.Proofs.Scope.Writes

/-!
# A second analysis after an edit

An expression is replaced by one without names.  The identifiers that are left mean in the new tree
what they meant in the old one; a binding can only become constant.

* `Edits.occurs_iff` — the identifiers that are left refer as before.
* `Edits.exists_resolve` — they refer to the binding with the same scope and name.
* `Edits.writes` — what writes in the new tree writes in the old one.
* `Edits.agrees` — the analysis of the new tree keeps what that of the old one finds out.
* `Agrees.trans` — so does the analysis after several edits.
-/

set_option autoImplicit false

namespace Descramble

/-- What was left of the identifiers of a tree: each stands where it stood. -/
def KeepsIdentifiers (t' t : Node) : Prop :=
  ∀ p name slots', t'.get? p = some (.mk (.identifier name) slots') →
    ∃ slots, t.get? p = some (.mk (.identifier name) slots)

/-- **Agreement over several edits.** -/
theorem Agrees.trans {t₁ t₂ : Node} {a₀ a₁ a₂ : Analysis} (hkeeps : KeepsIdentifiers t₂ t₁)
    (h : Agrees t₁ a₀ a₁) (h' : Agrees t₂ a₁ a₂) : Agrees t₂ a₀ a₂ where
  unbound := by
    intro p name slots hget hnone
    obtain ⟨slots₁, hget₁⟩ := hkeeps p name slots hget
    exact h'.unbound p name slots hget (h.unbound p name slots₁ hget₁ hnone)
  isGlobal := by
    intro p name slots hget
    obtain ⟨slots₁, hget₁⟩ := hkeeps p name slots hget
    rw [h'.isGlobal p name slots hget, h.isGlobal p name slots₁ hget₁]
  constant := by
    intro p name slots i b hget hb hconst
    obtain ⟨slots₁, hget₁⟩ := hkeeps p name slots hget
    obtain ⟨j, b₁, hb₁, hconst₁, hplace₁, hkind₁⟩ := h.constant p name slots₁ i b hget₁ hb hconst
    obtain ⟨k, b₂, hb₂, hconst₂, hplace₂, hkind₂⟩ := h'.constant p name slots j b₁ hget hb₁ hconst₁
    exact ⟨k, b₂, hb₂, hconst₂, hplace₂.trans hplace₁, hkind₂.trans hkind₁⟩
  same := by
    intro p name slots p' name' slots' j hget hget' hj hj'
    obtain ⟨slots₁, hget₁⟩ := hkeeps p name slots hget
    obtain ⟨slots₁', hget₁'⟩ := hkeeps p' name' slots' hget'
    have hsame := h'.same p name slots p' name' slots' j hget hget' hj hj'
    cases hi : a₁.bindingNumber? p with
    | none =>
        rw [h'.unbound p name slots hget hi] at hj
        cases hj
    | some i =>
        exact h.same p name slots₁ p' name' slots₁' i hget₁ hget₁' hi (by rw [← hsame, hi])

/-! ## Analyses by place -/

theorem Occurs.name_eq_of_get {t : Node} {p : Position} {name word : String} {slots : List Slot}
    (h : Occurs t p word) (hget : t.get? p = some (.mk (.identifier name) slots)) : word = name := by
  obtain ⟨slots', hget'⟩ := h.get
  rw [hget] at hget'
  cases hget'
  rfl

/-! ## Writing -/

/-- Whether an identifier writes depends on the kind of its parent, and on the patterns that assign. -/
theorem writes_of_writes {parent' parent : Option Node} {step : Option Step}
    {assigned' assigned : Bool}
    (hk : ∀ n', parent' = some n' → ∃ n, parent = some n ∧ n.kind.scopeForm = n'.kind.scopeForm)
    (ha : assigned' = true → assigned = true) (h : (useOf parent' step assigned').writes = true) :
    (useOf parent step assigned).writes = true := by
  have hdefault : ∀ {b : Bool}, (if b then Use.write else .read).writes = true → b = true := by
    intro b hb
    cases b with
    | true => rfl
    | false => cases hb
  unfold useOf at h
  split at h
  · obtain ⟨⟨k, slots⟩, rfl, hform⟩ := hk _ rfl
    cases Kind.eq_of_scopeForm hform (by simp) (by simp)
    rfl
  · obtain ⟨⟨k, slots⟩, rfl, hform⟩ := hk _ rfl
    cases Kind.eq_of_scopeForm hform (by simp) (by simp)
    rfl
  · obtain ⟨⟨k, slots⟩, rfl, hform⟩ := hk _ rfl
    cases Kind.eq_of_scopeForm hform (by simp) (by simp)
    rfl
  · obtain ⟨⟨k, slots⟩, rfl, hform⟩ := hk _ rfl
    cases Kind.eq_of_scopeForm hform (by simp) (by simp)
    cases assigned <;> rfl
  · rw [ha (hdefault h)]
    exact useOf_assigned parent step

namespace Edits

variable {q : Position} {t' t : Node}

theorem assigned (h : Edits q t' t) {p : Position} (hkept : ¬ q <+: p)
    (hp : p ∈ assignedByPattern t') : p ∈ assignedByPattern t := by
  obtain ⟨r, n, op, target, hr, hn, hk, htarget, hne, hpath, name, slots, hid⟩ :=
    mem_assignedByPattern.mp hp
  have hkeptt : ¬ q <+: r ++ [⟨0, none⟩] := fun hq => hkept (hq.trans hpath.isPrefix)
  have hkeptr : ¬ q <+: r := fun hq => hkeptt (hq.trans (List.prefix_append ..))
  have hgett : t'.get? (r ++ [⟨0, none⟩]) = some target := by
    rw [Node.get?_concat, hn, Option.bind_some, htarget]
  obtain ⟨n₀, hn₀, ho⟩ := h.exists_node hkeptr hn
  obtain ⟨target₀, htarget₀, hot⟩ := h.exists_node hkeptt hgett
  simp only [Node.outline, Prod.mk.injEq] at ho hot
  obtain ⟨slots₀, hid₀⟩ := h.embeds.identifier_map hid hkept
  refine mem_assignedByPattern.mpr ⟨r, n₀, op, target₀, hr, hn₀, ?_, ?_, ?_, ?_, name, slots₀, hid₀⟩
  · rw [← hk]
    exact Kind.eq_of_scopeForm ho.1 (by simp [hk]) (by simp [hk])
  · rw [Node.get?_concat, hn₀] at htarget₀
    exact htarget₀
  · intro word hword
    refine hne word ?_
    rw [← hword]
    exact Kind.eq_of_scopeForm hot.1.symm (by simp [hword]) (by simp [hword])
  · exact h.embeds.path_map hpath hid hkept

/-- **What writes in the new tree writes in the old one.** -/
theorem writes (h : Edits q t' t) {p : Position} {name : String} (hkept : ¬ q <+: p)
    (hw : (occurrenceAt t' p name).use.writes = true) :
    (occurrenceAt t p name).use.writes = true := by
  refine writes_of_writes ?_ ?_ hw
  · intro n' hn'
    obtain ⟨r, hr, hget'⟩ := Option.bind_eq_some_iff.mp hn'
    obtain ⟨s, rfl⟩ := Position.parent?_eq_some.mp hr
    obtain ⟨n, hn, ho⟩ := h.exists_node (fun hq => hkept (hq.trans (List.prefix_append ..))) hget'
    simp only [Node.outline, Prod.mk.injEq] at ho
    exact ⟨n, by rw [hr, Option.bind_some, hn], ho.1⟩
  · intro ha
    rw [List.contains_iff_mem] at ha ⊢
    exact h.assigned hkept ha

/-! ## Resolution -/

/-- The scopes around what is left are the same. -/
theorem scopesAround_eq (h : Edits q t' t) {p : Position} {n : Node} (hget : t'.get? p = some n)
    (hkept : ¬ q <+: p) : scopesAround t p = scopesAround t' p := by
  have hmap := h.embeds.scopesAround_map hget hkept
  have hid : Scope.relabel id = id := rfl
  rw [hid, List.map_id] at hmap
  exact hmap

theorem self_of_self (h : Edits q t' t) {p : Position} {n : Node} (hget : t.get? p = some n)
    (hkept : ¬ q <+: p) (hself : p ∈ selfNamePlaces t') : p ∈ selfNamePlaces t := by
  obtain ⟨r, m, c, rfl, hr, hm, hk, -⟩ := mem_selfNamePlaces.mp hself
  have hkeptr : ¬ q <+: r := fun hq => hkept (hq.trans (List.prefix_append ..))
  obtain ⟨m₀, hm₀, ho⟩ := h.exists_node hkeptr hm
  simp only [Node.outline, Prod.mk.injEq] at ho
  have hk₀ : m₀.kind = .classExpression := by
    rw [← hk]
    exact Kind.eq_of_scopeForm ho.1 (by simp [hk]) (by simp [hk])
  refine mem_selfNamePlaces.mpr ⟨r, m₀, n, rfl, hr, hm₀, hk₀, ?_⟩
  rw [Node.get?_concat, hm₀] at hget
  exact hget

theorem occurs_of_occurs (h : Edits q t' t) {p : Position} {name : String}
    (hocc : Occurs t' p name) : ¬ q <+: p ∧ Occurs t p name := h.embeds.occurs_map hocc

theorem identifier (h : Edits q t' t) {p : Position} {name : String} {slots : List Slot}
    (hget : t'.get? p = some (.mk (.identifier name) slots)) (hkept : ¬ q <+: p) :
    ∃ slots₀, t.get? p = some (.mk (.identifier name) slots₀) := h.embeds.identifier_map hget hkept

/-- **What is left of the identifiers refers as before.** -/
theorem occurs_iff (h : Edits q t' t) {p : Position} {name : String} {slots : List Slot}
    (hget : t'.get? p = some (.mk (.identifier name) slots)) (hkept : ¬ q <+: p) :
    Occurs t' p name ↔ Occurs t p name := by
  constructor
  · exact fun hocc => (h.occurs_of_occurs hocc).2
  · intro hocc
    obtain ⟨slots₀, hget₀⟩ := hocc.get
    refine ⟨⟨slots, hget⟩, ?_, ?_, ?_⟩
    · rw [← h.embeds.value_map hget hkept]
      exact hocc.value
    · exact fun d hd => hocc.not_declaring d (h.declared hd)
    · exact fun hself => hocc.not_self (h.self_of_self hget₀ hkept hself)

/-- What a scope around a place that is left declares, it declares in both trees. -/
theorem declaresIn_iff (h : Edits q t' t) (hnames : NamesOutside t q) {p : Position} {n : Node}
    (hget : t.get? p = some n) (hkept : ¬ q <+: p) {scope : Scope} (hscope : scope ∈ scopesAround t p)
    (name : String) :
    declaresIn (declarations t') scope name ↔ declaresIn (declarations t) scope name := by
  constructor
  · rintro ⟨d, hd, hkey⟩
    exact ⟨d, h.declared hd, hkey⟩
  · rintro ⟨d, hd, hkey⟩
    refine ⟨d, h.mem_declarations_of_scope hnames hd ?_, hkey⟩
    intro hqs
    rw [show d.scope.place = scope.place from congrArg Prod.fst hkey] at hqs
    exact hkept (hqs.trans (prefix_of_mem_scopesAround hget scope hscope))

theorem resolve?_eq_none (h : Edits q t' t) (hnames : NamesOutside t q) {p : Position} {n n' : Node}
    (hget : t.get? p = some n) (hget' : t'.get? p = some n') (hkept : ¬ q <+: p) (name : String) :
    (occurrenceAt t' p name).binding = none ↔ (occurrenceAt t p name).binding = none := by
  simp only [occurrenceAt, resolve?_eq_none_iff, ← h.scopesAround_eq hget' hkept]
  constructor
  · intro hnone scope hs
    rw [← h.declaresIn_iff hnames hget hkept hs]
    exact hnone scope hs
  · intro hnone scope hs
    rw [h.declaresIn_iff hnames hget hkept hs]
    exact hnone scope hs

/-- **What is left of the identifiers refers to the binding with the same scope and name.** -/
theorem exists_resolve (h : Edits q t' t) (hnames : NamesOutside t q) {p : Position} {n n' : Node}
    (hget : t.get? p = some n) (hget' : t'.get? p = some n') (hkept : ¬ q <+: p) {name : String}
    {i : Nat} (hr : (occurrenceAt t p name).binding = some i) :
    ∃ d j e, (firstDeclarations [] (declarations t))[i]? = some d ∧
      (occurrenceAt t' p name).binding = some j ∧
      (firstDeclarations [] (declarations t'))[j]? = some e ∧ e.key = d.key ∧
      d ∈ declarations t' := by
  obtain ⟨inner, scope, outer, d, hsplit, hd, hkey, hinner⟩ := resolve?_eq_some hr
  have hmem : ∀ s ∈ inner ++ scope :: outer, s ∈ scopesAround t p := by
    intro s hs
    have hsplit : scopesAround t p = inner ++ scope :: outer := hsplit
    rwa [hsplit]
  have hd' : d ∈ declarations t' := by
    refine h.mem_declarations_of_scope hnames
      (mem_of_mem_firstDeclarations (List.mem_of_getElem? hd)).1 ?_
    intro hqs
    rw [show d.scope.place = scope.place from congrArg Prod.fst hkey] at hqs
    exact hkept (hqs.trans (prefix_of_mem_scopesAround hget scope (hmem scope (by simp))))
  obtain ⟨e, he, hek⟩ := exists_first_of_mem hd'
  obtain ⟨j, hj⟩ := List.mem_iff_getElem?.mp he
  refine ⟨d, j, e, hd, ?_, hj, hek, hd'⟩
  show resolve? _ (scopesAround t' p) name = some j
  have hsplit : scopesAround t p = inner ++ scope :: outer := hsplit
  rw [← h.scopesAround_eq hget' hkept, hsplit]
  refine resolve?_of_nearest hj (hek.trans hkey) ?_
  intro s hs
  rw [h.declaresIn_iff hnames hget hkept (hmem s (by simp [hs]))]
  exact hinner s hs

section Agreement

variable (h : Edits q t' t) (hnames : NamesOutside t q)
include h hnames

/-- Identifiers that refer to one binding in the new tree refer to one in the old tree. -/
theorem binding_eq {p p' : Position} {name name' : String} {j : Nat} (hocc : Occurs t' p name)
    (hocc' : Occurs t' p' name') (hj : (occurrenceAt t' p name).binding = some j)
    (hj' : (occurrenceAt t' p' name').binding = some j) :
    (occurrenceAt t p name).binding = (occurrenceAt t p' name').binding := by
  have hresolve : ∀ {r : Position} {word : String}, Occurs t' r word →
      (occurrenceAt t' r word).binding = some j → ∃ i d e,
        (occurrenceAt t r word).binding = some i ∧
        (firstDeclarations [] (declarations t))[i]? = some d ∧
        (firstDeclarations [] (declarations t'))[j]? = some e ∧ e.key = d.key := by
    intro r word hoccr hr
    obtain ⟨hkept, hocc₀⟩ := h.occurs_of_occurs hoccr
    obtain ⟨slots, hget'⟩ := hoccr.get
    obtain ⟨slots₀, hget⟩ := hocc₀.get
    cases hi : (occurrenceAt t r word).binding with
    | none =>
        rw [(h.resolve?_eq_none hnames hget hget' hkept word).mpr hi] at hr
        cases hr
    | some i =>
        obtain ⟨d, k, e, hd, hk, he, hkey, -⟩ :=
          h.exists_resolve hnames hget hget' hkept hi
        rw [hr] at hk
        cases hk
        exact ⟨i, d, e, rfl, hd, he, hkey⟩
  obtain ⟨i, d, e, hi, hd, he, hkey⟩ := hresolve hocc hj
  obtain ⟨i', d', e', hi', hd', he', hkey'⟩ := hresolve hocc' hj'
  rw [he] at he'
  cases he'
  rw [hi, hi', first_eq_of_key_eq hd hd' (hkey.symm.trans hkey')]

/-- **A constant binding stays constant**, with its place and its kind. -/
theorem constant {p : Position} {name : String} {i : Nat} {b : Binding} (hocc : Occurs t' p name)
    (hi : (occurrenceAt t p name).binding = some i) (hb : (analyze t).bindings[i]? = some b)
    (hconst : b.constant = true) :
    ∃ j b', (occurrenceAt t' p name).binding = some j ∧ (analyze t').bindings[j]? = some b' ∧
      b'.constant = true ∧ b'.place = b.place ∧ b'.kind = b.kind := by
  obtain ⟨hkept, hocc₀⟩ := h.occurs_of_occurs hocc
  obtain ⟨slots, hget'⟩ := hocc.get
  obtain ⟨slots₀, hget⟩ := hocc₀.get
  obtain ⟨d, j, e, hd, hj, he, hkey, hd'⟩ := h.exists_resolve hnames hget hget' hkept hi
  rw [getElem?_bindings, hd, Option.map_some, Option.some.injEq] at hb
  subst hb
  have honly : ∀ f ∈ declarations t', f.key = d.key → f = d := fun f hf hkey =>
    eq_first_of_constant (List.mem_of_getElem? hd) hconst (h.declared hf) hkey
  obtain rfl := honly e (mem_of_mem_firstDeclarations (List.mem_of_getElem? he)).1 hkey
  refine ⟨j, bindingOf (declarations t') (analyze t').occurrences e j, hj,
    by rw [getElem?_bindings, he, Option.map_some], ?_, rfl, rfl⟩
  rw [Binding.constant, List.isEmpty_iff, List.eq_nil_iff_forall_not_mem]
  intro r hr
  rcases mem_violations_iff.mp hr with ⟨f, hf, -⟩ | ⟨word, hoccr, hbr, hwr⟩
  · rw [further_eq_nil (nodup_declarations t') (List.mem_of_getElem? he) honly] at hf
    cases hf
  · obtain ⟨hkeptr, hoccr₀⟩ := h.occurs_of_occurs hoccr
    refine Binding.not_mem_violations hconst r
      (mem_violations_iff.mpr (Or.inr ⟨word, hoccr₀, ?_, h.writes hkeptr hwr⟩))
    rw [← h.binding_eq hnames hocc hoccr hj hbr, hi]

/-- **The analysis of the new tree keeps what that of the old one finds out** about the identifiers
that are left. -/
theorem agrees (hnameless : ∀ p name slots, t'.get? p = some (.mk (.identifier name) slots) →
    ¬ q <+: p) : Agrees t' (analyze t) (analyze t') where
  unbound := by
    intro p name slots hget' hnone
    cases hj : (analyze t').bindingNumber? p with
    | none => rfl
    | some j =>
        obtain ⟨word, hocc, hb⟩ := bindingNumber?_eq_some.mp hj
        obtain ⟨hkept, hocc₀⟩ := h.occurs_of_occurs hocc
        obtain ⟨slots₀, hget⟩ := hocc₀.get
        cases hi : (occurrenceAt t p word).binding with
        | none =>
            rw [(h.resolve?_eq_none hnames hget hget' hkept word).mpr hi] at hb
            cases hb
        | some i =>
            rw [bindingNumber?_eq_some.mpr ⟨word, hocc₀, hi⟩] at hnone
            cases hnone
  isGlobal := by
    intro p name slots hget'
    have hkept := hnameless p name slots hget'
    rw [Bool.eq_iff_iff, isGlobal_eq_true, isGlobal_eq_true]
    constructor
    · rintro ⟨word, hocc, hnone⟩
      obtain ⟨-, hocc₀⟩ := h.occurs_of_occurs hocc
      obtain ⟨slots₀, hget⟩ := hocc₀.get
      exact ⟨word, hocc₀, (h.resolve?_eq_none hnames hget hget' hkept word).mp hnone⟩
    · rintro ⟨word, hocc₀, hnone⟩
      obtain ⟨slots₀, hget⟩ := hocc₀.get
      obtain ⟨slots₁, hget₁⟩ := h.identifier hget' hkept
      obtain rfl := hocc₀.name_eq_of_get hget₁
      exact ⟨word, (h.occurs_iff hget' hkept).mpr hocc₀,
        (h.resolve?_eq_none hnames hget hget' hkept word).mpr hnone⟩
  constant := by
    intro p name slots i b hget' hb hconst
    have hkept := hnameless p name slots hget'
    obtain ⟨hnumber, hb⟩ := bindingFor?_eq_some.mp hb
    obtain ⟨word, hocc₀, hi⟩ := bindingNumber?_eq_some.mp hnumber
    obtain ⟨slots₀, hget⟩ := hocc₀.get
    obtain ⟨slots₁, hget₁⟩ := h.identifier hget' hkept
    obtain rfl := hocc₀.name_eq_of_get hget₁
    have hocc := (h.occurs_iff hget' hkept).mpr hocc₀
    obtain ⟨j, b', hj, hb', hconst', hplace, hkind⟩ := h.constant hnames hocc hi hb hconst
    exact ⟨j, b', bindingFor?_eq_some.mpr ⟨bindingNumber?_eq_some.mpr ⟨word, hocc, hj⟩, hb'⟩, hconst',
      hplace, hkind⟩
  same := by
    intro p name slots p' name' slots' j hget hget' hj hj'
    obtain ⟨word, hocc, hb⟩ := bindingNumber?_eq_some.mp hj
    obtain ⟨word', hocc', hb'⟩ := bindingNumber?_eq_some.mp hj'
    rw [bindingNumber?_of_occurs (h.occurs_of_occurs hocc).2,
      bindingNumber?_of_occurs (h.occurs_of_occurs hocc').2]
    exact h.binding_eq hnames hocc hocc' hb hb'

end Agreement

end Edits

end Descramble

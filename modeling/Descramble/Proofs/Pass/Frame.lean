import Descramble.Proofs.Pass.Initialized
import Descramble.Proofs.Scope.Uses

/-!
# What inlining leaves alone

Inlining replaces references of constant bindings.  Declarations stay, and so do the identifiers that
refer to other bindings; a new analysis finds no binding constant that was not constant before.

* `InlineFrame` — nothing but references of constant bindings has been replaced.
* `InlineFrame.inlineAt` — one replacement keeps to the frame.
* `InlineFrame.declared_iff`, `InlineFrame.binding_iff` — the declarations are the same, and what is
  left of the identifiers refers as before.
* `InlineFrame.exists_binding` — a constant binding of the new tree was constant in the old one.
-/

set_option autoImplicit false

namespace Descramble

/-! ## Writing, seen from the old tree -/

namespace Embeds

variable {t' t : Node} {kept : Position → Prop} {φ : Position → Position} {p : Position} {n : Node}

/-- A kept name that a pattern assigns is assigned by what is left of the pattern. -/
theorem assigned_of_map (h : Embeds t' t kept φ) (hget : t'.get? p = some n) (hkept : kept p)
    (hp : φ p ∈ assignedByPattern t) : p ∈ assignedByPattern t' := by
  obtain ⟨r₀, n₀, op, target₀, hr₀, hn₀, hk₀, htarget₀, hne, hpath, name, slots₀, hid₀⟩ :=
    mem_assignedByPattern.mp hp
  obtain ⟨slots, hid⟩ := h.exists_identifier hget hkept hid₀
  -- the start of the pattern and the assignment are kept with the name
  obtain ⟨a, ha, hφa⟩ := h.exists_of_prefix_map hget hkept hpath.isPrefix
  obtain ⟨target, htarget⟩ := Node.exists_get?_of_prefix hget ha
  have hkepta := h.kept_of_prefix hkept ha
  obtain ⟨r, s, rfl, hφr, hsim⟩ := h.exists_step htarget hkepta hφa
  obtain rfl := hsim.symm.eq_none
  obtain ⟨m, hm⟩ := Node.exists_get?_of_prefix htarget (List.prefix_append r [⟨0, none⟩])
  have hkeptr := h.kept_of_step _ _ hkepta
  obtain ⟨m₀, hm₀, hmk, -⟩ := h.node r m hm hkeptr
  obtain ⟨u₀, hu₀, huk, -⟩ := h.node _ target htarget hkepta
  rw [hφr, hn₀] at hm₀
  cases hm₀
  rw [hφa, Node.get?_concat, hn₀, Option.bind_some, htarget₀] at hu₀
  cases hu₀
  refine mem_assignedByPattern.mpr ⟨r, m, op, target, ?_, hm, ?_, ?_, ?_, ?_, name, slots, hid⟩
  · rintro rfl
    exact hr₀ (by rw [← hφr, h.root])
  · rw [← hk₀]
    exact Kind.eq_of_scopeForm hmk.symm (by simp [hk₀]) (by simp [hk₀])
  · rw [Node.get?_concat, hm] at htarget
    exact htarget
  · intro word hword
    refine hne word ?_
    rw [← hword]
    exact Kind.eq_of_scopeForm huk (by simp [hword]) (by simp [hword])
  · exact h.exists_path (hφa ▸ hpath) hget hkept ha rfl

/-- **A kept identifier that writes still writes.** -/
theorem writes_of_map (h : Embeds t' t kept id) (hget : t'.get? p = some n) (hkept : kept p)
    {name : String} (hw : (occurrenceAt t p name).use.writes = true) :
    (occurrenceAt t' p name).use.writes = true := by
  refine writes_of_writes ?_ ?_ hw
  · intro parent hparent
    obtain ⟨r, hr, hget₀⟩ := Option.bind_eq_some_iff.mp hparent
    obtain ⟨s, rfl⟩ := Position.parent?_eq_some.mp hr
    obtain ⟨m, hm⟩ := Node.exists_get?_of_prefix hget (List.prefix_append r [s])
    obtain ⟨m₀, hm₀, hk, -⟩ := h.node r m hm (h.kept_of_step _ _ hkept)
    rw [show t.get? (id r) = some parent from hget₀] at hm₀
    cases hm₀
    exact ⟨m, by rw [hr, Option.bind_some, hm], hk.symm⟩
  · intro ha
    rw [List.contains_iff_mem] at ha ⊢
    exact h.assigned_of_map hget hkept ha

end Embeds

/-! ## The frame -/

/-- Nothing but references of constant bindings has been replaced, and no identifier is new. -/
structure InlineFrame (t' t : Node) : Prop where
  embeds : ∃ kept, Embeds t' t kept id ∧
    ∀ p name slots, t'.get? p = some (.mk (.identifier name) slots) → kept p
  stays : ∀ p name, t.get? p = some (.ident name) →
    (∀ i b, (analyze t).bindingFor? p = some (i, b) → b.constant = false) →
      t'.get? p = some (.ident name)
  node : ∀ p n, t.get? p = some n → (∀ name, n.kind ≠ .identifier name) →
    ∃ n', t'.get? p = some n' ∧ n'.valueView = n.valueView

namespace InlineFrame

theorem refl (t : Node) : InlineFrame t t :=
  ⟨⟨_, Embeds.refl t, fun _ _ _ _ => trivial⟩, fun _ _ hget _ => hget, fun _ n hn _ => ⟨n, hn, rfl⟩⟩

/-- **One replacement keeps to the frame.** -/
theorem inlineAt {t : Node} {r : Revision} (h : InlineFrame r.tree t) {b : Binding} {q : Position}
    {literal : Node} (hs : InlineStep (analyze t) r.tree b q literal) :
    InlineFrame (Descramble.inlineAt literal r q).tree t := by
  obtain ⟨-, hconst, -, hlike⟩ := inlinedLiteral?_eq_some.mp hs.literal
  have hedits := hs.invariant.edits hs.referring hlike
  have hbare := hs.invariant.isBare hs.referring
  refine ⟨?_, fun p name hget hfree => ?_, fun p n hn hk => ?_⟩
  · obtain ⟨kept, hembeds, hid⟩ := h.embeds
    refine ⟨_, hedits.embeds.trans hembeds hid, fun p name slots hget => ?_⟩
    have hout := hs.invariant.outside hs.referring hlike hget
    obtain ⟨slots₀, hget₀⟩ := hedits.identifier hget hout
    exact ⟨hout, hid p name slots₀ hget₀⟩
  · refine get?_inlineAt_of_ne literal hbare (h.stays p name hget hfree)
      (Node.holdsNoNames_ident name) ?_
    rintro rfl
    obtain ⟨i, hb⟩ := hs.referring.binding
    rw [hfree i b hb] at hconst
    cases hconst
  · obtain ⟨n₁, hn₁, hview₁⟩ := h.node p n hn hk
    have hout : ¬ q <+: p := by
      intro hqp
      obtain rfl := hbare.eq_of_isPrefixOf hn₁ hqp
      obtain ⟨name, hname⟩ := hbare
      rw [hn₁] at hname
      cases hname
      simp only [Node.valueView, Prod.mk.injEq] at hview₁
      exact hk name (Kind.eq_of_nameForm hview₁.1.symm (by simp))
    have hview := map_valueView_inlineAt literal r hout
    rw [hn₁, Option.map_some] at hview
    obtain ⟨n₂, hn₂, hview₂⟩ := Option.map_eq_some_iff.mp hview
    exact ⟨n₂, hn₂, hview₂.trans hview₁⟩

section
variable {t' t : Node} (h : InlineFrame t' t)
include h

theorem occurs_iff {p : Position} {name : String} {slots : List Slot}
    (hget : t'.get? p = some (.mk (.identifier name) slots)) :
    Occurs t' p name ↔ Occurs t p name := by
  obtain ⟨kept, hembeds, hid⟩ := h.embeds
  exact ⟨fun hocc => (hembeds.occurs_map hocc).2, hembeds.occurs_of_map hget (hid p name slots hget)⟩

theorem scopesAround_eq {p : Position} {name : String} {slots : List Slot}
    (hget : t'.get? p = some (.mk (.identifier name) slots)) :
    scopesAround t' p = scopesAround t p := by
  obtain ⟨kept, hembeds, hid⟩ := h.embeds
  have hmap := hembeds.scopesAround_map hget (hid p name slots hget)
  rw [show Scope.relabel id = id from rfl, List.map_id] at hmap
  exact hmap.symm

variable (hc : t.conforms = true)
include hc

/-- An identifier that refers to no constant binding stays. -/
theorem get?_of_free {p : Position} {name : String} {slots : List Slot}
    (hget : t.get? p = some (.mk (.identifier name) slots))
    (hfree : ∀ i b, (analyze t).bindingFor? p = some (i, b) → b.constant = false) :
    t'.get? p = some (.ident name) := by
  obtain rfl := Node.slots_eq_nil (Node.conforms_iff.mp hc p _ hget)
  exact h.stays p name hget hfree

/-- **The declarations are the same.** -/
theorem declared_iff {d : Declaration} : d ∈ declarations t' ↔ d ∈ declarations t := by
  obtain ⟨kept, hembeds, hid⟩ := h.embeds
  refine ⟨fun hd => hembeds.mem_declarations_map hd, fun hd => ?_⟩
  obtain ⟨above, last, parent, node, s, home, hdec⟩ := mem_declarations_iff.mp hd
  obtain ⟨slots, hname⟩ := hdec.get_name
  have hget := h.get?_of_free hc hname fun i b hb => by
    obtain ⟨hnumber, -⟩ := bindingFor?_eq_some.mp hb
    obtain ⟨word, hocc, -⟩ := bindingNumber?_eq_some.mp hnumber
    exact absurd rfl (hocc.not_declaring d hd)
  obtain ⟨e, he, hed, -⟩ := hembeds.exists_declares hd hget (hid _ _ _ hget) rfl
  rwa [← show e = d from hed]

/-- **What is left of the identifiers refers as before.** -/
theorem binding_iff {p : Position} {name : String} {slots : List Slot}
    (hget : t'.get? p = some (.mk (.identifier name) slots)) {i j : Nat} {d e : Declaration}
    (hd : (firstDeclarations [] (declarations t))[i]? = some d)
    (he : (firstDeclarations [] (declarations t'))[j]? = some e) (hkey : e.key = d.key) :
    (occurrenceAt t' p name).binding = some j ↔ (occurrenceAt t p name).binding = some i := by
  unfold occurrenceAt
  rw [h.scopesAround_eq hget]
  exact ⟨resolve?_of_subset (fun f => (h.declared_iff hc).mpr) he hd hkey.symm,
    resolve?_of_subset (fun f => (h.declared_iff hc).mp) hd he hkey⟩

/-- **A constant binding of the new tree was constant before**, at the same declaration, and its
references were references before. -/
theorem exists_binding {b' : Binding} (hb' : b' ∈ (analyze t').bindings)
    (hconst : b'.constant = true) : ∃ (i : Nat) (b : Binding),
      (analyze t).bindings[i]? = some b ∧ b.constant = true ∧ b.place = b'.place ∧
        b.kind = b'.kind ∧ ∀ p ∈ b'.references, p ∈ b.references := by
  obtain ⟨j, d, hd, rfl⟩ := mem_bindings_iff.mp hb'
  have hmem := (h.declared_iff hc).mp (mem_of_mem_firstDeclarations (List.mem_of_getElem? hd)).1
  have honly : ∀ f ∈ declarations t, f.key = d.key → f = d := fun f hf hkey =>
    eq_first_of_constant (List.mem_of_getElem? hd) hconst ((h.declared_iff hc).mpr hf) hkey
  obtain ⟨e, he, hkey⟩ := exists_first_of_mem hmem
  obtain ⟨i, hi⟩ := List.mem_iff_getElem?.mp he
  obtain rfl := honly e (mem_of_mem_firstDeclarations he).1 hkey
  have hget := getElem?_bindings t i
  rw [hi, Option.map_some] at hget
  -- what violates the binding in the old tree stays, and violates it in the new one
  have hconst₀ : (bindingOf (declarations t) (analyze t).occurrences e i).constant = true := by
    refine Classical.byContradiction fun hnot => ?_
    obtain ⟨r, hr⟩ := List.exists_mem_of_ne_nil _ fun hnil => hnot (List.isEmpty_iff.mpr hnil)
    rcases mem_violations_iff.mp hr with ⟨f, hf, -⟩ | ⟨word, hocc, hbinding, hwrites⟩
    · rw [further_eq_nil (nodup_declarations t) he honly] at hf
      cases hf
    · obtain ⟨slots, hname⟩ := hocc.get
      have hleft := h.get?_of_free hc hname fun k b hb => by
        obtain ⟨hnumber, hk⟩ := bindingFor?_eq_some.mp hb
        rw [bindingNumber?_of_occurs hocc, hbinding] at hnumber
        cases hnumber
        rw [hget] at hk
        cases hk
        exact Bool.eq_false_iff.mpr hnot
      obtain ⟨kept, hembeds, hid⟩ := h.embeds
      exact Binding.not_mem_violations hconst r (mem_violations_iff.mpr (Or.inr ⟨word,
        (h.occurs_iff hleft).mpr hocc, (h.binding_iff hc hleft hi hd rfl).mpr hbinding,
        hembeds.writes_of_map hleft (hid _ _ _ hleft) hwrites⟩))
  refine ⟨i, _, hget, hconst₀, rfl, rfl, fun p hp => ?_⟩
  obtain ⟨name, hocc', hbinding', -⟩ := mem_references_iff.mp hp
  obtain ⟨slots, hleft⟩ := hocc'.get
  have hocc := (h.occurs_iff hleft).mp hocc'
  have hbinding := (h.binding_iff hc hleft hi hd rfl).mp hbinding'
  refine mem_references_iff.mpr ⟨name, hocc, hbinding, ?_⟩
  exact (reads_or_writes _).resolve_right fun hwrites => Binding.not_mem_violations hconst₀ p
    (mem_violations_iff.mpr (Or.inr ⟨name, hocc, hbinding, hwrites⟩))

end

end InlineFrame

end Descramble

import Descramble.Proofs.Pass.Frame
import Descramble.Proofs.Run.Settled

/-!
# Chains of constants

A constant may be initialized by another one, and that one by a third.  The references of a binding
are replaced in its turn, by the initial value that it has then.  The turns go by the order of the
declarations, and so an initial value that is a literal in the end has been one in time: what would
have changed it later is a reference in front of the declarator that it refers to.

* `eq_of_declared_inside` — a declarator with a literal declares one name, and nothing inside it does.
* `init?_atTurn` — an initial value that is a literal in the end is one when the turn comes.
* `StandsFor` — the literal that a chain of constants ends in.
* `StandsFor.inlined` — one pass replaces what refers to the chain, however long it is.
* `inlineConstants_again` — a second pass does nothing.
-/

set_option autoImplicit false

namespace Descramble

/-! ## Declarators with literals -/

theorem not_isEvaluable_of_binds {p k : Kind} {shape : List Bool} {s : Step} {home : Home}
    {kind : BindingKind} (h : bindsBy p k shape s = some (home, kind)) : k.isEvaluable = false := by
  rcases bindsBy_cases h with ⟨-, hk | rfl⟩ | ⟨-, hk, -⟩ | ⟨rfl, -⟩
  · cases k <;> first | rfl | cases hk
  · rfl
  · cases k <;> first | rfl | cases hk
  · rfl

/-- A declarator with a literal declares one name, and nothing inside it declares another. -/
theorem eq_of_declared_inside {u init : Node} (hc : u.conforms = true) {b : Binding}
    (hinit : b.init? u = some init) (hlike : init.isLiteralLike = true) {d e : Declaration}
    (hd : d ∈ declarations u) (hplace : d.place = b.place) (he : e ∈ declarations u)
    (hinside : b.place <+: e.place) : e = d := by
  obtain ⟨rest, hrest⟩ := hinside
  obtain ⟨above, last, parent, node, s, home, hdec⟩ := mem_declarations_iff.mp he
  have hget : u.get? (b.place ++ rest) = some node := by rw [hrest, hdec.place_eq, hdec.get_node]
  have hkind := not_isEvaluable_of_binds hdec.binds
  rcases below_init? hc hinit hlike hget with ⟨rfl, -⟩ | ⟨-, _, hk⟩ | ⟨_, _, _, hk⟩ | ⟨_, _, hk⟩
  · rw [List.append_nil] at hrest
    refine eq_of_name_place he hd ?_
    rw [name_place_of_init? hd hplace hinit, name_place_of_init? he hrest.symm hinit]
  all_goals
    rw [hk] at hkind
    cases hkind

section
variable {t : Node} {i : Nat} {b c : Binding}

/-- The declarator of a later binding does not come before that of an earlier one. -/
theorem not_before_of_later (hb : (analyze t).bindings[i]? = some b)
    (hcb : c ∈ (analyze t).bindings.drop (i + 1)) : c.place.before b.place = false := by
  have hsorted := pairwise_bindings t
  rw [← bindings_split hb, List.pairwise_append, List.pairwise_cons] at hsorted
  have hle := hsorted.2.1.1 c hcb
  refine Bool.eq_false_iff.mpr fun hbefore => ?_
  obtain ⟨n, hn⟩ := exists_get?_of_mem_bindings (List.mem_of_mem_drop hcb)
  obtain ⟨m, hm⟩ := exists_get?_of_mem_bindings (List.mem_of_getElem? hb)
  have hlt := walkOrder_lt_of_before (Node.mem_places_iff.mpr ⟨n, hn⟩)
    (Node.mem_places_iff.mpr ⟨m, hm⟩) hbefore
  omega

/-- Two bindings have different first declarations. -/
theorem ne_of_later {d e : Declaration} (hb : (analyze t).bindings[i]? = some b)
    (hcb : c ∈ (analyze t).bindings.drop (i + 1)) (hdb : d.key = b.key) (hec : e.key = c.key) : e ≠ d := by
  rintro rfl
  obtain ⟨k, hk⟩ := List.mem_iff_getElem?.mp hcb
  rw [List.getElem?_drop, getElem?_bindings] at hk
  rw [getElem?_bindings] at hb
  obtain ⟨f, hf, rfl⟩ := Option.map_eq_some_iff.mp hb
  obtain ⟨g, hg, rfl⟩ := Option.map_eq_some_iff.mp hk
  have := first_eq_of_key_eq hf hg (hdb.symm.trans hec)
  omega

/-- A declarator does not stand in the place of a literal. -/
theorem InlineStep.not_above {a : Analysis} {r : Revision} {q : Position} {literal m : Node}
    (hs : InlineStep a r.tree c q literal) (hm : b.init? (inlineAt literal r q).tree = some m) :
    ¬ q <+: b.place := by
  rintro ⟨rest, hrest⟩
  obtain ⟨name, slots, hdecl⟩ := Binding.init?_eq_some hm
  obtain ⟨word, hget⟩ := hs.invariant.isBare hs.referring
  rw [← hrest, Node.get?_append, get?_inlineAt_self literal hget, Option.bind_some] at hdecl
  have hwritten := isWritten_copyLiteral (isLiteralLike_of_inlinedLiteral? hs.literal)
  rcases hwritten.isNameless rest _ hdecl with ⟨_, _, _, hk⟩ | ⟨_, _, hk⟩ <;> cases hk

/-! ## The turns -/

/-- What each replacement keeps holds at every turn. -/
theorem atTurn_induction {P : Node → Prop} (hroot : ∃ source, t.kind = .program source)
    (hc : t.conforms = true) (hP : P t)
    (hstep : ∀ r b q literal, InlineStep (analyze t) r.tree b q literal → P r.tree →
      P (inlineAt literal r q).tree) (i : Nat) :
    InlineInvariant (analyze t) (atTurn t i).tree ∧ P (atTurn t i).tree ∧
      ∀ c ∈ (analyze t).bindings.drop i, ∀ q ∈ c.references,
        Referring (analyze t) (atTurn t i).tree c q := by
  have hmem : ∀ {c}, c ∈ (analyze t).bindings.take i → c ∈ (analyze t).bindings := List.mem_of_mem_take
  have hdisjoint := pairwise_references t
  obtain ⟨hinv, hP', hrefs⟩ := InlineInvariant.induction (P := P) (r := ⟨t, 0⟩)
    ⟨hroot, hc, Agrees.refl t (analyze t)⟩ (hdisjoint.sublist (List.take_sublist i _))
    (fun b hb => nodup_references (hmem hb)) (fun b hb q hq => referring_of_mem (hmem hb) hq)
    (fun b _ r q literal => hstep r b q literal) hP
  refine ⟨hinv, hP', fun c hcd q hq => hrefs c q (fun b hbt hqb => ?_)
    (referring_of_mem (List.mem_of_mem_drop hcd) hq)⟩
  rw [← List.take_append_drop i (analyze t).bindings, List.pairwise_append] at hdisjoint
  exact hdisjoint.2.2 b hbt c hcd q hqb hq

theorem inlinedRevision_eq_atTurn (t : Node) :
    inlinedRevision t = atTurn t (analyze t).bindings.length := by
  rw [inlinedRevision_eq_foldl t (analyze t).bindings.length, List.drop_length, List.foldl_nil]

/-! ## Initial values -/

variable (hroot : ∃ source, t.kind = .program source) (hc : t.conforms = true)
include hroot hc

/-- At every turn nothing but references of constant bindings has been replaced. -/
theorem inlineFrame_atTurn (i : Nat) : InlineFrame (atTurn t i).tree t :=
  (atTurn_induction (P := fun u => InlineFrame u t) hroot hc (.refl t)
    (fun _ _ _ _ hs hF => hF.inlineAt hs) i).2.1

theorem inlineFrame_inlined : InlineFrame (inlinedRevision t).tree t := by
  rw [inlinedRevision_eq_atTurn]
  exact inlineFrame_atTurn hroot hc _

omit hroot in
/-- What is replaced for a later binding does not stand in a declarator that has a literal then. -/
theorem not_inside_of_later {r : Revision} (hF : InlineFrame r.tree t)
    (hb : (analyze t).bindings[i]? = some b) (hcb : c ∈ (analyze t).bindings.drop (i + 1))
    {q : Position} {literal : Node} (hs : InlineStep (analyze t) r.tree c q literal) {m : Node}
    (hm : b.init? (inlineAt literal r q).tree = some m) (hlike : m.isLiteralLike = true) :
    ¬ b.place <+: q := by
  intro hbq
  have hbmem := List.mem_of_getElem? hb
  have hcmem := List.mem_of_mem_drop hcb
  obtain ⟨n, hn⟩ := exists_get?_of_mem_bindings hcmem
  obtain ⟨k, hk⟩ := exists_get?_of_mem_bindings hbmem
  -- outside, the declarator of the later binding would stand behind all of this one
  have hinside : b.place <+: c.place := by
    refine Classical.byContradiction fun hnot => ?_
    have hbehind := (Node.isBehind_iff hn hk (List.prefix_refl _) (not_before_of_later hb hcb)).mpr hnot
    have hbefore := hs.not_before
    rw [hbehind q hbq] at hbefore
    cases hbefore
  obtain ⟨d, hd, hdkey, hdplace, -⟩ := exists_declares_of_mem_bindings hbmem
  obtain ⟨e, he, hekey, heplace, -⟩ := exists_declares_of_mem_bindings hcmem
  have hliteral := isLiteralLike_of_inlinedLiteral? hs.literal
  have hconforms := (hs.invariant.inlineAt hs.referring hliteral).conforms
  have hF' := hF.inlineAt hs
  exact ne_of_later hb hcb hdkey hekey (eq_of_declared_inside hconforms hm hlike
    ((hF'.declared_iff hc).mpr hd) hdplace ((hF'.declared_iff hc).mpr he) (heplace ▸ hinside))

omit hroot in
/-- From the turn of a binding on, no replacement makes a literal of its initial value.  A reference
in its declarator is one of a binding declared earlier, or it comes before its own declarator. -/
theorem init?_of_inlineAt {r : Revision} (hF : InlineFrame r.tree t)
    (hb : (analyze t).bindings[i]? = some b) (hcd : c ∈ (analyze t).bindings.drop i) {q : Position}
    {literal : Node} (hs : InlineStep (analyze t) r.tree c q literal) {m : Node}
    (hm : b.init? (inlineAt literal r q).tree = some m) (hlike : m.isLiteralLike = true) :
    b.init? r.tree = some m := by
  obtain ⟨hi, hbi⟩ := List.getElem?_eq_some_iff.mp hb
  rw [List.drop_eq_getElem_cons hi, hbi, List.mem_cons] at hcd
  rcases hcd with rfl | hcb
  · -- its own references are not in its declarator
    obtain ⟨-, -, hinit, -⟩ := inlinedLiteral?_eq_some.mp hs.literal
    obtain ⟨-, -, hinit', -⟩ :=
      inlinedLiteral?_eq_some.mp (hs.invariant.inlinedLiteral? hs.referring hs.literal)
    rw [hinit, ← hinit', hm]
  · have hin := not_inside_of_later hc hF hb hcb hs hm hlike
    rw [← hm, Binding.init?, Binding.init?, get?_inlineAt_of_beside literal r (hs.not_above hm) hin]

/-- **An initial value that is a literal in the end** is one when the turn of the binding comes. -/
theorem init?_atTurn (hb : (analyze t).bindings[i]? = some b) {m : Node}
    (hm : b.init? (inlinedRevision t).tree = some m) (hlike : m.isLiteralLike = true) :
    b.init? (atTurn t i).tree = some m := by
  obtain ⟨hinv, -, hrefs⟩ := atTurn_induction (P := fun _ => True) hroot hc trivial
    (fun _ _ _ _ _ h => h) i
  rw [inlinedRevision_eq_foldl t i] at hm
  obtain ⟨-, ⟨-, hback⟩, -⟩ := hinv.induction
    (P := fun u => InlineFrame u t ∧ (b.init? u = some m → b.init? (atTurn t i).tree = some m))
    ((pairwise_references t).sublist (List.drop_sublist i _))
    (fun c hcd => nodup_references (List.mem_of_mem_drop hcd)) hrefs
    (fun c hcd r q literal hs ⟨hF, hback⟩ => ⟨hF.inlineAt hs, fun hm' =>
      hback (init?_of_inlineAt hc hF hb hcd hs hm' hlike)⟩)
    ⟨inlineFrame_atTurn hroot hc i, id⟩
  exact hback hm

/-- **What refers to a binding that has a literal in the end** has a copy of it, unless it comes before
the declarator. -/
theorem get?_inlined_of_init? (hb : b ∈ (analyze t).bindings) (hvar : b.kind.isVariable = true)
    (hconst : b.constant = true) {m : Node} (hm : b.init? (inlinedRevision t).tree = some m)
    (hlike : m.isLiteralLike = true) {p : Position} (hp : p ∈ b.references)
    (hbefore : p.before b.place = false) :
    (inlinedRevision t).tree.get? p = some m.copyLiteral := by
  obtain ⟨i, hi⟩ := List.mem_iff_getElem?.mp hb
  have hlit := inlinedLiteral?_eq_some.mpr ⟨hvar, hconst, init?_atTurn hroot hc hi hm hlike, hlike⟩
  obtain ⟨hturn, -⟩ := pending_atTurn hc hi
  have hmem : p ∈ inlinedPlaces (atTurn t i).tree b :=
    mem_inlinedPlaces.mpr ⟨by rw [hlit]; rfl, hp, hbefore⟩
  obtain ⟨literal, hlit', hget⟩ := get?_inlineBinding_of_mem (hturn.nodup b List.mem_cons_self)
    (hturn.bare b List.mem_cons_self) hmem
  rw [hlit] at hlit'
  cases hlit'
  exact get?_inlinedRevision hc hi hp (isWritten_copyLiteral hlike).isNameless.holdsNoNames hget

/-! ## A second pass -/

/-- **After a pass no reference can be inlined.** -/
theorem inlinedPlaces_inlined (hb : b ∈ (analyze (inlinedRevision t).tree).bindings) :
    inlinedPlaces (inlinedRevision t).tree b = [] := by
  refine List.eq_nil_iff_forall_not_mem.mpr fun p hp => ?_
  obtain ⟨hsome, hp, hbefore⟩ := mem_inlinedPlaces.mp hp
  obtain ⟨m, hlit⟩ := Option.isSome_iff_exists.mp hsome
  obtain ⟨hvar, hconst, hm, hlike⟩ := inlinedLiteral?_eq_some.mp hlit
  obtain ⟨i, b₀, hb₀, hconst₀, hplace, hkind, hrefs⟩ :=
    (inlineFrame_inlined hroot hc).exists_binding hc hb hconst
  have hm₀ : b₀.init? (inlinedRevision t).tree = some m := by
    rw [← hm, Binding.init?, Binding.init?, hplace]
  have hcopy := get?_inlined_of_init? hroot hc (List.mem_of_getElem? hb₀) (by rw [hkind, hvar]) hconst₀
    hm₀ hlike (hrefs p hp) (by rw [hplace, hbefore])
  -- a reference is an identifier
  obtain ⟨name, hocc⟩ := occurs_of_mem_references hb hp
  obtain ⟨slots, hget⟩ := hocc.get
  rw [hcopy] at hget
  rcases isWritten_copyLiteral hlike with ⟨_, _, h⟩ | ⟨_, _, h⟩ <;>
    · rw [h] at hget
      cases hget

end

/-- Bindings without references that can be inlined leave a tree as it is. -/
theorem foldl_inlineBinding_idle : ∀ {bs : List Binding} {r : Revision},
    (∀ b ∈ bs, inlinedPlaces r.tree b = []) → bs.foldl inlineBinding r = r
  | [], _, _ => rfl
  | b :: bs, r, h => by
      have hidle : inlineBinding r b = r := by
        rw [inlineBinding_eq, h b List.mem_cons_self, List.foldl_nil]
      rw [List.foldl_cons, hidle]
      exact foldl_inlineBinding_idle fun c hc => h c (List.mem_cons_of_mem _ hc)

/-! ## Chains -/

/-- A variable that is declared once and never written. -/
structure IsConstantVariable (t : Node) (b : Binding) : Prop where
  mem : b ∈ (analyze t).bindings
  isVariable : b.kind.isVariable = true
  constant : b.constant = true

/-- A place holds a reference of a binding, and the walk does not reach it before the declarator. -/
structure RefersBack (b : Binding) (p : Position) : Prop where
  mem : p ∈ b.references
  not_before : p.before b.place = false

/-- **The literal that a binding stands for.**  It is its initial value, or what another binding stands
for that the initial value refers to, or the negation of such a number. -/
inductive StandsFor (t : Node) : Binding → Node → Prop
  | literal {b : Binding} {m : Node} (hb : IsConstantVariable t b) (hinit : b.init? t = some m)
      (hlike : m.isLiteralLike = true) : StandsFor t b m
  | copy {b c : Binding} {m : Node} {name : String} (hb : IsConstantVariable t b)
      (hinit : b.init? t = some (.ident name)) (hc : RefersBack c b.initPlace)
      (hm : StandsFor t c m) : StandsFor t b m.copyLiteral
  | negated {b c : Binding} {m : Node} {name : String} {leading : Bool}
      (hb : IsConstantVariable t b)
      (hinit : b.init? t = some (.unary1 (.unary "-" leading) (.ident name)))
      (hc : RefersBack c (b.initPlace ++ [first])) (hm : StandsFor t c m)
      (hnumber : m.isNumberLiteral = true) :
      StandsFor t b (.unary1 (.unary "-" leading) m.copyLiteral)

theorem isLiteralLike_of_isWritten {m : Node} (h : m.IsWritten) : m.isLiteralLike = true := by
  rcases h with ⟨value, raw, rfl⟩ | ⟨n, raw, rfl⟩ <;> rfl

theorem isNumberLiteral_copyLiteral {m : Node} (h : m.isNumberLiteral = true) :
    m.copyLiteral.isNumberLiteral = true := by
  obtain ⟨k, raw, regex, slots, rfl⟩ := number_of_isNumberLiteral h
  rfl

theorem StandsFor.isLiteralLike {t : Node} {b : Binding} {m : Node} (h : StandsFor t b m) :
    m.isLiteralLike = true := by
  induction h with
  | literal _ _ hlike => exact hlike
  | copy _ _ _ _ ih => exact isLiteralLike_of_isWritten (isWritten_copyLiteral ih)
  | negated _ _ _ _ hnumber => exact isNumberLiteral_copyLiteral hnumber

section
variable {t : Node} {b : Binding} (hroot : ∃ source, t.kind = .program source)
  (hc : t.conforms = true)
include hroot hc

/-- What has come to stand in the place of an initial value is the initial value. -/
theorem init?_inlined (hb : b ∈ (analyze t).bindings) {init m : Node} (hinit : b.init? t = some init)
    (hm : (inlinedRevision t).tree.get? b.initPlace = some m) :
    b.init? (inlinedRevision t).tree = some m := by
  have hF := inlineFrame_inlined hroot hc
  obtain ⟨d, hd, -, hplace, -⟩ := exists_declares_of_mem_bindings hb
  obtain ⟨above, last, parent, node, s, home, hdec⟩ :=
    mem_declarations_iff.mp ((hF.declared_iff hc).mpr hd)
  obtain ⟨nslots, hname⟩ := hdec.get_name
  obtain ⟨name, slots, hdecl⟩ := Binding.init?_eq_some hinit
  obtain ⟨⟨k, slots'⟩, hget, hview⟩ := hF.node _ _ hdecl (by simp)
  simp only [Node.valueView, Node.kind_mk, Prod.mk.injEq] at hview
  obtain ⟨hk, hskeleton⟩ := hview
  cases Kind.eq_of_nameForm hk (by simp)
  rw [name_place_of_init? hd hplace hinit] at hname
  exact Binding.init?_of_places hget hskeleton hname hm

/-- **A constant whose initial value has become a literal** is replaced by it where the declarator has
been reached. -/
theorem replaced_of_get?_initPlace (hb : IsConstantVariable t b) {init m : Node}
    (hinit : b.init? t = some init) (hlike : m.isLiteralLike = true)
    (hm : (inlinedRevision t).tree.get? b.initPlace = some m) :
    b.init? (inlinedRevision t).tree = some m ∧
      ∀ p, RefersBack b p → (inlinedRevision t).tree.get? p = some m.copyLiteral := by
  have hinit' := init?_inlined hroot hc hb.mem hinit hm
  exact ⟨hinit', fun p hp => get?_inlined_of_init? hroot hc hb.mem hb.isVariable hb.constant hinit'
    hlike hp.mem hp.not_before⟩

/-- **One pass replaces what refers to a chain**, however long it is. -/
theorem StandsFor.inlined {m : Node} (h : StandsFor t b m) :
    b.init? (inlinedRevision t).tree = some m ∧
      ∀ p, RefersBack b p → (inlinedRevision t).tree.get? p = some m.copyLiteral := by
  induction h with
  | @literal b m hb hinit hlike =>
      have hplace := get?_initPlace hinit
      have hnames := (isNameless_of_isLiteralLike (Node.conforms_of_get? hc hplace) hlike).holdsNoNames
      refine replaced_of_get?_initPlace hroot hc hb hinit hlike ?_
      refine get?_foldl_inlineBinding (r := ⟨t, 0⟩) hnames (pending_bindings hc) hc hplace
        fun c hcb hp => ?_
      -- a reference is an identifier, and no literal
      obtain ⟨name, hget⟩ := (pending_bindings hc).bare c hcb _ hp
      rw [hplace] at hget
      cases hget
      cases hlike
  | copy hb hinit hback hm ih =>
      exact replaced_of_get?_initPlace hroot hc hb hinit
        (isLiteralLike_of_isWritten (isWritten_copyLiteral hm.isLiteralLike)) (ih.2 _ hback)
  | negated hb hinit hback _ hnumber ih =>
      refine replaced_of_get?_initPlace hroot hc hb hinit (isNumberLiteral_copyLiteral hnumber) ?_
      -- the sign stays, and the literal comes below it
      obtain ⟨⟨k, slots⟩, hget, hview⟩ :=
        (inlineFrame_inlined hroot hc).node _ _ (get?_initPlace hinit) (by simp)
      simp only [Node.valueView, Node.kind_mk, Prod.mk.injEq] at hview
      obtain ⟨hk, hskeleton⟩ := hview
      cases Kind.eq_of_nameForm hk (by simp)
      obtain ⟨child, rest, rfl, hrest⟩ := Node.exists_single_of_isList hskeleton
      obtain rfl := List.map_eq_nil_iff.mp hrest
      have hchild := ih.2 _ hback
      rw [Node.get?_concat, hget] at hchild
      cases (show child = _ from hchild)
      exact hget

end

/-- **Inlining is idempotent.**  A second pass replaces nothing, since the first one has replaced what
refers to a chain of constants by the literal that the chain ends in. -/
theorem inlineConstants_again {t : Node} {source : String} (hroot : t.kind = .program source)
    (hc : t.conforms = true) :
    ∃ t' changed, (inlineConstants t).outcome = .ok (t', changed) ∧
      (inlineConstants t').outcome = .ok (t', false) ∧
      ∀ b m, StandsFor t b m →
        b.init? t' = some m ∧ ∀ p, RefersBack b p → t'.get? p = some m.copyLiteral := by
  refine ⟨_, _, inlineConstants_outcome t, ?_, fun b m h => h.inlined ⟨source, hroot⟩ hc⟩
  have hidle : inlinedRevision (inlinedRevision t).tree = ⟨(inlinedRevision t).tree, 0⟩ :=
    foldl_inlineBinding_idle fun b hb => inlinedPlaces_inlined ⟨source, hroot⟩ hc hb
  rw [inlineConstants_outcome, hidle]
  rfl

/-- `var a = 7; var b = a; var c = -b; use(c);` -/
def negatedChain : Node :=
  .programOf "script" [
    .varOf "a" (.lit (.number (.int 7)) "7"),
    .varOf "b" (.ident "a"),
    .varOf "c" (.unary1 (.unary "-" true) (.ident "b")),
    .statementOf (.callOf (.ident "use") [some (.ident "c")])]

/-- One pass brings `-7` into the call, and a second one finds nothing. -/
theorem inlineConstants_again_negatedChain :
    negatedChain.kind = .program "script" ∧ negatedChain.conforms = true ∧
      ∃ t', (inlineConstants negatedChain).outcome = .ok (t', true) ∧
        (inlineConstants t').outcome = .ok (t', false) ∧
        t'.get? [⟨0, some 3⟩, first, ⟨1, some 0⟩] =
          some (.unary1 (.unary "-" true) (.lit (.number (.int 7)) "7")) := by
  have hroot : negatedChain.kind = .program "script" := rfl
  have hc : negatedChain.conforms = true := by decide
  obtain ⟨t', changed, hpass, hagain, hchain⟩ := inlineConstants_again hroot hc
  have hlength : (analyze negatedChain).bindings.length = 3 := rfl
  have ha : StandsFor negatedChain ((analyze negatedChain).bindings[0]) (.lit (.number (.int 7)) "7") :=
    .literal ⟨List.getElem_mem _, rfl, rfl⟩ rfl rfl
  have hb : StandsFor negatedChain ((analyze negatedChain).bindings[1]) (.lit (.number (.int 7)) "7") :=
    .copy ⟨List.getElem_mem _, rfl, rfl⟩ rfl ⟨List.mem_singleton.mpr rfl, rfl⟩ ha
  have hstands : StandsFor negatedChain ((analyze negatedChain).bindings[2])
      (.unary1 (.unary "-" true) (.lit (.number (.int 7)) "7")) :=
    .negated ⟨List.getElem_mem _, rfl, rfl⟩ rfl ⟨List.mem_singleton.mpr rfl, rfl⟩ hb rfl
  have hcall := (hchain _ _ hstands).2 [⟨0, some 3⟩, first, ⟨1, some 0⟩] ⟨List.mem_singleton.mpr rfl, rfl⟩
  cases hpass
  exact ⟨hroot, hc, _, rfl, hagain, hcall⟩

end Descramble

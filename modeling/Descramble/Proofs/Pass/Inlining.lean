import Descramble.Proofs.Evaluation.Replacement
import Descramble.Proofs.Pass.Descent
import Descramble.Proofs.Pass.Reanalysis

/-!
# Inlining keeps known values

Inlining replaces references by literals, against an analysis from before the first replacement; a
literal that it writes may become the initial value of a later binding.  Every place has the value
that it had, under an analysis made afresh.

* `valueOf_copyLiteral` — the copy of a literal has the value of the literal, wherever it stands.
* `Referring` — a reference that is still to be replaced.
* `InlineInvariant` — what holds of the tree all through the pass.
* `InlineInvariant.induction` — what each replacement keeps, the pass keeps.
* `InlineInvariant.replaces` — what is inlined is a replacement that keeps values.
* `inlineConstants_keeps_known` — known values stay known and the same.
-/

set_option autoImplicit false

namespace Descramble

/-! ## Literals and their copies -/

/-- **The copy of a literal has its value**, wherever it stands. -/
theorem valueOf_copyLiteral {literal : Node} (hlike : literal.isLiteralLike = true)
    {env env' : Surroundings} {p p' : Position} {v : Value} (h : valueOf env p literal = .ok v) :
    valueOf env' p' literal.copyLiteral = .ok v := by
  unfold Node.isLiteralLike at hlike
  split at hlike
  · obtain rfl := Option.isNone_iff_eq_none.mp hlike
    rw [valueOf] at h
    rw [Node.copyLiteral, valueOf]
    exact h
  · obtain ⟨k, raw, regex, slots, rfl⟩ := number_of_isNumberLiteral hlike
    cases valueOf_eq_ok_iff.mp h with
    | unary hne hop ha hv =>
        cases valueOf_eq_ok_iff.mp ha with
        | literal hk =>
            cases regex with
            | some pattern => cases hk
            | none =>
                rw [Node.copyLiteral, Node.copyLiteral]
                exact valueOf_eq_ok_iff.mpr
                  (.unary hne hop (valueOf_eq_ok_iff.mpr (.literal hk)) hv)
  · cases hlike

/-- A literal that keeps to its layout holds no names. -/
theorem isNameless_of_isLiteralLike {m : Node} (hc : m.conforms = true)
    (hlike : m.isLiteralLike = true) : m.IsNameless := by
  have hleaf : ∀ {value raw regex slots}, (Node.mk (.literal value raw regex) slots).conforms = true →
      (Node.mk (.literal value raw regex) slots).IsNameless := by
    intro value raw regex slots hc r n hn
    have hfits := Node.conforms_iff.mp hc [] _ rfl
    obtain rfl : slots = [] := by simpa [Kind.slotNames] using Node.skeleton_of_fits hfits
    cases r with
    | nil =>
        cases hn
        exact Or.inl ⟨_, _, _, rfl⟩
    | cons s r =>
        rw [Node.get?_cons, Node.child?_mk, Node.childOfSlots_nil] at hn
        cases hn
  unfold Node.isLiteralLike at hlike
  split at hlike
  · exact hleaf hc
  · obtain ⟨k, raw, regex, slots, rfl⟩ := number_of_isNumberLiteral hlike
    exact isNameless_unary (hleaf (Node.conforms_of_get? (p := [first]) hc rfl)) _ _
  · cases hlike

/-! ## Declarators -/

/-- A declarator of a plain identifier declares it by its first child. -/
theorem name_place_of_init? {t init : Node} {d : Declaration} {b : Binding}
    (hd : d ∈ declarations t) (hplace : d.place = b.place) (hinit : b.init? t = some init) :
    d.name.place = b.place ++ [first] := by
  obtain ⟨above, last, parent, node, s, home, hd⟩ := mem_declarations_iff.mp hd
  unfold Binding.init? at hinit
  split at hinit
  · rename_i hget
    rw [← hplace, hd.place_eq, hd.get_node] at hget
    cases hget
    obtain ⟨rfl, -⟩ := bindsBy_declarator hd.binds
    rw [← hplace, hd.place_eq]
    exact hd.path.eq_of_identifier (by rw [Node.get?_concat, hd.get_node]; rfl)
  · cases hinit

/-- Below a declarator with a literal stand its name and what the literal is made of. -/
theorem below_init? {t init n : Node} (hc : t.conforms = true) {b : Binding}
    (hinit : b.init? t = some init) (hlike : init.isLiteralLike = true) {rest : Position}
    (hget : t.get? (b.place ++ rest) = some n) :
    (rest = [] ∧ n.kind = .variableDeclarator) ∨ (rest = [first] ∧ ∃ name, n.kind = .identifier name) ∨
      (∃ value raw regex, n.kind = .literal value raw regex) ∨
        ∃ operator leading, n.kind = .unary operator leading := by
  obtain ⟨name, slots, hdecl⟩ := Binding.init?_eq_some hinit
  have hconf := Node.conforms_of_get? hc hdecl
  rw [Node.get?_append, hdecl, Option.bind_some] at hget
  match rest, hget with
  | [], hget =>
      cases hget
      exact Or.inl ⟨rfl, rfl⟩
  | [⟨0, none⟩], hget =>
      cases hget
      exact Or.inr (Or.inl ⟨rfl, name, rfl⟩)
  | ⟨0, none⟩ :: s :: rest, hget =>
      obtain rfl := Node.slots_eq_nil (Node.conforms_iff.mp hconf [first] _ rfl)
      cases hget
  | ⟨1, none⟩ :: rest, hget =>
      exact Or.inr (Or.inr (isNameless_of_isLiteralLike
        (Node.conforms_of_get? (p := [second]) hconf rfl) hlike rest _ hget))
  | ⟨0, some _⟩ :: _, hget => cases hget
  | ⟨1, some _⟩ :: _, hget => cases hget
  | ⟨_ + 2, _⟩ :: _, hget => cases hget

/-! ## One reference -/

/-- The reference holds the copy of the literal. -/
theorem get?_inlineAt_self (literal : Node) {r : Revision} {q : Position} {n : Node}
    (hget : r.tree.get? q = some n) :
    (inlineAt literal r q).tree.get? q = some literal.copyLiteral := by
  have hreplaced : ∀ {t : Node} {m : Node}, t.get? q = some m →
      (t.replaceAt q literal.copyLiteral).get? q = some literal.copyLiteral := by
    intro t m hm
    have := Node.get?_replaceAt_append t literal.copyLiteral q []
    rwa [List.append_nil, hm] at this
  rcases List.eq_nil_or_concat q with rfl | ⟨above, last, rfl⟩
  · exact hreplaced hget
  · rw [List.concat_eq_append] at hget hreplaced ⊢
    simp only [inlineAt, Position.parent?_concat, Revision.replace]
    obtain ⟨parent, hparent⟩ := Node.exists_get?_of_prefix hget (List.prefix_append above [last])
    refine hreplaced (m := n) ?_
    rw [Node.get?_modifyAt_append, hparent, Option.bind_some, get?_withoutShorthand]
    rwa [Node.get?_append, hparent] at hget

/-- Neither above nor below the reference anything changes. -/
theorem get?_inlineAt_of_beside (literal : Node) (r : Revision) {q p : Position} (hq : ¬ q <+: p)
    (hp : ¬ p <+: q) : (inlineAt literal r q).tree.get? p = r.tree.get? p := by
  rcases List.eq_nil_or_concat q with rfl | ⟨above, last, rfl⟩
  · exact absurd List.nil_prefix hq
  · rw [List.concat_eq_append] at hq hp ⊢
    simp only [inlineAt, Position.parent?_concat, Revision.replace]
    refine (Node.get?_modifyAt_of_not_prefix _ _ _ p hq hp).trans ?_
    by_cases habove : above <+: p
    · obtain ⟨rest, rfl⟩ := habove
      cases rest with
      | nil => exact absurd ⟨[last], by simp⟩ hp
      | cons s rest =>
          rw [Node.get?_modifyAt_append, Node.get?_append]
          congr 1
          funext m
          exact get?_withoutShorthand m s rest
    · exact Node.get?_modifyAt_of_not_prefix _ _ _ p habove
        fun hp' => hp (hp'.trans (List.prefix_append ..))

/-- Outside the reference nodes keep their children and, but for the spelling of properties, their
kinds. -/
theorem exists_node_inlineAt (literal : Node) {r : Revision} {q p : Position} {n : Node}
    (hq : ¬ q <+: p) (hn : r.tree.get? p = some n) :
    ∃ n', (inlineAt literal r q).tree.get? p = some n' ∧ n'.kind.nameForm = n.kind.nameForm ∧
      n'.shape = n.shape := by
  have hview := @map_view_inlineAt _ (fun n => (n.kind.nameForm, n.shape))
    (by intro g n s; rw [Node.kind_modifyChild, Node.shape_modifyChild])
    (by intro n; unfold withoutShorthand; split <;> rfl) literal r q p hq
  rw [hn, Option.map_some] at hview
  obtain ⟨n', hn', he⟩ := Option.map_eq_some_iff.mp hview
  simp only [Prod.mk.injEq] at he
  exact ⟨n', hn', he.1, he.2⟩

/-! ## The invariant -/

/-- What holds of the tree all through a pass that uses an analysis from before. -/
structure InlineInvariant (a : Analysis) (t : Node) : Prop where
  root : ∃ sourceType, t.kind = .program sourceType
  conforms : t.conforms = true
  agrees : Agrees t a (analyze t)

/-- A reference of a binding that is still to be replaced. -/
structure Referring (a : Analysis) (t : Node) (b : Binding) (q : Position) : Prop where
  occurs : ∃ name, Occurs t q name
  binding : ∃ i, a.bindingFor? q = some (i, b)

/-- What one replacement of the pass finds: a reference of a binding that stands for a literal, and
that the walk does not reach before the declarator. -/
structure InlineStep (a : Analysis) (t : Node) (b : Binding) (q : Position) (literal : Node) :
    Prop where
  invariant : InlineInvariant a t
  referring : Referring a t b q
  literal : inlinedLiteral? t b = some literal
  not_before : q.before b.place = false

/-- What every place of a tree has as its value under an analysis, it has in another tree. -/
def KeepsValues (a : Analysis) (decoder : Option String) (t t' : Node) : Prop :=
  ∀ p n v, t.get? p = some n → valueOf (Context.ofTree t a decoder).surroundings p n = .ok v →
    ∃ n', t'.get? p = some n' ∧ valueOf (Context.ofTree t' a decoder).surroundings p n' = .ok v

theorem KeepsValues.refl (a : Analysis) (decoder : Option String) (t : Node) :
    KeepsValues a decoder t t := fun _ n _ hn hv => ⟨n, hn, hv⟩

theorem KeepsValues.trans {a : Analysis} {decoder : Option String} {t₀ t₁ t₂ : Node}
    (h : KeepsValues a decoder t₀ t₁) (h' : KeepsValues a decoder t₁ t₂) :
    KeepsValues a decoder t₀ t₂ := by
  intro p n v hn hv
  obtain ⟨n₁, hn₁, hv₁⟩ := h p n v hn hv
  exact h' p n₁ v hn₁ hv₁

namespace InlineInvariant

variable {a : Analysis} {r : Revision} {b : Binding} {q : Position} {literal : Node}

theorem isBare (h : InlineInvariant a r.tree) (hq : Referring a r.tree b q) : IsBare r.tree q := by
  obtain ⟨name, hocc⟩ := hq.occurs
  obtain ⟨slots, hget⟩ := hocc.get
  obtain rfl := Node.slots_eq_nil (Node.conforms_iff.mp h.conforms q _ hget)
  exact ⟨name, hget⟩

theorem ne_root (h : InlineInvariant a r.tree) (hq : Referring a r.tree b q) : q ≠ [] := by
  rintro rfl
  obtain ⟨name, hget⟩ := h.isBare hq
  obtain ⟨sourceType, hroot⟩ := h.root
  rw [Node.get?_nil, Option.some.injEq] at hget
  rw [hget] at hroot
  cases hroot

theorem edits (h : InlineInvariant a r.tree) (hq : Referring a r.tree b q)
    (hlike : literal.isLiteralLike = true) :
    Edits q (Descramble.inlineAt literal r q).tree r.tree :=
  edits_inlineAt (h.ne_root hq) (isWritten_copyLiteral hlike).isNameless

/-- A reference is no name of a declaration. -/
theorem namesOutside (h : InlineInvariant a r.tree) (hq : Referring a r.tree b q) :
    NamesOutside r.tree q := by
  intro d hd _ hqd
  obtain ⟨above, last, parent, node, s, home, hdec⟩ := mem_declarations_iff.mp hd
  obtain ⟨slots, hget⟩ := hdec.get_name
  obtain ⟨name, hocc⟩ := hq.occurs
  exact hocc.not_declaring d hd ((h.isBare hq).eq_of_isPrefixOf hget hqd).symm

/-- What is left of the identifiers stands outside the replaced reference. -/
theorem outside (h : InlineInvariant a r.tree) (hq : Referring a r.tree b q)
    (hlike : literal.isLiteralLike = true) {p : Position} {name : String} {slots : List Slot}
    (hget : (Descramble.inlineAt literal r q).tree.get? p = some (.mk (.identifier name) slots)) :
    ¬ q <+: p := by
  rintro ⟨s, rfl⟩
  obtain ⟨n, hn⟩ := h.isBare hq
  rw [Node.get?_append, get?_inlineAt_self literal hn, Option.bind_some] at hget
  rcases (isWritten_copyLiteral hlike).isNameless s _ hget with ⟨_, _, _, hk⟩ | ⟨_, _, hk⟩ <;> cases hk

/-- **One replacement keeps the invariant.** -/
theorem inlineAt (h : InlineInvariant a r.tree) (hq : Referring a r.tree b q)
    (hlike : literal.isLiteralLike = true) :
    InlineInvariant a (Descramble.inlineAt literal r q).tree := by
  have hedits := h.edits hq hlike
  refine ⟨?_, (inlineAt_lt h.conforms hlike (h.isBare hq)).1, ?_⟩
  · obtain ⟨sourceType, hroot⟩ := h.root
    have hne : ¬ q <+: [] := fun hp => h.ne_root hq (List.prefix_nil.mp hp)
    obtain ⟨n', hn', hkind, -⟩ := exists_node_inlineAt literal hne (Node.get?_nil r.tree)
    cases hn'
    exact ⟨sourceType, (Kind.eq_of_nameForm hkind (by simp [hroot])).trans hroot⟩
  · refine h.agrees.trans ?_ (hedits.agrees (h.namesOutside hq) fun p name slots hget =>
      h.outside hq hlike hget)
    exact fun p name slots hget => hedits.identifier hget (h.outside hq hlike hget)

/-- The other references stay. -/
theorem referring (h : InlineInvariant a r.tree) (hq : Referring a r.tree b q)
    (hlike : literal.isLiteralLike = true) {c : Binding} {p : Position}
    (hp : Referring a r.tree c p) (hne : q ≠ p) :
    Referring a (Descramble.inlineAt literal r q).tree c p := by
  obtain ⟨name, hocc⟩ := hp.occurs
  obtain ⟨word, hget⟩ := (h.isBare hq).inlineAt literal (h.isBare hp) hne
  have hout := h.outside hq hlike hget
  obtain ⟨slots, hget₀⟩ := (h.edits hq hlike).identifier hget hout
  obtain rfl := hocc.name_eq_of_get hget₀
  exact ⟨⟨name, ((h.edits hq hlike).occurs_iff hget hout).mpr hocc⟩, hp.binding⟩

/-- No reference stands for the name of a declarator whose value is looked up. -/
theorem ne_name (h : InlineInvariant a r.tree) (hq : Referring a r.tree b q) {p : Position}
    {name : String} {slots : List Slot} {i : Nat} {c : Binding} {init : Node}
    (hget : r.tree.get? p = some (.mk (.identifier name) slots))
    (hc : a.bindingFor? p = some (i, c)) (hconst : c.constant = true)
    (hinit : c.init? r.tree = some init) : q ≠ c.place ++ [first] := by
  obtain ⟨j, c', hc', -, hplace, -⟩ := h.agrees.constant p name slots i c hget hc hconst
  obtain ⟨-, hj⟩ := bindingFor?_eq_some.mp hc'
  obtain ⟨k, d, hd, rfl⟩ := mem_bindings_iff.mp (List.mem_of_getElem? hj)
  have hmem := (mem_of_mem_firstDeclarations (List.mem_of_getElem? hd)).1
  obtain ⟨word, hocc⟩ := hq.occurs
  rintro rfl
  exact hocc.not_declaring d hmem (name_place_of_init? hmem hplace hinit)

/-- A reference does not stand above a declarator. -/
theorem not_above_declarator (h : InlineInvariant a r.tree) (hq : Referring a r.tree b q)
    {c : Binding} {init : Node} (hinit : c.init? r.tree = some init) : ¬ q <+: c.place := by
  intro hqc
  unfold Binding.init? at hinit
  split at hinit
  · rename_i hget
    obtain rfl := (h.isBare hq).eq_of_isPrefixOf hget hqc
    obtain ⟨name, hname⟩ := h.isBare hq
    rw [hget] at hname
    cases hname
  · cases hinit

/-- **The literal of a binding stays its initial value** while its references are replaced. -/
theorem inlinedLiteral? (h : InlineInvariant a r.tree) (hq : Referring a r.tree b q)
    (hlit : Descramble.inlinedLiteral? r.tree b = some literal) :
    Descramble.inlinedLiteral? (Descramble.inlineAt literal r q).tree b = some literal := by
  obtain ⟨hvar, hconst, hinit, hlike⟩ := inlinedLiteral?_eq_some.mp hlit
  obtain ⟨i, hb⟩ := hq.binding
  obtain ⟨name, hget⟩ := h.isBare hq
  have hname := h.ne_name hq hget hb hconst hinit
  have hbeside : ¬ b.place <+: q := by
    rintro ⟨rest, rfl⟩
    rcases below_init? h.conforms hinit hlike hget with
      ⟨rfl, hk⟩ | ⟨rfl, -⟩ | ⟨_, _, _, hk⟩ | ⟨_, _, hk⟩
    · cases hk
    · exact hname rfl
    · cases hk
    · cases hk
  refine inlinedLiteral?_eq_some.mpr ⟨hvar, hconst, ?_, hlike⟩
  rw [← hinit, Binding.init?, Binding.init?,
    get?_inlineAt_of_beside literal r (h.not_above_declarator hq hinit) hbeside]

/-- **What is inlined is a replacement that keeps values.** -/
theorem replaces (h : InlineInvariant a r.tree) (hq : Referring a r.tree b q)
    (hlit : Descramble.inlinedLiteral? r.tree b = some literal) (decoder : Option String) :
    Replaces id r.tree (Descramble.inlineAt literal r q).tree a decoder q literal.copyLiteral := by
  have hlike := isLiteralLike_of_inlinedLiteral? hlit
  obtain ⟨i, hb⟩ := hq.binding
  obtain ⟨word, hget⟩ := h.isBare hq
  obtain ⟨hnumber, -⟩ := bindingFor?_eq_some.mp hb
  have hglobal : a.isGlobal q = false := by
    cases hg : a.isGlobal q with
    | false => rfl
    | true =>
        rw [bindingNumber?_of_isGlobal hg] at hnumber
        cases hnumber
  constructor
  case respects => exact operationsRespect_id
  case node => exact fun p n hp hn => exists_node_inlineAt literal hp hn
  case self => exact get?_inlineAt_self literal hget
  case written => exact isWritten_copyLiteral hlike
  case value =>
    intro n v hn hv env p
    rw [hget] at hn
    cases hn
    refine ⟨v, ?_, rfl⟩
    cases valueOf_eq_ok_iff.mp hv with
    | identifier hname =>
        rcases valueOfBinding_eq_ok.mp hname with ⟨hnone, -⟩ | ⟨j, place, init, hinit, -, -, hv⟩
        · rw [show a.bindingNumber? q = none from hnone] at hnumber
          cases hnumber
        · obtain ⟨c, hc, hcinit, -⟩ := constantInit?_eq_some.mp hinit
          rw [show a.bindingFor? q = some (j, c) from hc] at hb
          cases hb
          obtain ⟨-, -, hbinit, -⟩ := inlinedLiteral?_eq_some.mp hlit
          rw [show b.init? r.tree = some init from hcinit] at hbinit
          cases hbinit
          exact valueOf_copyLiteral hlike hv
  case replaceable =>
    rintro p s n c rfl hn - hc
    rw [hget] at hc
    cases hc
    obtain ⟨name, hocc⟩ := hq.occurs
    refine Or.inr ⟨⟨word, rfl⟩, ?_, hglobal⟩
    have hvalue := hocc.value
    rwa [Position.parent?_concat, Option.bind_some, hn, List.getLast?_concat] at hvalue
  case callee =>
    rintro fuel passed p n v hn hk hv rfl
    rw [Node.get?_concat, hn, Option.bind_some] at hget
    cases valueOf_eq_ok_iff.mp hv with
    | callGlobal _ _ hg =>
        rw [show a.isGlobal (p ++ [first]) = true from hg] at hglobal
        cases hglobal
    | callMember => cases hget
    | callMethod => cases hget
    | _ => cases hk
  case seen =>
    intro p name slots j c init hgetp hc hconst hinit _
    exact ⟨h.not_above_declarator hq hinit, h.ne_name hq hgetp hc hconst hinit⟩

theorem keepsValues (h : InlineInvariant a r.tree) (hq : Referring a r.tree b q)
    (hlit : Descramble.inlinedLiteral? r.tree b = some literal) (decoder : Option String) :
    KeepsValues a decoder r.tree (Descramble.inlineAt literal r q).tree := by
  intro p n v hn hv
  have hout : p.isInside q = false := by
    cases hin : p.isInside q with
    | false => rfl
    | true =>
        obtain ⟨hqp, hne⟩ := Position.isInside_iff.mp hin
        exact absurd ((h.isBare hq).eq_of_isPrefixOf hn hqp) hne
  obtain ⟨n', v', hn', hv', rfl⟩ := (h.replaces hq hlit decoder).valueOf hout hn hv
  exact ⟨n', hn', hv'⟩

/-! ## All references -/

variable {P : Node → Prop}

/-- **Inlining the references of one binding** keeps the invariant, whatever each replacement keeps,
and the references at other places. -/
theorem foldl_inlineAt
    (hstep : ∀ r q literal, InlineStep a r.tree b q literal → P r.tree →
      P (Descramble.inlineAt literal r q).tree) :
    ∀ {places : List Position} {r : Revision}, InlineInvariant a r.tree → places.Nodup →
      (∀ q ∈ places, Referring a r.tree b q ∧ q.before b.place = false) →
      Descramble.inlinedLiteral? r.tree b = some literal → P r.tree →
        InlineInvariant a (places.foldl (Descramble.inlineAt literal) r).tree ∧
        P (places.foldl (Descramble.inlineAt literal) r).tree ∧
        ∀ c p, p ∉ places → Referring a r.tree c p →
          Referring a (places.foldl (Descramble.inlineAt literal) r).tree c p
  | [], r, h, _, _, _, hP => ⟨h, hP, fun _ _ _ hp => hp⟩
  | q :: places, r, h, hnd, hrefs, hlit, hP => by
      obtain ⟨hq, hnd⟩ := List.nodup_cons.mp hnd
      have hlike := isLiteralLike_of_inlinedLiteral? hlit
      obtain ⟨hrefq, hbefore⟩ := hrefs q List.mem_cons_self
      have hstay : ∀ c p, q ≠ p → Referring a r.tree c p →
          Referring a (Descramble.inlineAt literal r q).tree c p :=
        fun c p hne hp => h.referring hrefq hlike hp hne
      obtain ⟨hinv, hP', hrest⟩ := foldl_inlineAt hstep (h.inlineAt hrefq hlike) hnd
        (fun p hp => ⟨hstay b p (fun he => hq (he ▸ hp)) (hrefs p (List.mem_cons_of_mem _ hp)).1,
          (hrefs p (List.mem_cons_of_mem _ hp)).2⟩)
        (h.inlinedLiteral? hrefq hlit) (hstep r q literal ⟨h, hrefq, hlit, hbefore⟩ hP)
      rw [List.foldl_cons]
      refine ⟨hinv, hP', ?_⟩
      intro c p hp href
      rw [List.mem_cons, not_or] at hp
      exact hrest c p hp.2 (hstay c p (Ne.symm hp.1) href)

theorem inlineBinding
    (hstep : ∀ r q literal, InlineStep a r.tree b q literal → P r.tree →
      P (Descramble.inlineAt literal r q).tree)
    (h : InlineInvariant a r.tree) (hnd : b.references.Nodup)
    (hrefs : ∀ q ∈ b.references, Referring a r.tree b q) (hP : P r.tree) :
    InlineInvariant a (Descramble.inlineBinding r b).tree ∧
      P (Descramble.inlineBinding r b).tree ∧
      ∀ c p, p ∉ b.references → Referring a r.tree c p →
        Referring a (Descramble.inlineBinding r b).tree c p := by
  unfold Descramble.inlineBinding
  split
  · rename_i literal hlit
    have hsub := List.filter_sublist (p := fun place => !place.before b.place) (l := b.references)
    obtain ⟨hinv, hP', hrest⟩ := foldl_inlineAt hstep h (hnd.sublist hsub)
      (fun q hq => ⟨hrefs q (hsub.subset hq), by simpa using (List.mem_filter.mp hq).2⟩) hlit hP
    exact ⟨hinv, hP', fun c p hp => hrest c p fun hp' => hp (hsub.subset hp')⟩
  · exact ⟨h, hP, fun _ _ _ hp => hp⟩

/-- **Inlining binding after binding** keeps the invariant and whatever each replacement keeps.  Each
binding is judged in the tree that the ones before it have left. -/
theorem induction : ∀ {bs : List Binding} {r : Revision}, InlineInvariant a r.tree →
    (bs.Pairwise fun b c => ∀ p ∈ b.references, p ∉ c.references) →
    (∀ b ∈ bs, b.references.Nodup) → (∀ b ∈ bs, ∀ q ∈ b.references, Referring a r.tree b q) →
    (∀ b ∈ bs, ∀ r q literal, InlineStep a r.tree b q literal → P r.tree →
      P (Descramble.inlineAt literal r q).tree) → P r.tree →
      InlineInvariant a (bs.foldl Descramble.inlineBinding r).tree ∧
      P (bs.foldl Descramble.inlineBinding r).tree ∧
      ∀ c p, (∀ b ∈ bs, p ∉ b.references) → Referring a r.tree c p →
        Referring a (bs.foldl Descramble.inlineBinding r).tree c p
  | [], r, h, _, _, _, _, hP => ⟨h, hP, fun _ _ _ hp => hp⟩
  | b :: bs, r, h, hdisjoint, hnd, hrefs, hstep, hP => by
      obtain ⟨hhead, htail⟩ := List.pairwise_cons.mp hdisjoint
      obtain ⟨hinv, hP₁, hstay⟩ := inlineBinding (hstep b List.mem_cons_self) h
        (hnd b List.mem_cons_self) (hrefs b List.mem_cons_self) hP
      obtain ⟨hinv', hP', hstay'⟩ := induction hinv htail
        (fun c hc => hnd c (List.mem_cons_of_mem _ hc))
        (fun c hc p hp => hstay c p (fun hp' => hhead c hc p hp' hp)
          (hrefs c (List.mem_cons_of_mem _ hc) p hp))
        (fun c hc => hstep c (List.mem_cons_of_mem _ hc)) hP₁
      refine ⟨hinv', hP', fun c p hp href => ?_⟩
      exact hstay' c p (fun d hd => hp d (List.mem_cons_of_mem _ hd))
        (hstay c p (hp b List.mem_cons_self) href)

/-- **Inlining binding after binding** keeps all values. -/
theorem foldl_inlineBinding (decoder : Option String) {bs : List Binding} {r : Revision}
    (h : InlineInvariant a r.tree)
    (hdisjoint : bs.Pairwise fun b c => ∀ p ∈ b.references, p ∉ c.references)
    (hnd : ∀ b ∈ bs, b.references.Nodup)
    (hrefs : ∀ b ∈ bs, ∀ q ∈ b.references, Referring a r.tree b q) :
    InlineInvariant a (bs.foldl Descramble.inlineBinding r).tree ∧
      KeepsValues a decoder r.tree (bs.foldl Descramble.inlineBinding r).tree := by
  obtain ⟨hinv, hkeeps, -⟩ := h.induction (P := KeepsValues a decoder r.tree) hdisjoint hnd hrefs
    (fun _ _ _ _ _ hs hkeeps => hkeeps.trans (hs.invariant.keepsValues hs.referring hs.literal decoder))
    (.refl a decoder r.tree)
  exact ⟨hinv, hkeeps⟩

end InlineInvariant

theorem referring_of_mem {t : Node} {b : Binding} {q : Position} (hb : b ∈ (analyze t).bindings)
    (hq : q ∈ b.references) : Referring (analyze t) t b q := by
  obtain ⟨i, d, hd, rfl⟩ := mem_bindings_iff.mp hb
  obtain ⟨name, hocc, hbinding, -⟩ := mem_references_iff.mp hq
  refine ⟨⟨name, hocc⟩, i, bindingFor?_eq_some.mpr ⟨?_, ?_⟩⟩
  · rw [bindingNumber?_of_occurs hocc, hbinding]
  · rw [getElem?_bindings, hd, Option.map_some]

/-- **Inlining keeps known values**: the pass returns a tree in which static evaluation, with an
analysis made afresh, finds at every place what it found there before, whatever the decoder is. -/
theorem inlineConstants_keeps_known {t : Node}
    (hroot : ∃ sourceType, t.kind = .program sourceType) (hc : t.conforms = true) :
    ∃ t' changed, (inlineConstants t).outcome = .ok (t', changed) ∧
      ∀ (decoder : Option String) (p : Position) (v : Value),
        (Context.ofTree t (analyze t) decoder).evaluate p = .ok (.known v) →
          (Context.ofTree t' (analyze t') decoder).evaluate p = .ok (.known v) := by
  refine ⟨_, _, rfl, ?_⟩
  intro decoder p v hv
  obtain ⟨n, hn, hvalue, hliteral⟩ := evaluate_eq_known_iff.mp hv
  have hstart : InlineInvariant (analyze t) t := ⟨hroot, hc, Agrees.refl t (analyze t)⟩
  obtain ⟨hinv, hkeeps⟩ := InlineInvariant.foldl_inlineBinding decoder (r := ⟨t, 0⟩) hstart
    (pairwise_references t) (fun _ hb => nodup_references hb) fun _ hb _ hq => referring_of_mem hb hq
  obtain ⟨n', hn', hvalue'⟩ := hkeeps p n v hn hvalue
  exact evaluate_eq_known_iff.mpr ⟨n', hn', hinv.agrees.valueOf hn' hvalue', hliteral⟩

/-- `var s = "ab"; var k = s; use({ k }, k.indexOf("b"));` -/
def chainedConstants : Node :=
  .mk (.program "script") [.many [
    some (.mk (.variableDeclaration .var) [.many [
      some (.declarator (.ident "s") (some (.ofText "ab")))]]),
    some (.mk (.variableDeclaration .var) [.many [
      some (.declarator (.ident "k") (some (.ident "s")))]]),
    some (.mk (.expressionStatement none) [.one (some (.mk .call [.one (some (.ident "use")),
      .many [
        some (.mk .objectExpression [.many [some (.mk (.property false .init false true)
          [.one (some (.ident "k")), .one (some (.ident "k"))])]]),
        some (.mk .call [.one (some (.memberOf false (.ident "k") (.ident "indexOf"))),
          .many [some (.ofText "b")]])]]))])]]

/-- The literal goes from one constant to the other and from there into the object and to the owner
of the method, whose call is still known to give `1`. -/
theorem inlineConstants_keeps_known_chain :
    ∃ t' changed, (inlineConstants chainedConstants).outcome = .ok (t', changed) ∧
      (Context.ofTree t' (analyze t') (some "use")).evaluate
        [⟨0, some 2⟩, first, ⟨1, some 1⟩] = .ok (.known (.number (.int 1))) := by
  have hv : (Context.ofTree chainedConstants (analyze chainedConstants) (some "use")).evaluate
      [⟨0, some 2⟩, first, ⟨1, some 1⟩] = .ok (.known (.number (.int 1))) :=
    eq_of_knownNumber? (by decide +kernel)
  obtain ⟨t', changed, hinline, hkeeps⟩ :=
    inlineConstants_keeps_known (t := chainedConstants) ⟨"script", rfl⟩ (by decide)
  exact ⟨t', changed, hinline, hkeeps _ _ _ hv⟩

end Descramble

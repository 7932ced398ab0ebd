import Descramble.Proofs.Evaluation.Computes
import Descramble.Proofs.Pass.Edit
import Descramble.Proofs.Run.Outcome

/-!
# Names during the passes

Each pass is a chain of edits of expressions, so the names that a tree resolves stay resolved.

* `Inherits` — a tree with declarations in their places whose unresolved names are those of another.
* `Inherits.edit` — one edit of an expression keeps that.
* `isEvaluable_of_valueOf` — only expressions have values.
* `Inherits.foldAt`, `Inherits.resolveAt`, `Inherits.normalizeAt` — what a visit keeps.
* `Inherits.Inlining` — what holds while references are replaced.
* `Inherits.applyPasses` — the four passes keep names resolved.
-/

set_option autoImplicit false

namespace Descramble

/-- The root is a program, declarations stand where they may, and every unresolved name is
unresolved in another tree. -/
structure Inherits (t t₀ : Node) : Prop where
  root : ∃ sourceType, t.kind = .program sourceType
  placed : declarationsPlaced t = true
  unresolved : ∀ name, Unresolved t name → Unresolved t₀ name

namespace Inherits

variable {t' t t₀ : Node} {q : Position}

theorem refl (hroot : ∃ sourceType, t.kind = .program sourceType)
    (hplaced : declarationsPlaced t = true) : Inherits t t := ⟨hroot, hplaced, fun _ h => h⟩

/-- **One edit of an expression** that declares nothing. -/
theorem edit (h : Inherits t t₀) (he : Edits q t' t)
    (hq : ∀ m, t.get? q = some m → m.kind.isEvaluable = true)
    (hname : ∀ d ∈ declarations t, d.name.place ≠ q) : Inherits t' t₀ where
  root := by
    obtain ⟨sourceType, hroot⟩ := h.root
    have ho := he.outline [] (fun hp => he.ne_root (List.prefix_nil.mp hp))
    simp only [Node.get?_nil, Option.map_some, Option.some.injEq, Node.outline,
      Prod.mk.injEq] at ho
    refine ⟨sourceType, ?_⟩
    rw [← hroot]
    exact Kind.eq_of_scopeForm ho.1 (by simp [hroot]) (by simp [hroot])
  placed := he.placed h.placed
  unresolved := fun name hun => h.unresolved name 
    (he.unresolved (Edits.namesOutside h.placed hq hname) hun)

theorem get?_nil_ne (h : Inherits t t₀) {p : Position} {n : Node} (hget : t.get? p = some n)
    (hk : ∀ sourceType, n.kind ≠ .program sourceType) : p ≠ [] := by
  rintro rfl
  cases hget
  obtain ⟨sourceType, hroot⟩ := h.root
  exact hk sourceType hroot

end Inherits

/-! ## Values belong to expressions -/

theorem isEvaluable_of_valueOf {env : Surroundings} {p : Position} {n : Node} {v : Value}
    (h : valueOf env p n = .ok v) : n.kind.isEvaluable = true := by
  cases valueOf_eq_ok_iff.mp h <;> rfl

/-- What it means for the value of an expression to be known. -/
theorem evaluate_eq_known_iff {ctx : Context} {p : Position} {v : Value} :
    ctx.evaluate p = .ok (.known v) ↔
      ∃ n, ctx.tree.get? p = some n ∧ valueOf ctx.surroundings p n = .ok v ∧
        v.isLiteral = .ok true := by
  unfold Context.evaluate
  cases hn : ctx.tree.get? p with
  | none => simp
  | some n =>
      cases hv : valueOf ctx.surroundings p n with
      | error stop => cases stop <;> simp [hv]
      | ok w =>
          simp only [Option.some.injEq, hv, Except.ok.injEq, exists_eq_left']
          cases hw : w.isLiteral with
          | error f =>
              constructor
              · intro h
                cases h
              · rintro ⟨rfl, h⟩
                rw [hw] at h
                cases h
          | ok b =>
              cases b with
              | true =>
                  constructor
                  · intro h
                    cases h
                    exact ⟨rfl, hw⟩
                  · rintro ⟨rfl, -⟩
                    rfl
              | false =>
                  constructor
                  · intro h
                    cases h
                  · rintro ⟨rfl, h⟩
                    rw [hw] at h
                    cases h

/-- The number that an evaluation finds. -/
def knownNumber? : Except Fault Outcome → Option Number
  | .ok (.known (.number n)) => some n
  | _ => none

theorem eq_of_knownNumber? {o : Except Fault Outcome} {n : Number} (h : knownNumber? o = some n) :
    o = .ok (.known (.number n)) := by
  unfold knownNumber? at h
  split at h
  · cases h
    rfl
  · cases h

/-- An expression other than an identifier declares nothing. -/
theorem name_place_ne {t n : Node} {q : Position} (hget : t.get? q = some n)
    (hk : ∀ name, n.kind ≠ .identifier name) : ∀ d ∈ declarations t, d.name.place ≠ q := by
  rintro d hd rfl
  obtain ⟨above, last, parent, node, s, home, hd⟩ := mem_declarations_iff.mp hd
  obtain ⟨slots, hname⟩ := hd.get_name
  rw [hget] at hname
  cases hname
  exact hk _ rfl

/-- The initial value of a declarator declares nothing. -/
theorem init_place_ne {t n : Node} {p : Position} (hget : t.get? p = some n)
    (hk : n.kind = .variableDeclarator) : ∀ d ∈ declarations t, d.name.place ≠ p ++ [second] := by
  intro d hd he
  obtain ⟨above, last, parent, node, s, home, hd⟩ := mem_declarations_iff.mp hd
  have hpath := hd.path
  rw [he] at hpath
  generalize hgen : p ++ [second] = place at hpath
  cases hpath with
  | here =>
      obtain ⟨rfl, hs⟩ := List.append_inj' hgen rfl
      simp only [List.cons.injEq, and_true] at hs
      subst hs
      have hb := hd.binds
      rw [hd.get_node] at hget
      cases hget
      rw [hk] at hb
      cases (bindsBy_declarator hb).1
  | part _ hn hs =>
      obtain ⟨rfl, -⟩ := List.append_inj' hgen rfl
      rw [hget] at hn
      cases hn
      rw [hk] at hs
      cases hs
  | @object r n₁ m s₁ s₂ _ _ _ hm hs =>
      rw [show r ++ [s₁, s₂] = r ++ [s₁] ++ [s₂] by simp] at hgen
      obtain ⟨rfl, -⟩ := List.append_inj' hgen rfl
      rw [hget] at hm
      cases hm
      rw [hk] at hs
      cases hs

/-! ## Passes that visit -/

/-- **What every visit keeps, a pass keeps.** -/
theorem visitEach_induction {visit : Revision → Position → Except Fault Revision}
    {P : Revision → Prop} (step : ∀ r p r', P r → visit r p = .ok r' → P r') :
    ∀ {places : List Position} {r r' : Revision}, P r → visitEach visit places r = .ok r' → P r'
  | [], r, r', h, hv => by
      cases hv
      exact h
  | p :: rest, r, r', h, hv => by
      simp only [visitEach] at hv
      cases hr : visit r p with
      | error f =>
          rw [hr] at hv
          cases hv
      | ok r₁ =>
          rw [hr] at hv
          exact visitEach_induction step (step r p r₁ h hr) hv

/-- Calls, binary expressions and accesses are folded where they stand. -/
def Kind.isFoldable : Kind → Bool
  | .call => true
  | .binary _ => true
  | .member _ => true
  | _ => false

theorem not_identifier_of_isFoldable {k : Kind} (h : k.isFoldable = true) (name : String) :
    k ≠ .identifier name := by
  rintro rfl
  cases h

/-- What a visit folds is a call, a binary expression or an access at its place, or the initial value
of a declarator. -/
theorem foldTarget?_cases {decoder : Option String} {a : Analysis} {t : Node} {p target : Position}
    (h : foldTarget? decoder a t p = some target) :
    (target = p ∧ ∃ n, t.get? p = some n ∧ n.kind.isFoldable = true) ∨
    ∃ id init, t.get? p = some (.mk .variableDeclarator [id, .one (some init)]) ∧
      init.isLiteralLike = false ∧ target = p ++ [second] := by
  unfold foldTarget? at h
  split at h
  · rename_i id init hget
    split at h
    · cases h
    · rename_i hlit
      cases h
      exact Or.inr ⟨id, init, hget, by simpa using hlit, rfl⟩
  · rename_i hget
    split at h
    · cases h
    · cases h
      exact Or.inl ⟨rfl, _, hget, rfl⟩
  · rename_i hget
    cases h
    exact Or.inl ⟨rfl, _, hget, rfl⟩
  · rename_i hget
    split at h
    · cases h
    · cases h
      exact Or.inl ⟨rfl, _, hget, rfl⟩
  · cases h

/-- A visit that folds replaces its target by the literal of a known value. -/
theorem foldAt_cases {decoder : Option String} {a : Analysis} {r r' : Revision} {p : Position}
    (h : foldAt decoder a r p = .ok r') :
    r' = r ∨ ∃ target v m, foldTarget? decoder a r.tree p = some target ∧
      (Context.ofTree r.tree a decoder).evaluate target = .ok (.known v) ∧
      v.literal? = some m ∧ r' = r.replace target m := by
  unfold foldAt at h
  split at h
  · cases h
    exact Or.inl rfl
  · rename_i target htarget
    cases he : (Context.ofTree r.tree a decoder).evaluate target with
    | error f =>
        rw [he] at h
        cases h
    | ok outcome =>
        rw [he] at h
        simp only [bind, Except.bind] at h
        split at h
        · rename_i v
          split at h
          · rename_i m hm
            cases h
            exact Or.inr ⟨target, v, m, htarget, he, hm, rfl⟩
          · cases h
            exact Or.inl rfl
        · cases h
          exact Or.inl rfl

/-- Only calls stand for entries of the table. -/
theorem get?_of_resolvedEntry? {state : RunState} {a : Analysis} {t : Node} {p : Position}
    {entry : String} (h : resolvedEntry? state a t p = .ok (some entry)) :
    ∃ slots, t.get? p = some (.mk .call slots) := by
  unfold resolvedEntry? at h
  split at h
  · rename_i hget
    exact ⟨_, hget⟩
  · cases h

/-- A visit that resolves replaces a call by a text. -/
theorem resolveAt_cases {state : RunState} {a : Analysis} {r r' : Revision} {p : Position}
    (h : resolveAt state a r p = .ok r') :
    r' = r ∨ ∃ entry slots, r.tree.get? p = some (.mk .call slots) ∧
      resolvedEntry? state a r.tree p = .ok (some entry) ∧ r' = r.replace p (.ofText entry) := by
  unfold resolveAt at h
  cases he : resolvedEntry? state a r.tree p with
  | error f =>
      rw [he] at h
      cases h
  | ok entry =>
      rw [he] at h
      cases entry with
      | none =>
          cases h
          exact Or.inl rfl
      | some entry =>
          cases h
          obtain ⟨slots, hget⟩ := get?_of_resolvedEntry? he
          exact Or.inr ⟨entry, slots, hget, rfl, rfl⟩

/-- A visit that gives an access a plain name replaces it. -/
theorem normalizeAt_cases (r : Revision) (p : Position) :
    normalizeAt r p = r ∨ ∃ name n, r.tree.get? p = some n ∧ plainMember? n = some name ∧
      normalizeAt r p = r.replace p (withPlainName name n) := by
  unfold normalizeAt
  split
  · rename_i n hget
    split
    · rename_i name hn
      exact Or.inr ⟨name, n, hget, hn, rfl⟩
    · exact Or.inl rfl
  · exact Or.inl rfl

namespace Inherits

variable {t₀ : Node}

theorem foldAt {decoder : Option String} {a : Analysis} {r r' : Revision} {p : Position}
    (h : Inherits r.tree t₀) (hv : foldAt decoder a r p = .ok r') : Inherits r'.tree t₀ := by
  rcases foldAt_cases hv with rfl | ⟨target, v, m, htarget, he, hm, rfl⟩
  · exact h
  · obtain ⟨n, hn, hvalue, -⟩ := evaluate_eq_known_iff.mp he
    have hk := isEvaluable_of_valueOf hvalue
    have hne : target ≠ [] := by
      refine h.get?_nil_ne hn ?_
      intro sourceType hp
      rw [hp] at hk
      cases hk
    refine h.edit (edits_replaceAt hne (isWritten_literal? hm).isNameless) ?_ ?_
    · intro n' hn'
      have hn : r.tree.get? target = some n := hn
      rw [hn] at hn'
      cases hn'
      exact hk
    · rcases foldTarget?_cases htarget with ⟨rfl, n', hn', hfold⟩ | ⟨id, init, hget, -, rfl⟩
      · exact name_place_ne hn' (not_identifier_of_isFoldable hfold)
      · exact init_place_ne hget rfl

theorem resolveAt {state : RunState} {a : Analysis} {r r' : Revision} {p : Position}
    (h : Inherits r.tree t₀) (hv : resolveAt state a r p = .ok r') : Inherits r'.tree t₀ := by
  rcases resolveAt_cases hv with rfl | ⟨entry, slots, hget, -, rfl⟩
  · exact h
  · have hne : p ≠ [] := h.get?_nil_ne hget (by simp)
    refine h.edit (edits_replaceAt hne (isNameless_lit _ _)) ?_ (name_place_ne hget (by simp))
    intro m hm
    rw [hget] at hm
    cases hm
    rfl

theorem normalizeAt {r : Revision} {p : Position} (h : Inherits r.tree t₀) :
    Inherits (normalizeAt r p).tree t₀ := by
  rcases normalizeAt_cases r p with he | ⟨name, n, hget, hn, he⟩
  · rw [he]
    exact h
  · rw [he]
    have hedit := edits_withPlainName hget hn
    obtain ⟨object, value, raw, regex, slots, rfl⟩ := plainMember?_eq_some hn
    have hprop : r.tree.get? (p ++ [second]) = some (.mk (.literal value raw regex) slots) := by
      rw [Node.get?_concat, hget]
      rfl
    refine h.edit hedit ?_ (name_place_ne hprop (by simp))
    intro m hm
    rw [hprop] at hm
    cases hm
    rfl

/-! ### Inlining -/

/-- What holds while the references of a tree `t₁` are replaced: nothing new is declared, and where
an identifier occurred stands an expression, if anything. -/
structure Inlining (t₁ t₀ t : Node) : Prop where
  inherits : Inherits t t₀
  declared : ∀ d ∈ declarations t, d ∈ declarations t₁
  occurred : ∀ p name, Occurs t₁ p name → ∀ n, t.get? p = some n → n.kind.isEvaluable = true

theorem Inlining.inlineAt {t₁ t₀ literal : Node} {r : Revision} {p : Position} {name : String}
    (h : Inlining t₁ t₀ r.tree) (hlit : literal.isLiteralLike = true) (hocc : Occurs t₁ p name)
    (hne : p ≠ []) : Inlining t₁ t₀ (inlineAt literal r p).tree := by
  have hedit := edits_inlineAt (r := r) hne (isWritten_copyLiteral hlit).isNameless
  refine ⟨h.inherits.edit hedit (h.occurred p name hocc) ?_, ?_, ?_⟩
  · exact fun d hd => hocc.not_declaring d (h.declared d hd)
  · exact fun d hd => h.declared d (hedit.declared hd)
  · intro q name' hocc' n hn
    by_cases hq : p <+: q
    · exact hedit.evaluable q n hq hn
    · obtain ⟨n₀, hn₀, ho⟩ := hedit.exists_node hq hn
      have hk := h.occurred q name' hocc' n₀ hn₀
      simp only [Node.outline, Prod.mk.injEq] at ho
      rcases Kind.scopeForm_cases ho.1 with h | ⟨_, _, h, h'⟩ | ⟨_, _, _, _, _, h, h'⟩
      · rw [← h]
        exact hk
      · rw [h']
        rfl
      · rw [h] at hk
        cases hk

theorem Inlining.inlineBinding {t₁ t₀ : Node} {r : Revision} {b : Binding}
    (h : Inlining t₁ t₀ r.tree)
    (hrefs : ∀ p ∈ b.references, p ≠ [] ∧ ∃ name, Occurs t₁ p name) :
    Inlining t₁ t₀ (inlineBinding r b).tree := by
  unfold Descramble.inlineBinding
  split
  · rename_i literal hlit
    have hlike : literal.isLiteralLike = true := by
      unfold inlinedLiteral? at hlit
      split at hlit
      · exact (Option.filter_eq_some_iff.mp hlit).2
      · cases hlit
    have hrefs' : ∀ p ∈ b.references.filter fun place => !place.before b.place,
        p ≠ [] ∧ ∃ name, Occurs t₁ p name := fun p hp => hrefs p (List.mem_filter.mp hp).1
    clear hlit
    generalize (b.references.filter fun place => !place.before b.place) = places at hrefs'
    induction places generalizing r with
    | nil => exact h
    | cons p rest ih =>
        obtain ⟨hne, name, hocc⟩ := hrefs' p List.mem_cons_self
        exact ih (h.inlineAt hlike hocc hne) fun q hq => hrefs' q (List.mem_cons_of_mem _ hq)
  · exact h

theorem foldl_inlineBinding {t₁ t₀ : Node} : ∀ {bs : List Binding} {r : Revision},
    (∀ b ∈ bs, ∀ p ∈ b.references, p ≠ [] ∧ ∃ name, Occurs t₁ p name) →
      Inlining t₁ t₀ r.tree → Inlining t₁ t₀ (bs.foldl Descramble.inlineBinding r).tree
  | [], _, _, h => h
  | b :: bs, r, hrefs, h => by
      rw [List.foldl_cons]
      refine foldl_inlineBinding ?_ (h.inlineBinding (hrefs b List.mem_cons_self))
      exact fun b' hb' => hrefs b' (List.mem_cons_of_mem _ hb')

theorem inlined {t₁ : Node} (h : Inherits t₁ t₀) : Inherits (inlinedRevision t₁).tree t₀ := by
  have hstart : Inlining t₁ t₀ t₁ := by
    refine ⟨h, fun _ hd => hd, ?_⟩
    intro p name hocc n hn
    obtain ⟨slots, hget⟩ := hocc.get
    rw [hget] at hn
    cases hn
    rfl
  refine (foldl_inlineBinding ?_ hstart).inherits
  intro b hb p hp
  obtain ⟨name, hocc⟩ := occurs_of_mem_references hb hp
  obtain ⟨slots, hget⟩ := hocc.get
  exact ⟨h.get?_nil_ne hget (by simp), name, hocc⟩

/-! ### All passes -/

theorem foldl_normalizeAt : ∀ {places : List Position} {r : Revision}, Inherits r.tree t₀ →
    Inherits (places.foldl Descramble.normalizeAt r).tree t₀
  | [], _, h => h
  | p :: places, r, h => by
      rw [List.foldl_cons]
      exact foldl_normalizeAt h.normalizeAt

/-- **The four passes keep names resolved** and declarations in their places. -/
theorem applyPasses {s : RunState} {t t' : Node} {changes : PassChanges} (h : Inherits t t₀)
    (hp : (applyPasses s t).outcome = .ok (t', changes)) : Inherits t' t₀ := by
  obtain ⟨t₁, t₂, resolved, folded, h₁, h₂, rfl, -⟩ := applyPasses_eq_ok.mp hp
  have hresolved : Inherits t₁ t₀ := by
    rcases resolveCalls_eq_ok.mp h₁ with ⟨-, rfl, -⟩ | ⟨-, r, hr, rfl, -⟩
    · exact h
    · exact visitEach_induction (P := fun r => Inherits r.tree t₀)
        (fun _ _ _ h hv => h.resolveAt hv) h hr
  have hfolded : Inherits t₂ t₀ := by
    obtain ⟨r, hr, rfl, -⟩ := foldConstants_eq_ok.mp h₂
    exact visitEach_induction (P := fun r => Inherits r.tree t₀)
      (fun _ _ _ h hv => h.foldAt hv) hresolved hr
  exact foldl_normalizeAt hfolded.inlined

end Inherits

end Descramble

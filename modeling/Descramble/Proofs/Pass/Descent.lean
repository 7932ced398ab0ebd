import Descramble.Proofs.Evaluation.Computes
import Descramble.Proofs.Pass.Names
import Descramble.Proofs.Tree.Layout
import Descramble.Proofs.Tree.Weight

/-!
# Passes make trees lighter

A pass that changes a tree makes it lighter, so what one pass does no other one undoes.

* `Descends` — a tree is as it was, or lighter.
* `Descends.foldAt`, `Descends.resolveAt`, `Descends.normalizeAt` — what a visit does.
* `Descends.inlined` — what inlining does to a tree that keeps to its layout.
* `Descends.applyPasses` — what the four passes do.
-/

set_option autoImplicit false

namespace Descramble

/-! ## The weight of literals -/

namespace Node

theorem kind_weight_le (n : Node) : n.kind.weight ≤ n.weight := by
  obtain ⟨k, slots⟩ := n
  simp only [weight, kind_mk]
  omega

theorem weight_lit_le (value : Constant) (raw : String) : (Node.lit value raw).weight ≤ 1 := by
  simp only [weight, slotsWeight, Kind.weight]
  split <;> simp_all

theorem IsWritten.weight_le {m : Node} (h : m.IsWritten) : m.weight ≤ 1 := by
  rcases h with ⟨value, raw, rfl⟩ | ⟨n, raw, rfl⟩
  · exact weight_lit_le _ _
  · exact Nat.le_refl _

end Node

/-- An expression with a value weighs something, unless it is a number. -/
theorem one_le_weight {env : Surroundings} {p : Position} {n : Node} {v : Value}
    (h : valueOf env p n = .ok v) (hnumber : n.isNumberLiteral = false) : 1 ≤ n.weight := by
  have hkind := n.kind_weight_le
  cases valueOf_eq_ok_iff.mp h with
  | @literal value raw regex slots v hv =>
      cases regex with
      | some pattern => cases hv
      | none => cases value <;> first | exact hkind | cases hnumber
  | @member computed object property receiver key v hreceiver hkey hv =>
      cases hkey with
      | computed => exact Nat.le_of_succ_le hkind
      | plain =>
          simp only [Node.weight, Node.slotsWeight, Kind.weight]
          omega
  | @unary symbol leading argument op a v hne hop ha hv =>
      refine Nat.le_trans ?_ hkind
      simp only [Node.kind_mk, Kind.weight]
      split <;> first | omega | (rename_i heq; cases heq)
  | _ => exact Nat.le_of_succ_le hkind

/-- **An expression with a value weighs more than a literal**, unless it is one. -/
theorem two_le_weight {env : Surroundings} {p : Position} {n : Node} {v : Value}
    (h : valueOf env p n = .ok v) (hlit : n.isLiteralLike = false) : 2 ≤ n.weight := by
  have hkind := n.kind_weight_le
  cases valueOf_eq_ok_iff.mp h with
  | @literal value raw regex slots v hv =>
      cases regex with
      | some pattern => cases hv
      | none => cases hlit
  | @member computed object property receiver key v hreceiver hkey hv =>
      cases hkey with
      | computed => exact hkind
      | plain =>
          simp only [Node.weight, Node.slotsWeight, Kind.weight]
          omega
  | @unary symbol leading argument op a v hne hop ha hv =>
      by_cases hminus : symbol = "-"
      · -- a negation of something other than a number
        subst hminus
        have := one_le_weight ha hlit
        simp only [Node.weight, Node.slotsWeight, Kind.weight]
        omega
      · refine Nat.le_trans ?_ hkind
        simp only [Node.kind_mk, Kind.weight]
        split <;> simp_all
  | _ => exact hkind

/-- A value that can be written as a literal has one. -/
theorem exists_literal?_of_isLiteral {v : Value} (h : v.isLiteral = .ok true) :
    ∃ m, v.literal? = some m := by
  cases v with
  | text s => exact ⟨_, rfl⟩
  | bool b => exact ⟨_, rfl⟩
  | number n =>
      simp only [Value.isLiteral] at h
      cases hd : n.toDouble with
      | error f =>
          rw [hd] at h
          cases h
      | ok d =>
          rw [hd] at h
          have hfinite : d.isFinite = true := by simpa [bind, Except.bind, pure, Except.pure] using h
          simp only [Value.literal?, Value.constant?, Node.ofConstant, Node.ofNumber, hd, hfinite,
            Bool.not_true, Bool.false_eq_true, if_false]
          cases n with
          | int i => by_cases hi : i < 0 <;> simp [hi]
          | float d' => by_cases hneg : d'.isNegative = true <;> simp [hneg]
  | _ => cases h

/-! ## Visits -/

/-- What a visit folds is no literal yet. -/
theorem isLiteralLike_of_foldTarget? {decoder : Option String} {a : Analysis} {t n : Node}
    {p target : Position} (h : foldTarget? decoder a t p = some target)
    (hn : t.get? target = some n) : n.isLiteralLike = false := by
  rcases foldTarget?_cases h with ⟨rfl, n', hn', hk⟩ | ⟨id, init, hget, hinit, rfl⟩
  · rw [hn] at hn'
    cases hn'
    obtain ⟨k, slots⟩ := n
    cases k <;> first | rfl | cases hk
  · rw [Node.get?_concat, hget] at hn
    cases hn
    exact hinit

/-- A folded expression is lighter. -/
theorem weight_folded_lt {decoder : Option String} {a : Analysis} {t m : Node}
    {p target : Position} {v : Value} (htarget : foldTarget? decoder a t p = some target)
    (he : (Context.ofTree t a decoder).evaluate target = .ok (.known v))
    (hm : v.literal? = some m) : (t.replaceAt target m).weight < t.weight := by
  obtain ⟨n, hn, hv, -⟩ := evaluate_eq_known_iff.mp he
  refine Node.weight_replaceAt_lt hn ?_
  have h₁ := two_le_weight hv (isLiteralLike_of_foldTarget? htarget hn)
  have h₂ := (isWritten_literal? hm).weight_le
  omega

/-- A resolved call is lighter. -/
theorem weight_resolved_lt {t : Node} {p : Position} {slots : List Slot}
    (hget : t.get? p = some (.mk .call slots)) (entry : String) :
    (t.replaceAt p (.ofText entry)).weight < t.weight := by
  refine Node.weight_replaceAt_lt hget ?_
  have h₁ := Node.weight_lit_le (.text entry) (Text.doubleQuoted entry)
  have h₂ := Node.kind_weight_le (.mk .call slots)
  simp only [Node.kind_mk, Kind.weight] at h₂
  simp only [Node.ofText]
  omega

/-- An access with a plain name is lighter. -/
theorem weight_normalized_lt {t n : Node} {p : Position} {name : String}
    (hget : t.get? p = some n) (hn : plainMember? n = some name) :
    (t.replaceAt p (withPlainName name n)).weight < t.weight := by
  refine Node.weight_replaceAt_lt hget ?_
  unfold plainMember? at hn
  split at hn
  · simp only [withPlainName, Node.weight, Node.slotsWeight, Kind.weight]
    omega
  · cases hn

/-- From a tree that keeps to its layout, a step leads to one that does so too, and that is as it was
or lighter. -/
def Descends (t' t : Node) : Prop :=
  t.conforms = true → t'.conforms = true ∧ (t' = t ∨ t'.weight < t.weight)

namespace Descends

variable {t t' t₁ : Node}

theorem refl (t : Node) : Descends t t := fun h => ⟨h, Or.inl rfl⟩

theorem weight_le (h : Descends t' t) (hc : t.conforms = true) : t'.weight ≤ t.weight := by
  rcases (h hc).2 with rfl | h
  · exact Nat.le_refl _
  · exact Nat.le_of_lt h

theorem trans (h : Descends t' t₁) (h' : Descends t₁ t) : Descends t' t := by
  intro hc
  obtain ⟨hc₁, h₁⟩ := h' hc
  refine ⟨(h hc₁).1, ?_⟩
  rcases h₁ with rfl | hlt
  · exact (h hc₁).2
  · exact Or.inr (Nat.lt_of_le_of_lt (h.weight_le hc₁) hlt)

/-- A tree that is as heavy as before is the tree from before. -/
theorem eq_of_weight_le (h : Descends t' t) (hc : t.conforms = true) (hle : t.weight ≤ t'.weight) :
    t' = t := by
  rcases (h hc).2 with rfl | h
  · rfl
  · omega

/-- **Steps that lead back to the start went nowhere.** -/
theorem eq_of_return (h : Descends t t₁) (h' : Descends t₁ t) (hc : t.conforms = true) : t₁ = t :=
  h'.eq_of_weight_le hc (h.weight_le (h' hc).1)

/-- A replacement that makes the tree lighter and keeps to the layout. -/
theorem replaceAt {m : Node} {p : Position} (hlt : (t.replaceAt p m).weight < t.weight)
    (hm : m.conforms = true) : Descends (t.replaceAt p m) t := fun hc =>
  ⟨Node.conforms_modifyAt hc fun _ _ => hm, Or.inr hlt⟩

theorem foldAt {decoder : Option String} {a : Analysis} {r r' : Revision} {p : Position}
    (h : Descramble.foldAt decoder a r p = .ok r') : Descends r'.tree r.tree := by
  rcases foldAt_cases h with rfl | ⟨target, v, m, htarget, he, hm, rfl⟩
  · exact refl _
  · exact replaceAt (weight_folded_lt htarget he hm) (isWritten_literal? hm).conforms

theorem resolveAt {state : RunState} {a : Analysis} {r r' : Revision} {p : Position}
    (h : Descramble.resolveAt state a r p = .ok r') : Descends r'.tree r.tree := by
  rcases resolveAt_cases h with rfl | ⟨entry, slots, hget, -, rfl⟩
  · exact refl _
  · exact replaceAt (weight_resolved_lt hget entry) (Node.conforms_lit _ _)

theorem normalizeAt (r : Revision) (p : Position) :
    Descends (Descramble.normalizeAt r p).tree r.tree := by
  rcases normalizeAt_cases r p with h | ⟨name, n, hget, hn, h⟩
  · rw [h]
    exact refl _
  · rw [h]
    intro hc
    refine replaceAt (weight_normalized_lt hget hn) ?_ hc
    obtain ⟨object, value, raw, regex, slots, rfl⟩ := plainMember?_eq_some hn
    exact Node.conforms_plainMember (Node.conforms_of_get? hc hget) name

end Descends

/-! ## Inlining -/

/-- A name without children stands at the place. -/
def IsBare (t : Node) (p : Position) : Prop := ∃ name, t.get? p = some (.ident name)

/-- Nothing stands below a bare name. -/
theorem IsBare.eq_of_isPrefixOf {t n : Node} {p q : Position} (hp : IsBare t p) (hq : t.get? q = some n)
    (h : p <+: q) : p = q := by
  obtain ⟨r, rfl⟩ := h
  obtain ⟨name, hp⟩ := hp
  rw [Node.get?_append, hp, Option.bind_some] at hq
  cases r with
  | nil => simp
  | cons s r =>
      rw [Node.get?_cons, Node.child?_mk, Node.childOfSlots_nil] at hq
      cases hq

theorem IsBare.not_above {t : Node} {p q : Position} (hp : IsBare t p) (hq : IsBare t q)
    (hne : p ≠ q) : ¬ p <+: q := by
  obtain ⟨name, hq⟩ := hq
  exact fun h => hne (hp.eq_of_isPrefixOf hq h)

/-- Inlining one reference leaves the other names as they are. -/
theorem IsBare.inlineAt {r : Revision} {p q : Position} (literal : Node) (hp : IsBare r.tree p)
    (hq : IsBare r.tree q) (hne : p ≠ q) : IsBare (inlineAt literal r p).tree q := by
  have hview := map_valueView_inlineAt literal r (hp.not_above hq hne)
  obtain ⟨name, hq⟩ := hq
  rw [hq, Option.map_some] at hview
  obtain ⟨⟨k, slots⟩, hn, hnode⟩ := Option.map_eq_some_iff.mp hview
  simp only [Node.valueView, Node.kind_mk, Node.skeleton_mk, Prod.mk.injEq, List.map_nil,
    List.map_eq_nil_iff] at hnode
  obtain ⟨hk, rfl⟩ := hnode
  rcases Kind.nameForm_cases hk with rfl | ⟨_, _, _, _, _, _, h⟩
  · exact ⟨name, hn⟩
  · cases h

theorem weight_withoutShorthand (n : Node) : (withoutShorthand n).weight = n.weight := by
  unfold withoutShorthand
  split <;> rfl

theorem get?_withoutShorthand (n : Node) (s : Step) (p : Position) :
    (withoutShorthand n).get? (s :: p) = n.get? (s :: p) := by
  rw [Node.get?_cons, Node.get?_cons, child?_withoutShorthand]

/-- **Inlining a reference makes the tree lighter.** -/
theorem inlineAt_lt {r : Revision} {p : Position} {literal : Node} (hc : r.tree.conforms = true)
    (hlit : literal.isLiteralLike = true) (hp : IsBare r.tree p) :
    (inlineAt literal r p).tree.conforms = true ∧
      (inlineAt literal r p).tree.weight < r.tree.weight := by
  obtain ⟨name, hget⟩ := hp
  have hwritten := isWritten_copyLiteral hlit
  have hlight : literal.copyLiteral.weight < (Node.ident name).weight :=
    Nat.lt_of_le_of_lt hwritten.weight_le (show 1 < 2 by omega)
  rcases List.eq_nil_or_concat p with rfl | ⟨above, last, rfl⟩
  · exact ⟨Node.conforms_modifyAt hc fun _ _ => hwritten.conforms,
      Node.weight_replaceAt_lt hget hlight⟩
  · rw [List.concat_eq_append] at hget ⊢
    simp only [inlineAt, Position.parent?_concat, Revision.replace]
    obtain ⟨parent, hparent⟩ := Node.exists_get?_of_prefix hget (List.prefix_append above [last])
    have hopened : (r.tree.modifyAt withoutShorthand above).get? (above ++ [last]) =
        some (.ident name) := by
      rw [Node.get?_modifyAt_append, hparent, Option.bind_some, get?_withoutShorthand]
      rwa [Node.get?_append, hparent] at hget
    have hweight := @Node.weight_modifyAt withoutShorthand _ _ _ hparent
    rw [weight_withoutShorthand] at hweight
    have hlt := Node.weight_replaceAt_lt hopened hlight
    refine ⟨Node.conforms_modifyAt ?_ fun _ _ => hwritten.conforms, by omega⟩
    exact Node.conforms_modifyAt hc fun n hn =>
      Node.conforms_withoutShorthand (Node.conforms_of_get? hc hn)


/-- **Inlining references makes the tree lighter by one at least for each**, and leaves the names at
other places. -/
theorem foldl_inlineAt {literal : Node} (hlit : literal.isLiteralLike = true) :
    ∀ {places : List Position} {r : Revision}, places.Nodup → (∀ p ∈ places, IsBare r.tree p) →
      r.tree.conforms = true →
        (places.foldl (inlineAt literal) r).tree.conforms = true ∧
        (places.foldl (inlineAt literal) r).tree.weight + places.length ≤ r.tree.weight ∧
        ∀ q, q ∉ places → IsBare r.tree q → IsBare (places.foldl (inlineAt literal) r).tree q
  | [], r, _, _, hc => ⟨hc, Nat.le_refl _, fun _ _ h => h⟩
  | p :: places, r, hnd, hbare, hc => by
      obtain ⟨hp, hnd⟩ := List.nodup_cons.mp hnd
      have hbare₀ := hbare p List.mem_cons_self
      obtain ⟨hc₁, hlt⟩ := inlineAt_lt hc hlit hbare₀
      have hkeep : ∀ q, p ≠ q → IsBare r.tree q → IsBare (inlineAt literal r p).tree q :=
        fun q hne hq => hbare₀.inlineAt literal hq hne
      obtain ⟨hc₂, hle, hrest⟩ := @foldl_inlineAt literal hlit places (inlineAt literal r p) hnd
        (fun q hq => hkeep q (fun he => hp (he ▸ hq)) (hbare q (List.mem_cons_of_mem _ hq))) hc₁
      rw [List.foldl_cons, List.length_cons]
      refine ⟨hc₂, by omega, ?_⟩
      intro q hq hbare
      rw [List.mem_cons, not_or] at hq
      exact hrest q hq.2 (hkeep q (Ne.symm hq.1) hbare)

/-- The references of a binding that are inlined. -/
def inlinedPlaces (t : Node) (b : Binding) : List Position :=
  if (inlinedLiteral? t b).isSome then b.references.filter fun place => !place.before b.place else []

theorem inlineBinding_eq (r : Revision) (b : Binding) :
    inlineBinding r b =
      (inlinedPlaces r.tree b).foldl (inlineAt ((inlinedLiteral? r.tree b).getD default)) r := by
  unfold inlineBinding inlinedPlaces
  cases inlinedLiteral? r.tree b <;> rfl

theorem inlinedLiteral?_eq_some {t literal : Node} {b : Binding} :
    inlinedLiteral? t b = some literal ↔ b.kind.isVariable = true ∧ b.constant = true ∧
      b.init? t = some literal ∧ literal.isLiteralLike = true := by
  unfold inlinedLiteral?
  split
  · rename_i h
    simp only [Bool.and_eq_true] at h
    simp [h, Option.filter_eq_some_iff]
  · rename_i h
    simp only [Bool.and_eq_true] at h
    simp only [reduceCtorEq, false_iff]
    exact fun hlit => h ⟨hlit.1, hlit.2.1⟩

theorem isLiteralLike_of_inlinedLiteral? {t literal : Node} {b : Binding}
    (h : inlinedLiteral? t b = some literal) : literal.isLiteralLike = true :=
  (inlinedLiteral?_eq_some.mp h).2.2.2

theorem inlinedPlaces_sublist (t : Node) (b : Binding) :
    List.Sublist (inlinedPlaces t b) b.references := by
  unfold inlinedPlaces
  split
  · exact List.filter_sublist
  · exact List.nil_sublist _

theorem inlineBinding_descends {r : Revision} {b : Binding} (hnd : b.references.Nodup)
    (hbare : ∀ p ∈ b.references, IsBare r.tree p) (hc : r.tree.conforms = true) :
    (inlineBinding r b).tree.conforms = true ∧
      (inlineBinding r b).tree.weight + (inlinedPlaces r.tree b).length ≤ r.tree.weight ∧
      ∀ q, q ∉ b.references → IsBare r.tree q → IsBare (inlineBinding r b).tree q := by
  have hsub := inlinedPlaces_sublist r.tree b
  rw [inlineBinding_eq]
  cases hlit : inlinedLiteral? r.tree b with
  | none =>
      have hnone : inlinedPlaces r.tree b = [] := by simp [inlinedPlaces, hlit]
      rw [hnone]
      exact ⟨hc, Nat.le_refl _, fun _ _ h => h⟩
  | some literal =>
      obtain ⟨h₁, h₂, h₃⟩ := @foldl_inlineAt literal (isLiteralLike_of_inlinedLiteral? hlit) _ _
        (hnd.sublist hsub) (fun p hp => hbare p (hsub.subset hp)) hc
      exact ⟨h₁, h₂, fun q hq => h₃ q fun hq' => hq (hsub.subset hq')⟩

/-- The references that are still to be visited are names of their own. -/
structure Pending (t : Node) (bs : List Binding) : Prop where
  disjoint : bs.Pairwise fun b c => ∀ p ∈ b.references, p ∉ c.references
  nodup : ∀ b ∈ bs, b.references.Nodup
  bare : ∀ b ∈ bs, ∀ p ∈ b.references, IsBare t p

theorem Pending.tail {r : Revision} {b : Binding} {bs : List Binding}
    (h : Pending r.tree (b :: bs)) (hc : r.tree.conforms = true) :
    Pending (inlineBinding r b).tree bs := by
  have hb := List.mem_cons_self (a := b) (l := bs)
  obtain ⟨hhead, htail⟩ := List.pairwise_cons.mp h.disjoint
  obtain ⟨-, -, hkeep⟩ := inlineBinding_descends (h.nodup b hb) (h.bare b hb) hc
  refine ⟨htail, fun c hc => h.nodup c (List.mem_cons_of_mem _ hc), ?_⟩
  intro c hc p hp
  exact hkeep p (fun hp' => hhead c hc p hp' hp) (h.bare c (List.mem_cons_of_mem _ hc) p hp)

theorem pending_bindings {t : Node} (hc : t.conforms = true) : Pending t (analyze t).bindings where
  disjoint := pairwise_references t
  nodup := fun _ hb => nodup_references hb
  bare := by
    intro b hb p hp
    obtain ⟨name, hocc⟩ := occurs_of_mem_references hb hp
    obtain ⟨slots, hget⟩ := hocc.get
    obtain rfl := Node.slots_eq_nil (Node.conforms_iff.mp hc p _ hget)
    exact ⟨name, hget⟩

theorem Descends.foldl_inlineBinding : ∀ {bs : List Binding} {r : Revision}, Pending r.tree bs →
    Descends (bs.foldl inlineBinding r).tree r.tree
  | [], _, _ => refl _
  | b :: bs, r, h => by
      intro hc
      rw [List.foldl_cons]
      have hb := List.mem_cons_self (a := b) (l := bs)
      obtain ⟨hc₁, hle, -⟩ := inlineBinding_descends (h.nodup b hb) (h.bare b hb) hc
      have hstep : Descends (inlineBinding r b).tree r.tree := by
        intro _
        refine ⟨hc₁, ?_⟩
        cases hplaces : inlinedPlaces r.tree b with
        | nil =>
            rw [inlineBinding_eq, hplaces]
            exact Or.inl rfl
        | cons p places =>
            rw [hplaces, List.length_cons] at hle
            exact Or.inr (by omega)
      exact ((foldl_inlineBinding (h.tail hc)).trans hstep) hc

theorem Descends.inlined (t : Node) : Descends (inlinedRevision t).tree t :=
  fun hc => foldl_inlineBinding (r := ⟨t, 0⟩) (pending_bindings hc) hc

end Descramble

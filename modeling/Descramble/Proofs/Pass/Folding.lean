import Descramble.Proofs.Evaluation.Literal
import Descramble.Proofs.Evaluation.Replacement
import Descramble.Proofs.Pass.Reanalysis

/-!
# Folding keeps known values

Folding evaluates while it replaces, against an analysis from before the first replacement.  What it
leaves has the values that it had, under an analysis made afresh.

* `foldWrites` — the places that a pass replaces, each with the value that is written there.
* `visitEach_foldAt` — the pass makes these replacements and no others.
* `FoldInvariant` — what holds of the tree all through the pass, since each replacement keeps it
  (`FoldInvariant.replaceAt`, `FoldInvariant.applyAll`).
* `FoldInvariant.replaces` — what a visit folds is a replacement that keeps values.
* `foldConstants_keeps_known` — known values outside the replaced nodes stay known and the same.
-/

set_option autoImplicit false

namespace Descramble

/-! ## What is written -/

/-- A place and the value whose literal is put there. -/
structure Write where
  place : Position
  value : Value

/-- What a visit of a place writes, if anything. -/
def foldWrite? (decoder : Option String) (analysis : Analysis) (tree : Node) (place : Position) :
    Option Write := do
  let target ← foldTarget? decoder analysis tree place
  match (Context.ofTree tree analysis decoder).evaluate target with
  | .ok (.known v) => if v.literal?.isSome then some ⟨target, v⟩ else none
  | _ => none

/-- The tree with a value written at a place. -/
def Write.apply (w : Write) (tree : Node) : Node :=
  match w.value.literal? with
  | some m => tree.replaceAt w.place m
  | none => tree

/-- What visits of places write, one after the other. -/
def writesOf (decoder : Option String) (analysis : Analysis) : List Position → Node → List Write
  | [], _ => []
  | place :: rest, tree =>
    match foldWrite? decoder analysis tree place with
    | some w => w :: writesOf decoder analysis rest (w.apply tree)
    | none => writesOf decoder analysis rest tree

/-- What folding a tree writes. -/
def foldWrites (decoder : Option String) (tree : Node) : List Write :=
  writesOf decoder (analyze tree) tree.places tree

/-- What a visit writes is the known value of what it folds, as a literal. -/
theorem foldWrite?_eq_some {decoder : Option String} {a : Analysis} {t : Node} {p : Position}
    {w : Write} (h : foldWrite? decoder a t p = some w) :
    foldTarget? decoder a t p = some w.place ∧
      (Context.ofTree t a decoder).evaluate w.place = .ok (.known w.value) ∧
        ∃ m, w.value.literal? = some m ∧ w.apply t = t.replaceAt w.place m := by
  unfold foldWrite? at h
  obtain ⟨target, htarget, h⟩ := Option.bind_eq_some_iff.mp h
  split at h
  · rename_i v hv
    split at h
    · rename_i hsome
      cases h
      obtain ⟨m, hm⟩ := Option.isSome_iff_exists.mp hsome
      exact ⟨htarget, hv, m, hm, by rw [Write.apply, hm]⟩
    · cases h
  · cases h

/-- A visit writes what `foldWrite?` says. -/
theorem foldAt_eq_ok {decoder : Option String} {a : Analysis} {r r' : Revision} {p : Position}
    (h : foldAt decoder a r p = .ok r') :
    (foldWrite? decoder a r.tree p = none ∧ r' = r) ∨
      ∃ w, foldWrite? decoder a r.tree p = some w ∧ r' = ⟨w.apply r.tree, r.count + 1⟩ := by
  unfold foldAt at h
  unfold foldWrite?
  cases htarget : foldTarget? decoder a r.tree p with
  | none =>
      rw [htarget] at h
      cases h
      exact Or.inl ⟨rfl, rfl⟩
  | some target =>
      rw [htarget] at h
      simp only at h
      simp only [Option.bind_eq_bind, Option.bind_some]
      cases he : (Context.ofTree r.tree a decoder).evaluate target with
      | error f =>
          rw [he] at h
          cases h
      | ok outcome =>
          rw [he] at h
          cases outcome with
          | known v =>
              cases hm : v.literal? with
              | none =>
                  simp only [bind, Except.bind, hm] at h
                  cases h
                  exact Or.inl ⟨by simp [hm], rfl⟩
              | some m =>
                  simp only [bind, Except.bind, hm] at h
                  cases h
                  refine Or.inr ⟨⟨target, v⟩, by simp [hm], ?_⟩
                  simp only [Revision.replace, Write.apply, hm]
          | unknown =>
              cases h
              exact Or.inl ⟨rfl, rfl⟩
          | sideEffecting =>
              cases h
              exact Or.inl ⟨rfl, rfl⟩

/-- The tree after writes, one after the other. -/
def Write.applyAll (writes : List Write) (tree : Node) : Node :=
  writes.foldl (fun t w => w.apply t) tree

/-- **A pass makes the replacements that are listed**, in their order, and no others. -/
theorem visitEach_foldAt {decoder : Option String} {a : Analysis} :
    ∀ {places : List Position} {r r' : Revision}, visitEach (foldAt decoder a) places r = .ok r' →
      r'.tree = Write.applyAll (writesOf decoder a places r.tree) r.tree ∧
        r'.count = r.count + (writesOf decoder a places r.tree).length
  | [], r, r', h => by
      cases h
      exact ⟨rfl, rfl⟩
  | p :: rest, r, r', h => by
      obtain ⟨r₁, hr₁, h⟩ := bind_eq_ok.mp h
      obtain ⟨htree, hcount⟩ := visitEach_foldAt h
      rcases foldAt_eq_ok hr₁ with ⟨hnone, rfl⟩ | ⟨w, hw, rfl⟩
      · simp only [writesOf, hnone]
        exact ⟨htree, hcount⟩
      · simp only [writesOf, hw, List.length_cons]
        refine ⟨htree, hcount.trans ?_⟩
        simp only
        omega

/-! ## Names declared inside an expression -/

theorem opensScope?_of_isEvaluable (parent : Node) {n : Node} (h : n.kind.isEvaluable = true) :
    opensScope? (some parent) n = none := by
  simp only [opensScope?]
  split <;> first
    | rfl
    | (rename_i hk; rw [hk] at h; cases h)

/-- A scope is opened by the root or by a node that is no expression with a value. -/
theorem isEvaluable_of_mem_scopesAround {t n : Node} {p : Position} (h : t.get? p = some n) :
    ∀ scope ∈ scopesAround t p, scope.place = [] ∨
      ∀ m, t.get? scope.place = some m → m.kind.isEvaluable = false := by
  refine Node.placeInduction ?_ ?_ p n h
  · intro scope hs
    exact Or.inl (List.prefix_nil.mp (prefix_of_mem_scopesAround (Node.get?_nil t) scope hs))
  · intro p s n c hn hc ih scope hs
    rw [scopesAround_concat hn hc, mem_enterScope] at hs
    rcases hs with ⟨hplace, hopens⟩ | hs
    · refine Or.inr fun m hm => ?_
      rw [hplace, Node.get?_concat, hn, Option.bind_some, hc] at hm
      cases hm
      cases hk : c.kind.isEvaluable with
      | false => rfl
      | true =>
          rw [opensScope?_of_isEvaluable n hk] at hopens
          cases hopens
    · exact ih scope hs

/-- **What is declared inside an expression is seen only inside.** -/
theorem isInside_of_bindingFor? {t n : Node} {q p : Position} {i : Nat} {b : Binding}
    (hplaced : declarationsPlaced t = true) (hn : t.get? q = some n)
    (hk : n.kind.isEvaluable = true) (hq : q ≠ [])
    (hb : (analyze t).bindingFor? p = some (i, b)) (hqb : q <+: b.place) : p.isInside q = true := by
  obtain ⟨hnumber, hbi⟩ := bindingFor?_eq_some.mp hb
  obtain ⟨name, hocc, hr⟩ := bindingNumber?_eq_some.mp hnumber
  obtain ⟨slots, hget⟩ := hocc.get
  obtain ⟨inner, scope, outer, d, hsplit, hd, hkey, -⟩ := resolve?_eq_some hr
  rw [getElem?_bindings, hd, Option.map_some, Option.some.injEq] at hbi
  subst hbi
  have hscope : scope ∈ scopesAround t p := by
    have hsplit : scopesAround t p = _ := hsplit
    rw [hsplit]
    simp
  have hplace : d.scope.place = scope.place := congrArg Prod.fst hkey
  have hqs : q <+: scope.place := by
    rw [← hplace]
    refine Edits.scope_below_of_evaluable hplaced ?_
      (mem_of_mem_firstDeclarations (List.mem_of_getElem? hd)).1 hqb
    intro m hm
    rw [hn] at hm
    cases hm
    exact hk
  refine Position.isInside_iff.mpr ⟨hqs.trans (prefix_of_mem_scopesAround hget scope hscope), ?_⟩
  rintro rfl
  -- the scope would be opened by the expression itself
  have heq : scope.place = q :=
    (prefix_of_mem_scopesAround hget scope hscope).eq_of_length_le hqs.length_le
  rcases isEvaluable_of_mem_scopesAround hget scope hscope with hroot | hno
  · exact hq (heq.symm.trans hroot)
  · rw [heq] at hno
    rw [hno n hn] at hk
    cases hk

/-! ## The invariant -/

/-- What holds of the tree all through a pass that uses an analysis from before. -/
structure FoldInvariant (a : Analysis) (t : Node) : Prop where
  root : ∃ sourceType, t.kind = .program sourceType
  placed : declarationsPlaced t = true
  agrees : Agrees t a (analyze t)

namespace FoldInvariant

variable {a : Analysis} {t m : Node} {decoder : Option String} {p q : Position} {v : Value}

/-- What has a known value is an expression below the root. -/
theorem expression (h : FoldInvariant a t)
    (hv : (Context.ofTree t a decoder).evaluate q = .ok (.known v)) :
    ∃ n, t.get? q = some n ∧ valueOf (Context.ofTree t a decoder).surroundings q n = .ok v ∧
      n.kind.isEvaluable = true ∧ q ≠ [] := by
  obtain ⟨n, hn, hvalue, -⟩ := evaluate_eq_known_iff.mp hv
  have hk := isEvaluable_of_valueOf hvalue
  refine ⟨n, hn, hvalue, hk, ?_⟩
  rintro rfl
  obtain ⟨sourceType, hroot⟩ := h.root
  cases hn
  change t.kind.isEvaluable = true at hk
  rw [hroot] at hk
  cases hk

/-- **What a visit folds is a replacement that keeps values.** -/
theorem replaces (h : FoldInvariant a t) (htarget : foldTarget? decoder a t p = some q)
    (hv : (Context.ofTree t a decoder).evaluate q = .ok (.known v)) (hm : v.literal? = some m)
    (hsmall : v.isSmall = true) : Replaces Value.normal t (t.replaceAt q m) a decoder q m := by
  obtain ⟨n, hn, hvalue, hk, hne⟩ := h.expression hv
  refine .of_folded hn hvalue ?_ ?_ (isWritten_literal? hm) ?_
  · exact fun env p => valueOf_literal? env p hm (evaluate_basic hvalue) hsmall
  · rcases foldTarget?_cases htarget with ⟨rfl, n', hn', hfold⟩ | ⟨id, init, hget, -, rfl⟩
    · exact Or.inl ⟨n', hn', hfold⟩
    · exact Or.inr ⟨p, _, rfl, hget, rfl⟩
  · intro r name slots i b hget hb hconst hqb
    obtain ⟨j, b', hb', -, hplace, -⟩ := h.agrees.constant r name slots i b hget hb hconst
    exact isInside_of_bindingFor? h.placed hn hk hne hb' (by rwa [hplace])

/-- **One replacement keeps the invariant.** -/
theorem replaceAt (h : FoldInvariant a t) (htarget : foldTarget? decoder a t p = some q)
    (hv : (Context.ofTree t a decoder).evaluate q = .ok (.known v)) (hm : v.literal? = some m) :
    FoldInvariant a (t.replaceAt q m) := by
  obtain ⟨n, hn, hvalue, hk, hne⟩ := h.expression hv
  have hnameless := (isWritten_literal? hm).isNameless
  have hedits := edits_replaceAt (t := t) hne hnameless
  have hevaluable : ∀ n', t.get? q = some n' → n'.kind.isEvaluable = true := by
    intro n' hn'
    rw [hn] at hn'
    cases hn'
    exact hk
  have hnames : ∀ d ∈ declarations t, d.name.place ≠ q := by
    rcases foldTarget?_cases htarget with ⟨rfl, n', hn', hfold⟩ | ⟨id, init, hget, -, rfl⟩
    · exact name_place_ne hn' (not_identifier_of_isFoldable hfold)
    · exact init_place_ne hget rfl
  have hout : ∀ r name slots, (t.replaceAt q m).get? r = some (.mk (.identifier name) slots) →
      ¬ q <+: r := by
    rintro r name slots hget ⟨s, rfl⟩
    rw [Node.get?_replaceAt_append, hn, Option.bind_some] at hget
    rcases hnameless s _ hget with ⟨value, raw, regex, hk'⟩ | ⟨operator, leading, hk'⟩ <;> cases hk'
  have hinherits := (Inherits.refl h.root h.placed).edit hedits hevaluable hnames
  refine ⟨hinherits.root, hinherits.placed, ?_⟩
  refine h.agrees.trans ?_ (hedits.agrees (Edits.namesOutside h.placed hevaluable hnames) hout)
  intro r name slots hget
  exact hedits.identifier hget (hout r name slots hget)

/-- **The writes of a pass keep the invariant.**  Each is judged in the tree that the ones before it
have left. -/
theorem applyAll : ∀ {places : List Position} {t : Node}, FoldInvariant a t →
    FoldInvariant a (Write.applyAll (writesOf decoder a places t) t)
  | [], _, h => h
  | place :: rest, t, h => by
      rw [writesOf]
      cases hw : foldWrite? decoder a t place with
      | none => exact applyAll h
      | some w =>
          obtain ⟨htarget, hknown, m, hm, happly⟩ := foldWrite?_eq_some hw
          have hwritten : FoldInvariant a (w.apply t) := by
            rw [happly]
            exact h.replaceAt htarget hknown hm
          exact applyAll hwritten

/-- **The writes of a pass keep the values of what they leave.** -/
theorem valueOf_applyAll : ∀ {places : List Position} {t n : Node} {v : Value}, FoldInvariant a t →
    (∀ w ∈ writesOf decoder a places t, w.value.isSmall = true) →
    (∀ w ∈ writesOf decoder a places t, p.isInside w.place = false) → t.get? p = some n →
    valueOf (Context.ofTree t a decoder).surroundings p n = .ok v →
      let t' := Write.applyAll (writesOf decoder a places t) t
      ∃ n' v', t'.get? p = some n' ∧
        valueOf (Context.ofTree t' a decoder).surroundings p n' = .ok v' ∧ v'.normal = v.normal
  | [], _, n, v, _, _, _, hn, hv => ⟨n, v, hn, hv, rfl⟩
  | place :: rest, t, n, v, h, hsmall, hout, hn, hv => by
      rw [writesOf] at hsmall hout ⊢
      cases hw : foldWrite? decoder a t place with
      | none =>
          rw [hw] at hsmall hout
          exact valueOf_applyAll h hsmall hout hn hv
      | some w =>
          rw [hw] at hsmall hout
          simp only [List.mem_cons, forall_eq_or_imp] at hsmall hout
          obtain ⟨htarget, hknown, m, hm, happly⟩ := foldWrite?_eq_some hw
          have hreplaces := h.replaces htarget hknown hm hsmall.1
          have hwritten := h.replaceAt htarget hknown hm
          rw [← happly] at hreplaces hwritten
          obtain ⟨n₁, v₁, hn₁, hv₁, hnormal₁⟩ := hreplaces.valueOf hout.1 hn hv
          obtain ⟨n', v', hn', hv', hnormal⟩ := valueOf_applyAll hwritten hsmall.2 hout.2 hn₁ hv₁
          exact ⟨n', v', hn', hv', hnormal.trans hnormal₁⟩

end FoldInvariant

/-- **Folding keeps known values**: if all numbers that it writes are below `2^53` in magnitude, a
known value at a place that is not strictly inside a replaced node is still known there after a fresh
analysis, and is the same up to the form of numbers. -/
theorem foldConstants_keeps_known {state : RunState} {t t' : Node} {changed : Bool}
    (hroot : ∃ sourceType, t.kind = .program sourceType) (hplaced : declarationsPlaced t = true)
    (hfold : (foldConstants state t).outcome = .ok (t', changed))
    (hsmall : ∀ w ∈ foldWrites state.decoderName t, w.value.isSmall = true) {p : Position}
    (hout : ∀ w ∈ foldWrites state.decoderName t, p.isInside w.place = false) {v : Value}
    (hv : (Context.ofTree t (analyze t) state.decoderName).evaluate p = .ok (.known v)) :
    ∃ v', (Context.ofTree t' (analyze t') state.decoderName).evaluate p = .ok (.known v') ∧
      v'.normal = v.normal := by
  obtain ⟨r, hvisit, rfl, -⟩ := foldConstants_eq_ok.mp hfold
  obtain ⟨n, hn, hvalue, hliteral⟩ := evaluate_eq_known_iff.mp hv
  have hinit : FoldInvariant (analyze t) t := ⟨hroot, hplaced, Agrees.refl t (analyze t)⟩
  -- the tree of the pass is the one with all the writes
  have htree := (visitEach_foldAt hvisit).1
  have hinv : FoldInvariant (analyze t) r.tree := by
    rw [htree]
    exact hinit.applyAll
  obtain ⟨n₁, v₁, hn₁, hv₁, hnormal₁⟩ := hinit.valueOf_applyAll hsmall hout hn hvalue
  rw [← htree] at hn₁ hv₁
  obtain ⟨n', v', hn', hv', hnormal'⟩ :=
    (hinv.agrees.simulates state.decoderName _ []).valueOf n₁ p v₁ trivial hn₁ hv₁
  have hnormal := hnormal'.trans hnormal₁
  refine ⟨v', evaluate_eq_known_iff.mpr ⟨n', hn', hv', ?_⟩, hnormal⟩
  rw [← Value.isLiteral_normal, hnormal, Value.isLiteral_normal, hliteral]

/-- `var z = 0 * -1; use(1 / z);` -/
def quotientByProduct : Node :=
  .mk (.program "script") [.many [
    some (.mk (.variableDeclaration .var) [.many [
      some (.declarator (.ident "z") (some (.mk (.binary "*") [
        .one (some (.lit (.number (.int 0)) "0")),
        .one (some (.negated (.lit (.number (.int 1)) "1")))])))]]),
    some (.mk (.expressionStatement none) [.one (some (.mk .call [.one (some (.ident "use")),
      .many [some (.mk (.binary "/") [.one (some (.lit (.number (.int 1)) "1")),
        .one (some (.ident "z"))])]]))])]]

/-- The product is negative zero and is written with a sign, which its reader keeps. -/
theorem foldConstants_keeps_known_negativeZero :
    ∃ t' v', (foldConstants {} quotientByProduct).outcome = .ok (t', true) ∧
      (Context.ofTree t' (analyze t') none).evaluate
        [⟨0, some 1⟩, first, ⟨1, some 0⟩, second] = .ok (.known v') ∧
      v'.normal = (Value.number (.float (.finite true 0))).normal := by
  have hfold : ∃ t', (foldConstants {} quotientByProduct).outcome = .ok (t', true) := by
    have h : (foldConstants {} quotientByProduct).outcome.toOption.map Prod.snd = some true := by
      decide +kernel
    cases houtcome : (foldConstants {} quotientByProduct).outcome with
    | error f =>
        rw [houtcome] at h
        cases h
    | ok result =>
        rw [houtcome] at h
        exact ⟨result.1, by rw [← Option.some.inj h]⟩
  have hsmall : ∀ w ∈ foldWrites none quotientByProduct, w.value.isSmall = true :=
    List.all_eq_true.mp (by decide +kernel)
  have hout : ∀ w ∈ foldWrites none quotientByProduct,
      Position.isInside [⟨0, some 1⟩, first, ⟨1, some 0⟩, second] w.place = false := by
    have h : (foldWrites none quotientByProduct).all (fun w =>
        !Position.isInside [⟨0, some 1⟩, first, ⟨1, some 0⟩, second] w.place) = true := by
      decide +kernel
    simpa using h
  have hv : (Context.ofTree quotientByProduct (analyze quotientByProduct) none).evaluate
      [⟨0, some 1⟩, first, ⟨1, some 0⟩, second] = .ok (.known (.number (.float (.finite true 0)))) :=
    eq_of_knownNumber? (by decide +kernel)
  obtain ⟨t', hfold⟩ := hfold
  obtain ⟨v', hv', hnormal⟩ :=
    foldConstants_keeps_known ⟨"script", rfl⟩ (by decide) hfold hsmall hout hv
  exact ⟨t', v', hfold, hv', hnormal⟩

end Descramble

import Descramble.Proofs.Evaluation.Agreement
import Descramble.Proofs.Scope.Resolution
import Descramble.Proofs.Tree.Building
import Descramble.Proofs.Tree.Order
import Mathlib.Logic.Relation

/-!
# Chains of initial values

A name has its value from the initial value of its binding, the names in there from further initial
values, and so on.  Each such step goes back in the tree: the name comes after all of the declarator
that it has its value from.  So the chains end by themselves, and that a binding is never passed twice
is no condition that evaluation has to look after.

* `valueOf_congr` — an expression depends only on the names inside it.
* `Needs` — one binding has its value from another one; each need goes back in the tree
  (`Needs.exists_isBehind`), so there is no cycle (`Needs.acyclic`).
* `LooksUp` — the names that evaluation comes to, and the bindings that are under evaluation then;
  `LooksUp.not_mem`.
* `Guard`, `valueOfBindingUnder` — evaluation with another answer for a binding that is met again.
* `evaluate_acyclic` — no cycle, no binding met again, and no use for the guard.
-/

set_option autoImplicit false

namespace Descramble

/-! ## Names inside an expression -/

/-- The two surroundings do the same inside the node at a place. -/
structure SameBelow (env env' : Surroundings) (p : Position) : Prop where
  nameValue : ∀ q name, p <+: q → env'.nameValue q name = env.nameValue q name
  isGlobal : env'.isGlobal = env.isGlobal
  isDecoderCall : env'.isDecoderCall = env.isDecoderCall

theorem SameBelow.below {env env' : Surroundings} {p : Position} (h : SameBelow env env' p)
    (q : Position) : SameBelow env env' (p ++ q) where
  nameValue := fun _ name hr => h.nameValue _ name ((List.prefix_append p q).trans hr)
  isGlobal := h.isGlobal
  isDecoderCall := h.isDecoderCall

theorem itemValues_congr {env env' : Surroundings} {p : Position} {slot : Nat} :
    ∀ {items : List (Option Node)} {i : Nat},
      (∀ j c, items[j]? = some (some c) →
        valueOf env' (p ++ [⟨slot, some (i + j)⟩]) c = valueOf env (p ++ [⟨slot, some (i + j)⟩]) c) →
      itemValues env' p slot i items = itemValues env p slot i items
  | [], _, _ => by rw [itemValues, itemValues]
  | item :: rest, i, h => by
      have hrest : itemValues env' p slot (i + 1) rest = itemValues env p slot (i + 1) rest := by
        refine itemValues_congr fun j c hc => ?_
        rw [show i + 1 + j = i + (j + 1) by omega]
        exact h (j + 1) c hc
      cases item with
      | none => rw [itemValues, itemValues, hrest]
      | some c =>
          have hitem := h 0 c rfl
          rw [Nat.add_zero] at hitem
          rw [itemValues, itemValues, hitem, hrest]

theorem templateText_congr {env env' : Surroundings} {p : Position} :
    ∀ {exprs quasis : List (Option Node)} {i : Nat} {start : List Char},
      (∀ j c, exprs[j]? = some (some c) →
        valueOf env' (p ++ [⟨1, some (i + j)⟩]) c = valueOf env (p ++ [⟨1, some (i + j)⟩]) c) →
      templateText env' p i start quasis exprs = templateText env p i start quasis exprs
  | [], _, _, _, _ => by rw [templateText, templateText]
  | none :: rest, _, _, _, _ => by rw [templateText, templateText]
  | some c :: rest, [], _, _, _ => by rw [templateText, templateText]
  | some c :: rest, quasi :: quasis, i, start, h => by
      have hrest : ∀ start, templateText env' p (i + 1) start quasis rest =
          templateText env p (i + 1) start quasis rest := by
        intro start
        refine templateText_congr fun j c hc => ?_
        rw [show i + 1 + j = i + (j + 1) by omega]
        exact h (j + 1) c hc
      have hitem := h 0 c rfl
      rw [Nat.add_zero] at hitem
      simp only [templateText, hitem, hrest]

/-- **An expression depends only on the names inside it.** -/
theorem valueOf_congr {env env' : Surroundings} (n : Node) :
    ∀ p, SameBelow env env' p → valueOf env' p n = valueOf env p n := by
  induction n using Node.belowInduction with
  | h n ih =>
      intro p h
      have hbelow : ∀ s r c, n.get? (s :: r) = some c →
          valueOf env' (p ++ s :: r) c = valueOf env (p ++ s :: r) c := fun s r c hc =>
        ih s r c hc _ (h.below (s :: r))
      have hitem : ∀ slot items, n.slots[slot]? = some (.many items) → ∀ j c,
          items[j]? = some (some c) → valueOf env' (p ++ [⟨slot, some (0 + j)⟩]) c =
            valueOf env (p ++ [⟨slot, some (0 + j)⟩]) c := by
        intro slot items hslot j c hc
        rw [Nat.zero_add]
        refine hbelow ⟨slot, some j⟩ [] c ?_
        rw [Node.get?_cons, Simulates.child?_of_item hslot hc]
        rfl
      have hmember : ∀ q owner name,
          globalMember? env' q owner name = globalMember? env q owner name := by
        intro q owner name
        unfold globalMember?
        rw [h.isGlobal]
      rw [valueOf.eq_def, valueOf.eq_def env]
      split
      · rfl
      · exact h.nameValue _ _ List.prefix_rfl
      · simp only [templateText_congr (hitem 1 _ rfl)]
      · rw [hbelow first [] _ rfl]
      · rw [hbelow first [] _ rfl, hbelow second [] _ rfl]
      · rw [hbelow first [] _ rfl, hbelow second [] _ rfl]
      · rw [hbelow first [] _ rfl, hbelow second [] _ rfl, hbelow ⟨2, none⟩ [] _ rfl]
      · rw [itemValues_congr (hitem 0 _ rfl)]
      · rw [itemValues_congr (hitem 0 _ rfl)]
      · rw [hbelow first [] _ rfl, hbelow second [] _ rfl]
      · rw [h.isDecoderCall, h.isGlobal, itemValues_congr (hitem 1 _ rfl)]
      · rw [h.isDecoderCall, itemValues_congr (hitem 1 _ rfl), hbelow first [first] _ rfl]
        simp only [hmember]
      · rw [h.isDecoderCall]
      · rfl

/-! ## Bindings that need others -/

/-- To evaluate the initial value of binding `i` that of binding `j` may be needed: an identifier
inside refers to `j`, a constant variable with an initial value, and the identifier is neither before
the declarator of `j` nor inside it. -/
inductive Needs (t : Node) (i j : Nat) : Prop where
  | name (b c : Binding) (init init' : Node) (p : Position)
      (hb : (analyze t).bindings[i]? = some b) (hinit : b.init? t = some init)
      (hp : b.initPlace <+: p) (hc : (analyze t).bindingFor? p = some (j, c))
      (constant : c.constant = true) (isVariable : c.kind.isVariable = true)
      (hinit' : c.init? t = some init') (notBefore : p.before c.place = false)
      (notInside : p.isInside c.place = false)

/-- A name that has its value from a binding comes after all of the declarator. -/
theorem isBehind_of_bindingFor? {t init : Node} {p : Position} {i : Nat} {b : Binding}
    (hfor : (analyze t).bindingFor? p = some (i, b)) (hinit : b.init? t = some init)
    (hbefore : p.before b.place = false) (hinside : p.isInside b.place = false) :
    Position.IsBehind p b.place := by
  obtain ⟨name, hoccurs, -⟩ := bindingNumber?_eq_some.mp (bindingFor?_eq_some.mp hfor).1
  obtain ⟨slots, hget⟩ := hoccurs.get
  obtain ⟨target, slots', hdeclarator⟩ := Binding.init?_eq_some hinit
  refine (Node.isBehind_iff hget hdeclarator List.prefix_rfl hbefore).mpr fun habove => ?_
  -- the place is not the declarator's own, where no identifier stands
  have hne : b.place ≠ p := by
    rintro rfl
    cases hget.symm.trans hdeclarator
  rw [Position.isInside_iff.mpr ⟨habove, hne⟩] at hinside
  cases hinside

/-- What is needed goes before: something in the first declarator is behind all of the other one. -/
theorem Needs.exists_isBehind {t : Node} {i j : Nat} (h : Needs t i j) :
    ∃ b c p, (analyze t).bindings[i]? = some b ∧ (analyze t).bindings[j]? = some c ∧
      b.place <+: p ∧ Position.IsBehind p c.place := by
  obtain ⟨b, c, init, init', p, hb, hinit, hp, hc, -, -, hinit', hbefore, hinside⟩ := h
  exact ⟨b, c, p, hb, (bindingFor?_eq_some.mp hc).2, (List.prefix_append _ _).trans hp,
    isBehind_of_bindingFor? hc hinit' hbefore hinside⟩

/-- **A chain of needs goes back in the tree**, from its first declarator to its last. -/
theorem Needs.exists_isBehind_of_transGen {t : Node} {i j : Nat}
    (h : Relation.TransGen (Needs t) i j) :
    ∃ b c p, (analyze t).bindings[i]? = some b ∧ (analyze t).bindings[j]? = some c ∧
      b.place <+: p ∧ Position.IsBehind p c.place := by
  induction h with
  | single h => exact h.exists_isBehind
  | tail _ h ih =>
      obtain ⟨b, c, p, hb, hc, hp, hbehind⟩ := ih
      obtain ⟨c', d, q, hc', hd, hq, hbehind'⟩ := h.exists_isBehind
      cases hc.symm.trans hc'
      exact ⟨b, d, p, hb, hd, hp, Position.IsBehind.trans hbehind hq hbehind'⟩

/-- **No binding needs itself**, at however many steps. -/
theorem Needs.acyclic (t : Node) (i : Nat) : ¬ Relation.TransGen (Needs t) i i := by
  intro h
  obtain ⟨b, c, p, hb, hc, hp, hbehind⟩ := Needs.exists_isBehind_of_transGen h
  cases hb.symm.trans hc
  exact hbehind.not_prefix hp

/-! ## Names that evaluation comes to -/

/-- Evaluating the node at `start` can come to a name at a place, by way of the initial values of the
bindings in `passed`, the innermost first. -/
inductive LooksUp (ctx : Context) (start : Position) : (passed : List Nat) → Position → Prop where
  | inside {p : Position} (hp : start <+: p) : LooksUp ctx start [] p
  | through {passed : List Nat} {p q initPlace : Position} {number : Nat} {init : Node}
      (h : LooksUp ctx start passed p) (hinit : ctx.constantInit? p = some (number, initPlace, init))
      (hq : initPlace <+: q) : LooksUp ctx start (number :: passed) q

section
variable {t : Node} {left : Position → Bool} {start : Position}

/-- A name inside an initial value that has a value itself is what `Needs` is about. -/
theorem Needs.of_constantInit? {i j : Nat} {b : Binding} {init init' : Node}
    {p initPlace : Position} (hb : (analyze t).bindings[i]? = some b) (hinit : b.init? t = some init)
    (hp : b.initPlace <+: p)
    (h : Context.constantInit? ⟨t, analyze t, left⟩ p = some (j, initPlace, init')) : Needs t i j := by
  obtain ⟨c, hc, hinit', hconstant, hvariable, hbefore, hinside, -⟩ := constantInit?_eq_some.mp h
  exact .name b c init init' p hb hinit hp hc hconstant hvariable hinit' hbefore hinside

/-- The bindings under evaluation need, in the end, the one in whose initial value the place is. -/
theorem LooksUp.needs {passed : List Nat} {p : Position}
    (h : LooksUp ⟨t, analyze t, left⟩ start passed p) : ∀ i ∈ passed, ∃ j b init,
      Relation.ReflTransGen (Needs t) i j ∧ (analyze t).bindings[j]? = some b ∧
        b.init? t = some init ∧ b.initPlace <+: p := by
  induction h with
  | inside hp => simp
  | through _ hfound hq ih =>
      obtain ⟨c, hc, hinit', -, -, -, -, rfl⟩ := constantInit?_eq_some.mp hfound
      intro i hi
      refine ⟨_, c, _, ?_, (bindingFor?_eq_some.mp hc).2, hinit', hq⟩
      rcases List.mem_cons.mp hi with rfl | hi
      · exact .refl
      · obtain ⟨j, b, init, hchain, hb, hinit, hp⟩ := ih i hi
        exact hchain.tail (Needs.of_constantInit? hb hinit hp hfound)

/-- **Evaluation meets no binding that is under evaluation.** -/
theorem LooksUp.not_mem {passed : List Nat} {p initPlace : Position} {number : Nat} {init : Node}
    (h : LooksUp ⟨t, analyze t, left⟩ start passed p)
    (hfound : Context.constantInit? ⟨t, analyze t, left⟩ p = some (number, initPlace, init)) :
    number ∉ passed := by
  intro hmem
  obtain ⟨j, b, init', hchain, hb, hinit, hp⟩ := h.needs number hmem
  exact Needs.acyclic t number (.tail' hchain (Needs.of_constantInit? hb hinit hp hfound))

/-- No more bindings are under evaluation than there are. -/
theorem LooksUp.length_le {passed : List Nat} {p : Position}
    (h : LooksUp ⟨t, analyze t, left⟩ start passed p) :
    passed.length ≤ (analyze t).bindings.length := by
  have hpassed : passed.Nodup ∧ ∀ i ∈ passed, i < (analyze t).bindings.length := by
    induction h with
    | inside _ => simp
    | through h hfound _ ih =>
        obtain ⟨c, hc, -⟩ := constantInit?_eq_some.mp hfound
        refine ⟨List.nodup_cons.mpr ⟨h.not_mem hfound, ih.1⟩, fun i hi => ?_⟩
        rcases List.mem_cons.mp hi with rfl | hi
        · exact (List.getElem?_eq_some_iff.mp (bindingFor?_eq_some.mp hc).2).1
        · exact ih.2 i hi
  exact length_le_of_nodup hpassed.1 hpassed.2

end

/-! ## Evaluation under another guard -/

/-- What stands between evaluation and a binding that it comes to: seeing the bindings under
evaluation and the one that is met, a guard may answer instead of the initial value. -/
abbrev Guard := List Nat → Nat → Option (Except Stop Value)

namespace Guard

/-- The guard that refuses a binding that is met again. -/
def refusing : Guard := fun passed number =>
  if passed.contains number then some (.error .unknown) else none

/-- No guard. -/
def absent : Guard := fun _ _ => none

/-- The guard lets a binding pass that is not under evaluation. -/
def PassesNew (guard : Guard) : Prop := ∀ passed number, number ∉ passed → guard passed number = none

theorem passesNew_refusing : refusing.PassesNew := fun passed number hnew =>
  if_neg (by rwa [List.contains_iff_mem])

theorem passesNew_absent : absent.PassesNew := fun _ _ _ => rfl

end Guard

/-- The value of a name under a guard, with the answer `spent` where no fuel is left. -/
def valueOfBindingUnder (guard : Guard) (spent : Except Stop Value) (ctx : Context) :
    (fuel : Nat) → (passed : List Nat) → Position → String → Except Stop Value
  | 0, _, _, _ => spent
  | fuel + 1, passed, place, name =>
    match ctx.analysis.bindingNumber? place with
    | none =>
      match globalValue? name with
      | some v => .ok v
      | none => .error .unknown
    | some _ =>
      match ctx.constantInit? place with
      | none => .error .unknown
      | some (number, initPlace, init) =>
        match guard passed number with
        | some answer => answer
        | none =>
          let env : Surroundings := {
            nameValue := valueOfBindingUnder guard spent ctx fuel (number :: passed)
            isGlobal := ctx.analysis.isGlobal
            isDecoderCall := ctx.isDecoderCall }
          match valueOf env initPlace init with
          | .ok (.array _) => .error .unknown
          | .ok v => .ok v
          | .error _ => .error .unknown

/-- What an evaluation that has ended this way finds out. -/
def outcomeOf (result : Except Stop Value) : Except Fault Outcome :=
  match result with
  | .error .sideEffect => .ok .sideEffecting
  | .error .unknown => .ok .unknown
  | .ok v => do return if ← v.isLiteral then .known v else .unknown

namespace Context

/-- The surroundings of the expressions of a tree under a guard. -/
def under (ctx : Context) (guard : Guard) (spent : Except Stop Value) (fuel : Nat) : Surroundings where
  nameValue := valueOfBindingUnder guard spent ctx fuel []
  isGlobal := ctx.analysis.isGlobal
  isDecoderCall := ctx.isDecoderCall

/-- The outcome for the expression at a place under a guard. -/
def evaluateUnder (ctx : Context) (guard : Guard) (spent : Except Stop Value) (fuel : Nat)
    (place : Position) : Except Fault Outcome :=
  match ctx.tree.get? place with
  | none => .ok .unknown
  | some node => outcomeOf (valueOf (ctx.under guard spent fuel) place node)

end Context

/-- Evaluation is evaluation under the guard that refuses what is met again. -/
theorem valueOfBindingUnder_refusing (ctx : Context) : ∀ (fuel : Nat) (passed : List Nat),
    valueOfBindingUnder .refusing (.error .unknown) ctx fuel passed = valueOfBinding ctx fuel passed
  | 0, _ => rfl
  | fuel + 1, passed => by
      funext p name
      rw [valueOfBindingUnder, valueOfBinding]
      cases ctx.analysis.bindingNumber? p with
      | none => rfl
      | some k =>
          cases ctx.constantInit? p with
          | none => rfl
          | some found =>
              simp only [Guard.refusing, valueOfBindingUnder_refusing ctx fuel]
              cases passed.contains found.1 with
              | false => rfl
              | true => rfl

section
variable {t : Node} {left : Position → Bool} {start : Position}

/-- **A name has the same value under every guard that lets new bindings pass.**  Along the names that
evaluation comes to, neither guard is asked about a binding under evaluation, and neither fuel runs
out. -/
theorem valueOfBindingUnder_congr {guard guard' : Guard} (hguard : guard.PassesNew)
    (hguard' : guard'.PassesNew) (spent spent' : Except Stop Value) (fuel : Nat) :
    ∀ (fuel' : Nat) (passed : List Nat) (p : Position) (name : String),
      LooksUp ⟨t, analyze t, left⟩ start passed p →
      (analyze t).bindings.length < fuel + passed.length →
      (analyze t).bindings.length < fuel' + passed.length →
        valueOfBindingUnder guard spent ⟨t, analyze t, left⟩ fuel passed p name =
          valueOfBindingUnder guard' spent' ⟨t, analyze t, left⟩ fuel' passed p name := by
  induction fuel with
  | zero =>
      intro fuel' passed p name h hfuel
      have := h.length_le
      omega
  | succ fuel ih =>
      intro fuel' passed p name h hfuel hfuel'
      have hlength := h.length_le
      obtain ⟨fuel', rfl⟩ : ∃ rest, fuel' = rest + 1 := ⟨fuel' - 1, by omega⟩
      rw [valueOfBindingUnder, valueOfBindingUnder]
      cases hnumber : (analyze t).bindingNumber? p with
      | none => rfl
      | some k =>
          cases hfound : Context.constantInit? ⟨t, analyze t, left⟩ p with
          | none => rfl
          | some found =>
              obtain ⟨number, initPlace, init⟩ := found
              have hnew := h.not_mem hfound
              simp only [hguard passed number hnew, hguard' passed number hnew]
              have hsame : SameBelow
                  ⟨valueOfBindingUnder guard' spent' ⟨t, analyze t, left⟩ fuel' (number :: passed),
                    (analyze t).isGlobal, left⟩
                  ⟨valueOfBindingUnder guard spent ⟨t, analyze t, left⟩ fuel (number :: passed),
                    (analyze t).isGlobal, left⟩ initPlace := by
                refine ⟨fun q word hq => ?_, rfl, rfl⟩
                exact ih fuel' (number :: passed) q word (h.through hfound hq)
                  (by rw [List.length_cons]; omega) (by rw [List.length_cons]; omega)
              rw [valueOf_congr init initPlace hsame]

/-- With more fuel than there are bindings, the outcomes are the same under every guard that lets new
bindings pass. -/
theorem evaluateUnder_eq {guard : Guard} (hguard : guard.PassesNew) (spent : Except Stop Value)
    {fuel : Nat} (hfuel : (analyze t).bindings.length < fuel) (p : Position) :
    Context.evaluateUnder ⟨t, analyze t, left⟩ guard spent fuel p =
      Context.evaluate ⟨t, analyze t, left⟩ p := by
  have hsame : SameBelow (Context.surroundings ⟨t, analyze t, left⟩)
      (Context.under ⟨t, analyze t, left⟩ guard spent fuel) p := by
    refine ⟨fun q name hq => ?_, rfl, rfl⟩
    show valueOfBindingUnder guard spent ⟨t, analyze t, left⟩ fuel [] q name =
      valueOfBinding ⟨t, analyze t, left⟩ ((analyze t).bindings.length + 1) [] q name
    rw [← valueOfBindingUnder_refusing]
    exact valueOfBindingUnder_congr hguard Guard.passesNew_refusing spent (.error .unknown) fuel
      ((analyze t).bindings.length + 1) [] q name (.inside hq) (by simpa) (by simp)
  unfold Context.evaluateUnder Context.evaluate
  cases t.get? p with
  | none => rfl
  | some n => exact congrArg outcomeOf (valueOf_congr n p hsame)

end

/-- **Evaluation does not run in circles.**  No binding needs itself, so evaluation comes to no name
whose binding is under evaluation already.  The guard against that may be dropped, or answer in
whatever way; and fuel for every binding does not run out, whatever would be answered then. -/
theorem evaluate_acyclic (t : Node) (left : Position → Bool) :
    (∀ i, ¬ Relation.TransGen (Needs t) i i) ∧
      (∀ start passed p number initPlace init, LooksUp ⟨t, analyze t, left⟩ start passed p →
        Context.constantInit? ⟨t, analyze t, left⟩ p = some (number, initPlace, init) →
          number ∉ passed) ∧
      (∀ (spent : Except Stop Value) (fuel : Nat), (analyze t).bindings.length < fuel → ∀ p,
        Context.evaluateUnder ⟨t, analyze t, left⟩ .absent spent fuel p =
          Context.evaluate ⟨t, analyze t, left⟩ p) ∧
      ∀ (guard : Guard) (spent : Except Stop Value) (fuel : Nat), guard.PassesNew →
        (analyze t).bindings.length < fuel → ∀ p,
          Context.evaluateUnder ⟨t, analyze t, left⟩ guard spent fuel p =
            Context.evaluate ⟨t, analyze t, left⟩ p :=
  ⟨Needs.acyclic t, fun _ _ _ _ _ _ h hfound => h.not_mem hfound,
    fun spent _ hfuel => evaluateUnder_eq Guard.passesNew_absent spent hfuel,
    fun _ spent _ hguard hfuel => evaluateUnder_eq hguard spent hfuel⟩

/-- `var a = b; var b = a; use(b);` -/
def mutualNames : Node :=
  .programOf "script" [.varOf "a" (.ident "b"), .varOf "b" (.ident "a"),
    .statementOf (.callOf (.ident "use") [some (.ident "b")])]

/-- The second name needs the first, and not the other way round: evaluation ends without a guard. -/
theorem evaluate_acyclic_mutualNames :
    Needs mutualNames 1 0 ∧ ¬ Relation.TransGen (Needs mutualNames) 1 1 ∧
    LooksUp ⟨mutualNames, analyze mutualNames, fun _ => false⟩ [⟨0, some 2⟩] [1]
      [⟨0, some 1⟩, ⟨0, some 0⟩, second] ∧ 0 ∉ [1] ∧ ∀ spent,
    Context.evaluateUnder ⟨mutualNames, analyze mutualNames, fun _ => false⟩ .absent spent 3
      [⟨0, some 2⟩, first, ⟨1, some 0⟩] = .ok .unknown := by
  -- the `b` of the call has its value from the second declarator, and the `a` in there from the first
  have hb : Context.constantInit? ⟨mutualNames, analyze mutualNames, fun _ => false⟩
      [⟨0, some 2⟩, first, ⟨1, some 0⟩] =
        some (1, [⟨0, some 1⟩, ⟨0, some 0⟩, second], .ident "a") := rfl
  have ha : Context.constantInit? ⟨mutualNames, analyze mutualNames, fun _ => false⟩
      [⟨0, some 1⟩, ⟨0, some 0⟩, second] =
        some (0, [⟨0, some 0⟩, ⟨0, some 0⟩, second], .ident "b") := rfl
  have huse := LooksUp.through (.inside (show [⟨0, some 2⟩] <+: _ by decide)) hb List.prefix_rfl
  have hfound : (analyze mutualNames).bindings[1]? = some (analyze mutualNames).bindings[1] := rfl
  obtain ⟨hacyclic, hmet, habsent, -⟩ := evaluate_acyclic mutualNames fun _ => false
  refine ⟨Needs.of_constantInit? hfound rfl List.prefix_rfl ha, hacyclic 1, huse,
    hmet _ _ _ _ _ _ huse ha, fun spent => ?_⟩
  rw [habsent spent 3 (by decide)]
  rfl

end Descramble

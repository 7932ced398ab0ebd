import Descramble.Proofs.Evaluation.Agreement

/-!
# Expressions without a value

An expression that starts from a bound name has no value if no binding gives its name one.

* `Unvalued` — names that are bound, calls of functions that are not known, and operations on these.
* `BindingsUnvalued` — the initial values of all bindings are of this form, or arrays.
* `valueOfBinding_ne_ok` — then no bound name has a value.
* `evaluate_unvalued` — and static evaluation finds none.
-/

set_option autoImplicit false

namespace Descramble

/-- The expression at a place is a bound name, a call of a function that is not known, or an
operation whose first operand is such an expression. -/
inductive Unvalued (a : Analysis) : Position → Node → Prop
  | name {p : Position} {name : String} {slots : List Slot} {i : Nat} :
      a.bindingNumber? p = some i → Unvalued a p (.mk (.identifier name) slots)
  | call {p : Position} {name : String} {slots : List Slot} {arguments : List (Option Node)} :
      (Builtin.ofName? name = none ∨ a.isGlobal (p ++ [first]) = false) →
        Unvalued a p (.callOf (.mk (.identifier name) slots) arguments)
  | binary {p : Position} {operator : String} {left right : Node} :
      Unvalued a (p ++ [first]) left → Unvalued a p (.binary2 (.binary operator) left right)
  | member {p : Position} {computed : Bool} {object property : Node} :
      Unvalued a (p ++ [first]) object → Unvalued a p (.memberOf computed object property)

/-- Where bound names have no value, neither has such an expression. -/
theorem Unvalued.valueOf_ne_ok {a : Analysis} {env : Surroundings}
    (hnames : ∀ p name i, a.bindingNumber? p = some i → ∀ v, env.nameValue p name ≠ .ok v)
    (hglobal : env.isGlobal = a.isGlobal) {p : Position} {n : Node} (h : Unvalued a p n) :
    ∀ v, valueOf env p n ≠ .ok v := by
  induction h with
  | name hbound =>
      intro v hv
      cases valueOf_eq_ok_iff.mp hv with
      | identifier hv => exact hnames _ _ _ hbound v hv
  | call hcallee =>
      intro v hv
      cases valueOf_eq_ok_iff.mp hv with
      | callGlobal hdecoder hf hg hvs happly =>
          rcases hcallee with hnone | hlocal
          · rw [hnone] at hf
            cases hf
          · rw [hglobal, hlocal] at hg
            cases hg
  | binary hleft ih =>
      intro v hv
      cases valueOf_eq_ok_iff.mp hv with
      | binary hop hl hr happly => exact ih _ hl
  | member hobject ih =>
      intro v hv
      cases valueOf_eq_ok_iff.mp hv with
      | member hreceiver hkey happly => exact ih _ hreceiver

/-- The expression has no value that a name could be given or that could be written as a literal. -/
def Worthless (a : Analysis) (p : Position) (n : Node) : Prop :=
  Unvalued a p n ∨ n.kind = .arrayExpression

theorem isArray_of_kind {env : Surroundings} {p : Position} {n : Node} {v : Value}
    (hk : n.kind = .arrayExpression) (hv : valueOf env p n = .ok v) : v.isArray = true := by
  cases valueOf_eq_ok_iff.mp hv with
  | array hvs => rfl
  | _ => cases hk

/-- No initial value of a binding gives the name a value. -/
def BindingsUnvalued (ctx : Context) : Prop :=
  ∀ b ∈ ctx.analysis.bindings, ∀ init, b.init? ctx.tree = some init →
    Worthless ctx.analysis b.initPlace init

/-- **No bound name has a value**, by induction on the number of bindings that may be passed. -/
theorem valueOfBinding_ne_ok {ctx : Context} (h : BindingsUnvalued ctx) :
    ∀ (fuel : Nat) (passed : List Nat) (p : Position) (name : String) (i : Nat),
      ctx.analysis.bindingNumber? p = some i → ∀ v, valueOfBinding ctx fuel passed p name ≠ .ok v
  | 0, _, _, _, _, _, _, hv => by cases hv
  | fuel + 1, passed, p, name, i, hbound, v, hv => by
      rcases valueOfBinding_eq_ok.mp hv with
        ⟨hnone, -⟩ | ⟨number, initPlace, init, hinit, -, harray, hv⟩
      · rw [hbound] at hnone
        cases hnone
      · obtain ⟨b, hb, hi, -, -, -, -, rfl⟩ := constantInit?_eq_some.mp hinit
        have hmem : b ∈ ctx.analysis.bindings :=
          List.mem_of_getElem? (bindingFor?_eq_some.mp hb).2
        rcases h b hmem init hi with hunvalued | hk
        · exact hunvalued.valueOf_ne_ok (valueOfBinding_ne_ok h fuel (number :: passed)) rfl v hv
        · rw [isArray_of_kind hk hv] at harray
          cases harray

/-- **Static evaluation finds no value.** -/
theorem evaluate_unvalued {ctx : Context} (h : BindingsUnvalued ctx) {p : Position} {n : Node}
    (hget : ctx.tree.get? p = some n) (hn : Worthless ctx.analysis p n) :
    ∃ outcome, ctx.evaluate p = .ok outcome ∧ ∀ v, outcome ≠ .known v := by
  unfold Context.evaluate
  simp only [hget]
  cases hv : valueOf ctx.surroundings p n with
  | error stop => cases stop <;> exact ⟨_, rfl, by simp⟩
  | ok v =>
      rcases hn with hunvalued | hk
      · exact absurd hv (hunvalued.valueOf_ne_ok (valueOfBinding_ne_ok h _ _) rfl v)
      · have harray := isArray_of_kind hk hv
        cases v with
        | array vs => exact ⟨.unknown, rfl, by simp⟩
        | _ => cases harray

end Descramble

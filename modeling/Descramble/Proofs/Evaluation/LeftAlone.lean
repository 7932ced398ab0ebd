import Descramble.Proofs.Evaluation.Agreement
import Descramble.Proofs.Tree.Building

/-!
# Calls that are left alone

Static evaluation asks which calls it has to leave alone, and it never looks through such a call.  So a
value that is found although many calls are left alone is found where fewer are.

* `simulates_of_fewer` — expressions keep their values, if names do.
* `valueOfBinding_of_fewer` — names keep their values.
* `known_of_fewer` — the two outcomes for one place.
-/

set_option autoImplicit false

namespace Descramble

section
variable {t : Node} {a : Analysis} {fewer more : Position → Bool}
  (hsub : ∀ c slots, t.get? c = some (.mk .call slots) → fewer c = true → more c = true)
include hsub

/-- Where more calls are left alone, an expression has no other values, if no name has. -/
theorem simulates_of_fewer {fuel fuel' : Nat} {passed passed' : List Nat}
    (hnames : ∀ p name slots v, t.get? p = some (.mk (.identifier name) slots) →
      valueOfBinding ⟨t, a, more⟩ fuel passed p name = .ok v →
        valueOfBinding ⟨t, a, fewer⟩ fuel' passed' p name = .ok v) :
    Simulates id (Context.within ⟨t, a, more⟩ fuel passed)
      (Context.within ⟨t, a, fewer⟩ fuel' passed') t t (fun _ => True) (fun _ => False) where
  respects := operationsRespect_id
  node := fun _ n _ _ hn => ⟨n, hn, rfl, rfl⟩
  step := fun _ _ _ _ => trivial
  value := fun _ _ _ _ hr _ _ => hr.elim
  replaceable := fun _ _ _ _ _ _ _ hr => hr.elim
  nameless := fun _ _ _ hr _ => hr.elim
  callee := fun _ _ _ _ _ _ _ hr => hr
  name := fun p name slots v _ hget hv => ⟨v, hnames p name slots v hget hv, rfl⟩
  isGlobal := fun _ _ _ _ _ => rfl
  decoder := by
    rintro p ⟨k, slots⟩ v _ hget hk hv
    cases hk
    have hmore : more p = false := not_isDecoderCall_of_valueOf hv
    exact Bool.eq_false_iff.mpr fun hfewer => by
      rw [hsub p slots hget hfewer] at hmore
      cases hmore

/-- **A name keeps its value where fewer calls are left alone.**  Both evaluations pass the same
bindings. -/
theorem valueOfBinding_of_fewer (fuel : Nat) : ∀ (passed : List Nat) p name slots v,
    t.get? p = some (.mk (.identifier name) slots) →
      valueOfBinding ⟨t, a, more⟩ fuel passed p name = .ok v →
        valueOfBinding ⟨t, a, fewer⟩ fuel passed p name = .ok v := by
  induction fuel with
  | zero =>
      intro passed p name slots v _ hv
      cases hv
  | succ fuel ih =>
      intro passed p name slots v _ hv
      rcases valueOfBinding_eq_ok.mp hv with
        hglobal | ⟨i, initPlace, init, hinit, hnew, harray, hv⟩
      · exact valueOfBinding_eq_ok.mpr (Or.inl hglobal)
      · obtain ⟨b, -, hnode, -, -, -, -, rfl⟩ := constantInit?_eq_some.mp hinit
        obtain ⟨n', v', hn', hv', rfl⟩ :=
          (simulates_of_fewer hsub (ih (i :: passed))).valueOf init b.initPlace v trivial
            (get?_initPlace hnode) hv
        cases (get?_initPlace hnode).symm.trans hn'
        exact valueOfBinding_eq_ok.mpr (Or.inr ⟨i, _, init, hinit, hnew, harray, hv'⟩)

/-- **An expression keeps its value where fewer calls are left alone.** -/
theorem valueOf_of_fewer {p : Position} {n : Node} {v : Value} (hget : t.get? p = some n)
    (hv : valueOf (Context.surroundings ⟨t, a, more⟩) p n = .ok v) :
    valueOf (Context.surroundings ⟨t, a, fewer⟩) p n = .ok v := by
  obtain ⟨n', v', hn', hv', rfl⟩ :=
    (simulates_of_fewer hsub (valueOfBinding_of_fewer hsub _ [])).valueOf n p v trivial hget hv
  cases hget.symm.trans hn'
  exact hv'

end

/-- **Leaving more calls alone finds no other value.**  What is known although the calls at `more` are
left alone is known where only some of them are; and what is known there stays known, or nothing is
found out about it any more but that it may have an effect. -/
theorem known_of_fewer {t : Node} {a : Analysis} {fewer more : Position → Bool}
    (hsub : ∀ c slots, t.get? c = some (.mk .call slots) → fewer c = true → more c = true)
    (p : Position) :
    (∀ v, Context.evaluate ⟨t, a, more⟩ p = .ok (.known v) →
        Context.evaluate ⟨t, a, fewer⟩ p = .ok (.known v)) ∧
      ∀ v, Context.evaluate ⟨t, a, fewer⟩ p = .ok (.known v) →
        ∃ outcome, Context.evaluate ⟨t, a, more⟩ p = .ok outcome ∧
          (outcome = .known v ∨ outcome = .unknown ∨ outcome = .sideEffecting) := by
  constructor
  · intro v hmore
    obtain ⟨n, hn, hv, hliteral⟩ := evaluate_eq_known_iff.mp hmore
    exact evaluate_eq_known_iff.mpr ⟨n, hn, valueOf_of_fewer hsub hn hv, hliteral⟩
  · intro v hfewer
    obtain ⟨n, hn, hv, hliteral⟩ := evaluate_eq_known_iff.mp hfewer
    cases hmore : valueOf (Context.surroundings ⟨t, a, more⟩) p n with
    | ok w =>
        -- a value that is still found is the same one
        obtain rfl : v = w := Except.ok.inj (hv.symm.trans (valueOf_of_fewer hsub hn hmore))
        exact ⟨_, evaluate_eq_known_iff.mpr ⟨n, hn, hmore, hliteral⟩, Or.inl rfl⟩
    | error stop =>
        simp only [Context.evaluate, show t.get? p = some n from hn, hmore]
        cases stop with
        | unknown => exact ⟨_, rfl, Or.inr (Or.inl rfl)⟩
        | sideEffect => exact ⟨_, rfl, Or.inr (Or.inr rfl)⟩

/-- `use("ab".indexOf("b"), Number("7"), parseInt("7"));` -/
def threeCalls : Node :=
  .programOf "script" [.statementOf (.callOf (.ident "use") [
    some (.callOf (.memberOf false (.lit (.text "ab") "\"ab\"") (.ident "indexOf"))
      [some (.lit (.text "b") "\"b\"")]),
    some (.callOf (.ident "Number") [some (.lit (.text "7") "\"7\"")]),
    some (.callOf (.ident "parseInt") [some (.lit (.text "7") "\"7\"")])])]

/-- The calls of `Number`. -/
def numberCalls : Position → Bool := callsDecoder threeCalls (analyze threeCalls) (some "Number")

/-- The calls of `Number` and of `parseInt`. -/
def numberOrParseIntCalls (c : Position) : Bool :=
  numberCalls c || callsDecoder threeCalls (analyze threeCalls) (some "parseInt") c

/-- The index stays known, and the number that was known is unknown where the calls of `parseInt`
are left alone as well. -/
theorem known_of_fewer_threeCalls :
    (∀ c slots, threeCalls.get? c = some (.mk .call slots) → numberCalls c = true →
      numberOrParseIntCalls c = true) ∧
    Context.evaluate ⟨threeCalls, analyze threeCalls, numberCalls⟩
      [⟨0, some 0⟩, first, ⟨1, some 0⟩] = .ok (.known (.number (.int 1))) ∧
    Context.evaluate ⟨threeCalls, analyze threeCalls, numberCalls⟩
      [⟨0, some 0⟩, first, ⟨1, some 2⟩] = .ok (.known (.number (.int 7))) ∧
    ∃ outcome, Context.evaluate ⟨threeCalls, analyze threeCalls, numberOrParseIntCalls⟩
      [⟨0, some 0⟩, first, ⟨1, some 2⟩] = .ok outcome ∧ outcome = .unknown := by
  have hsub : ∀ c slots, threeCalls.get? c = some (.mk .call slots) → numberCalls c = true →
      numberOrParseIntCalls c = true := by
    intro c slots _ hc
    rw [numberOrParseIntCalls, hc, Bool.true_or]
  have hseven : Context.evaluate ⟨threeCalls, analyze threeCalls, numberCalls⟩
      [⟨0, some 0⟩, first, ⟨1, some 2⟩] = .ok (.known (.number (.int 7))) :=
    eq_of_knownNumber? (by decide +kernel)
  obtain ⟨outcome, hmore, -⟩ := (known_of_fewer hsub _).2 _ hseven
  refine ⟨hsub, (known_of_fewer hsub _).1 _ (eq_of_knownNumber? (by decide +kernel)), hseven, outcome,
    hmore, ?_⟩
  have hunknown : Context.evaluate ⟨threeCalls, analyze threeCalls, numberOrParseIntCalls⟩
      [⟨0, some 0⟩, first, ⟨1, some 2⟩] = .ok .unknown := rfl
  cases hmore.symm.trans hunknown
  rfl

end Descramble

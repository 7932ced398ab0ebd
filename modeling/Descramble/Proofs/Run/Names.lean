import Descramble.Proofs.DeadCode.Sweep
import Descramble.Source.Printer

/-!
# Names after a run

* `isGlobal_iff` — an identifier is global if it occurs and no enclosing scope declares its name.
* `recover_keeps_resolved` — a run leaves no name without a declaration that had one.
-/

set_option autoImplicit false

namespace Descramble

/-- An identifier is global if it occurs and no enclosing scope declares its name. -/
theorem isGlobal_iff {t : Node} {p : Position} :
    (analyze t).isGlobal p = true ↔ ∃ name, Occurs t p name ∧
      ∀ scope ∈ scopesAround t p, ¬ declaresIn (declarations t) scope name := by
  rw [isGlobal_eq_true]
  constructor
  · rintro ⟨name, hocc, hnone⟩
    exact ⟨name, hocc, resolve?_eq_none_iff.mp hnone⟩
  · rintro ⟨name, hocc, hnone⟩
    exact ⟨name, hocc, resolve?_eq_none_iff.mpr hnone⟩

/-- **A run leaves no name dangling**: each name that the result leaves unresolved is the name of an
identifier that the tree at the start leaves unresolved. -/
theorem recover_keeps_resolved {ε : Type} (render : Node → Except ε String) (maxIterations : Int)
    {t t' : Node} {s : RunState} {sourceType : String} (hroot : t.kind = .program sourceType)
    (hplaced : declarationsPlaced t = true)
    (h : (recover render maxIterations t).outcome = .ok (t', s)) {p : Position} {name : String}
    {slots : List Slot} (hname : t'.get? p = some (.mk (.identifier name) slots))
    (hglobal : (analyze t').isGlobal p = true) :
    ∃ q slots₀, t.get? q = some (.mk (.identifier name) slots₀) ∧
      (analyze t).isGlobal q = true := by
  obtain ⟨t₁, hrun, rfl⟩ := recover_eq_ok.mp h
  have hinherits : Inherits t₁ t :=
    iterateWhileChanged_induction (P := fun u => Inherits u t)
      (fun _ _ _ _ hu hpass => hu.applyPasses hpass) (.refl ⟨sourceType, hroot⟩ hplaced) hrun
  obtain ⟨name', hocc, hnone⟩ := isGlobal_iff.mp hglobal
  obtain ⟨slots', hget⟩ := hocc.get
  rw [hname] at hget
  cases hget
  obtain ⟨q, hocc₀, hnone₀⟩ := hinherits.swept.unresolved name ⟨p, hocc, hnone⟩
  obtain ⟨slots₀, hget₀⟩ := hocc₀.get
  exact ⟨q, slots₀, hget₀, isGlobal_iff.mpr ⟨name, hocc₀, hnone₀⟩⟩

/-- `var y = "a"; x;` -/
def unusedVariable : Node :=
  .mk (.program "script") [.many [
    some (.mk (.variableDeclaration .var) [.many [
      some (.declarator (.ident "y") (some (.lit (.text "a") "\"a\"")))]]),
    some (.mk (.expressionStatement none) [.one (some (.ident "x"))])]]

/-- `x;` -/
def usedName : Node :=
  .mk (.program "script") [.many [
    some (.mk (.expressionStatement none) [.one (some (.ident "x"))])]]

/-- The name that stays unresolved was unresolved before. -/
theorem recover_keeps_resolved_unusedVariable :
    declarationsPlaced unusedVariable = true ∧
      (∃ s, (recover print 10 unusedVariable).outcome = .ok (usedName, s)) ∧
      ∃ q slots, unusedVariable.get? q = some (.mk (.identifier "x") slots) ∧
        (analyze unusedVariable).isGlobal q = true := by
  have hplaced : declarationsPlaced unusedVariable = true := by decide
  have hrun : ∃ s, (recover print 10 unusedVariable).outcome = .ok (usedName, s) := ⟨_, rfl⟩
  have hname : usedName.get? [⟨0, some 0⟩, ⟨0, none⟩] = some (.ident "x") := rfl
  refine ⟨hplaced, hrun, ?_⟩
  obtain ⟨s, hrun⟩ := hrun
  exact recover_keeps_resolved print 10 rfl hplaced hrun hname (by decide)

end Descramble

import Descramble.Proofs.Scope.Nearest

/-!
# The name of a class expression

A function expression opens a scope that holds its own name.  A class expression opens none, so inside
it the name of the class is looked up as it would be in front of the class: it means whatever the name
means there.

* `Innermost.congr_above` — what no place between two has, the lower has where the upper has it.
* `NamesClass` — an identifier that stands for the class around it, unless the name means something
  else.
* `className_escapes_iff` — what such an identifier refers to, and when that lies outside the class.
-/

set_option autoImplicit false

namespace Descramble

/-- A property that no place from `c` down to `p` has is looked for above `c`. -/
theorem Innermost.congr_above {P : Position → Prop} {c p q : Position} (hcp : c <+: p)
    (hnone : ∀ r, c <+: r → r <+: p → ¬ P r) : Innermost P p q ↔ Innermost P c q := by
  -- of two places above `p` one is above the other
  have habove : ∀ r, r <+: p → P r → r <+: c := fun r hr hP =>
    (List.prefix_or_prefix_of_prefix hr hcp).resolve_right fun hcr => hnone r hcr hr hP
  constructor
  · rintro ⟨hq, hP, hmax⟩
    exact ⟨habove q hq hP, hP, fun r hr => hmax r (hr.trans hcp)⟩
  · rintro ⟨hq, hP, hmax⟩
    exact ⟨hq.trans hcp, hP, fun r hr hPr => hmax r (habove r hr hPr) hPr⟩

/-- The identifier at `p` has the name of the class expression around it at `c`; it is looked up, and
no scope inside the class declares its name. -/
structure NamesClass (t : Node) (c p : Position) (name : String) : Prop where
  isClass : ∃ n, t.get? c = some n ∧ n.kind = .classExpression
  named : ∃ slots, t.get? (c ++ [first]) = some (.mk (.identifier name) slots)
  inside : c <+: p
  identifier : ∃ slots, t.get? p = some (.mk (.identifier name) slots)
  not_declaring : ¬ DeclaringName t p
  not_nameOnly : ¬ NameOnly t p
  undeclared : ∀ q, c <+: q → q <+: p → ¬ DeclaringScope t name q

section

variable {t : Node} {c p : Position} {name source : String}

theorem NamesClass.innermost_iff (h : NamesClass t c p name) {q : Position} :
    Innermost (DeclaringScope t name) p q ↔ Innermost (DeclaringScope t name) c q :=
  Innermost.congr_above h.inside h.undeclared

/-- The name is looked up from its own place on. -/
theorem NamesClass.bindingNumber?_eq (h : NamesClass t c p name) (hroot : t.kind = .program source)
    (hc : t.conforms = true) : (analyze t).bindingNumber? p =
      resolve? (firstDeclarations [] (declarations t)) (scopesAround t p) name :=
  bindingNumber?_of_occurs
    ((occurs_iff_not_declaring hroot hc).mpr ⟨h.identifier, h.not_declaring, h.not_nameOnly⟩)

/-- **The name of the class means inside the class what it means at the class.** -/
theorem NamesClass.bindingFor?_eq_some_iff (h : NamesClass t c p name)
    (hroot : t.kind = .program source) (hc : t.conforms = true) {i : Nat} {b : Binding} :
    (analyze t).bindingFor? p = some (i, b) ↔ (analyze t).bindings[i]? = some b ∧ b.name = name ∧
      Innermost (DeclaringScope t name) c b.scope.place := by
  obtain ⟨slots, hget⟩ := h.identifier
  rw [bindingFor?_eq_some, h.bindingNumber?_eq hroot hc, resolve?_eq_some_iff hroot hc hget]
  constructor
  · rintro ⟨⟨q, hq, b', hb', rfl, hname⟩, hb⟩
    cases hb.symm.trans hb'
    exact ⟨hb, hname, h.innermost_iff.mp hq⟩
  · rintro ⟨hb, hname, hq⟩
    exact ⟨⟨_, h.innermost_iff.mpr hq, b, hb, rfl, hname⟩, hb⟩

/-- It means something as soon as some scope around the class declares it. -/
theorem NamesClass.exists_bindingFor? (h : NamesClass t c p name) (hroot : t.kind = .program source)
    (hc : t.conforms = true) {q : Position} (hq : q <+: c) (hdeclares : DeclaringScope t name q) :
    ∃ i b, (analyze t).bindingFor? p = some (i, b) := by
  obtain ⟨slots, hget⟩ := h.identifier
  cases hbinding : (analyze t).bindingFor? p with
  | some found => exact ⟨found.1, found.2, rfl⟩
  | none =>
      rw [bindingFor?_eq_none_iff, h.bindingNumber?_eq hroot hc,
        resolve?_eq_none_iff_scopes hroot hc hget] at hbinding
      exact absurd hdeclares (hbinding q (hq.trans h.inside))

end

/-- **The name of a class expression escapes** just when a scope around the class declares the same
name.  Inside the class the name has the binding that the name has at the class itself; so it refers
to a binding from outside the class if there is one, and is a global name otherwise. -/
theorem className_escapes_iff {t : Node} {source name : String} {c p : Position}
    (hroot : t.kind = .program source) (hc : t.conforms = true) (h : NamesClass t c p name) :
    (∀ i b, (analyze t).bindingFor? p = some (i, b) ↔ (analyze t).bindings[i]? = some b ∧
      b.name = name ∧ Innermost (DeclaringScope t name) c b.scope.place) ∧
    ((∃ i b, (analyze t).bindingFor? p = some (i, b) ∧ ¬ c <+: b.scope.place) ↔
      ∃ q, q <+: c ∧ DeclaringScope t name q) := by
  refine ⟨fun i b => h.bindingFor?_eq_some_iff hroot hc, ?_⟩
  constructor
  · rintro ⟨i, b, hb, -⟩
    obtain ⟨-, -, hq, hdeclares, -⟩ := (h.bindingFor?_eq_some_iff hroot hc).mp hb
    exact ⟨_, hq, hdeclares⟩
  · rintro ⟨q, hq, hdeclares⟩
    obtain ⟨i, b, hb⟩ := h.exists_bindingFor? hroot hc hq hdeclares
    obtain ⟨-, -, hscope, hown, -⟩ := (h.bindingFor?_eq_some_iff hroot hc).mp hb
    exact ⟨i, b, hb, fun hbelow => h.undeclared _ hbelow (hscope.trans h.inside) hown⟩

/-- `var A = 1; (class A { m() { return A; } });` -/
def classBesideVariable : Node :=
  .mk (.program "script") [.many [
    some (.mk (.variableDeclaration .var) [.many [
      some (.declarator (.ident "A") (some (.lit (.number (.int 1)) "1")))]]),
    some (.mk (.expressionStatement none) [.one (some (.mk .classExpression [
      .one (some (.ident "A")),
      .one none,
      .one (some (.mk .classBody [.many [
        some (.mk (.methodDefinition false .method false) [
          .one (some (.ident "m")),
          .one (some (.mk (.functionExpression ⟨false, false, false⟩) [
            .one none,
            .many [],
            .one (some (.mk .block [.many [
              some (.mk .returnStatement [.one (some (.ident "A"))])]]))]))])]]))]))])]]

/-- The method returns the variable and not the class. -/
theorem className_escapes_iff_variable :
    ∃ c p : Position, classBesideVariable.conforms = true ∧ NamesClass classBesideVariable c p "A" ∧
      ∃ b, (analyze classBesideVariable).bindingFor? p = some (0, b) ∧ b.kind = .var ∧
        b.place = [⟨0, some 0⟩, ⟨0, some 0⟩] ∧
        Innermost (DeclaringScope classBesideVariable "A") c b.scope.place ∧
        ∃ q, q <+: c ∧ DeclaringScope classBesideVariable "A" q := by
  have hc : classBesideVariable.conforms = true := by decide
  -- the program is the only scope that holds the name
  have hheld : ∀ q, HoldsName classBesideVariable q "A" → q = [] := by
    intro q hq
    have hdeclares : declaresIn (declarations classBesideVariable) ⟨q, false⟩ "A" :=
      (declaresIn_iff rfl hc).mpr hq
    obtain ⟨d, hd, hkey⟩ := hdeclares
    rw [show declarations classBesideVariable = [⟨⟨[], true⟩,
      ⟨[⟨0, some 0⟩, ⟨0, some 0⟩, first], "A"⟩, .var, [⟨0, some 0⟩, ⟨0, some 0⟩]⟩] from rfl,
      List.mem_singleton] at hd
    subst hd
    exact (congrArg Prod.fst hkey).symm
  obtain ⟨name, hocc, -⟩ := occurrence?_eq_some_iff.mp (show
    (analyze classBesideVariable).occurrence? [⟨0, some 1⟩, first, ⟨2, none⟩, ⟨0, some 0⟩, ⟨1, none⟩,
      ⟨2, none⟩, ⟨0, some 0⟩, first] = some _ from rfl)
  obtain ⟨hget, hdeclaring, honly⟩ := (occurs_iff_not_declaring rfl hc).mp hocc
  have hname : NamesClass classBesideVariable [⟨0, some 1⟩, first] [⟨0, some 1⟩, first, ⟨2, none⟩,
      ⟨0, some 0⟩, ⟨1, none⟩, ⟨2, none⟩, ⟨0, some 0⟩, first] "A" := {
    isClass := ⟨_, rfl, rfl⟩
    named := ⟨[], rfl⟩
    inside := List.prefix_append _ _
    identifier := ⟨[], rfl⟩
    not_declaring := hdeclaring
    not_nameOnly := honly
    undeclared := fun q hq _ hdeclares => by
      rw [hheld q hdeclares.2, List.prefix_nil] at hq
      cases hq }
  have hescapes := className_escapes_iff rfl hc hname
  obtain ⟨b, hb, hkind, hplace, hscope⟩ : ∃ b, (analyze classBesideVariable).bindingFor?
      [⟨0, some 1⟩, first, ⟨2, none⟩, ⟨0, some 0⟩, ⟨1, none⟩, ⟨2, none⟩, ⟨0, some 0⟩, first] =
        some (0, b) ∧ b.kind = .var ∧ b.place = [⟨0, some 0⟩, ⟨0, some 0⟩] ∧ b.scope.place = [] :=
    ⟨_, rfl, rfl, rfl, rfl⟩
  refine ⟨_, _, hc, hname, b, hb, hkind, hplace, ((hescapes.1 0 b).mp hb).2.2, hescapes.2.mp
    ⟨0, b, hb, ?_⟩⟩
  rw [hscope, List.prefix_nil]
  exact List.cons_ne_nil _ _

end Descramble

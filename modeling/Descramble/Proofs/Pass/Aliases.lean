import Descramble.Proofs.DeadCode.Sweep
import Descramble.Proofs.Evaluation.Agreement
import Descramble.Proofs.Pass.Revised

/-!
# Chains of aliases

The callee of a call may be a constant variable whose initial value is another name, and so on.  The
search for the decoder follows such a chain up to the first identifier with the decoder's name,
whatever that identifier refers to.

* `AliasLink`, `LeadsTo`, `AliasEnd` — the chain of constant variables from an identifier.
* `RefersTo`, `refersTo_iff` — the identifiers that refer to what a declaration declares: those with
  its name that no nearer declaration captures.
* `occurs_callee`, `AliasLink.occurs` — the identifiers of a chain stand for values.
* `RefersTo.not_aliasLink` — a chain that comes to a declared function ends there.
* `exists_leadsTo_of_isAlias` — what a call of the decoder leads to.
-/

set_option autoImplicit false

namespace Descramble

/-! ## Chains -/

/-- One link of a chain: the identifier at `p` refers to a constant variable with the initial value
at `q`. -/
def AliasLink (t : Node) (p q : Position) : Prop :=
  ∃ i b init, (analyze t).bindingFor? p = some (i, b) ∧ b.constant = true ∧
    b.init? t = some init ∧ q = b.initPlace

/-- The chain from `p` comes to `e`. -/
inductive LeadsTo (t : Node) : Position → Position → Prop
  | refl (p : Position) : LeadsTo t p p
  | link {p q e : Position} : AliasLink t p q → LeadsTo t q e → LeadsTo t p e

/-- The chain from `p` ends at `e`. -/
def AliasEnd (t : Node) (p e : Position) : Prop := LeadsTo t p e ∧ ∀ q, ¬ AliasLink t e q

/-- The analysis gives an identifier the binding that a declaration declares. -/
def RefersTo (t : Node) (p : Position) (d : Declaration) : Prop :=
  ∃ i b, (analyze t).bindingFor? p = some (i, b) ∧ b.key = d.key

/-- A declaration is in scope at a place, and no scope that is nearer to the place declares its
name. -/
def NearestAround (t : Node) (d : Declaration) (p : Position) : Prop :=
  ∃ inner scope outer, scopesAround t p = inner ++ scope :: outer ∧ scope.place = d.scope.place ∧
    ∀ s ∈ inner, ¬ declaresIn (declarations t) s d.name.name

variable {t : Node} {d : Declaration} {p q e : Position} {name : String}

/-! ## What an identifier refers to -/

/-- **An identifier refers to a declaration** if it has its name and nothing nearer captures it. -/
theorem refersTo_iff (hd : d ∈ declarations t) (hocc : Occurs t p name) :
    RefersTo t p d ↔ name = d.name.name ∧ NearestAround t d p := by
  constructor
  · rintro ⟨i, b, hb, hkey⟩
    obtain ⟨hnumber, hbinding⟩ := bindingFor?_eq_some.mp hb
    rw [bindingNumber?_of_occurs hocc] at hnumber
    obtain ⟨inner, scope, outer, f, hsplit, hf, hfkey, hinner⟩ := resolve?_eq_some hnumber
    rw [getElem?_bindings, hf, Option.map_some, Option.some.injEq] at hbinding
    subst hbinding
    have hsame : (scope.place, name) = d.key := hfkey.symm.trans hkey
    simp only [Declaration.key, Prod.mk.injEq] at hsame
    exact ⟨hsame.2, inner, scope, outer, hsplit, hsame.1, hsame.2 ▸ hinner⟩
  · rintro ⟨rfl, inner, scope, outer, hsplit, hscope, hinner⟩
    obtain ⟨f, hf, hfkey⟩ := exists_first_of_mem hd
    obtain ⟨i, hi⟩ := List.mem_iff_getElem?.mp hf
    have hnumber : (analyze t).bindingNumber? p = some i := by
      rw [bindingNumber?_of_occurs hocc]
      show resolve? _ (scopesAround t p) _ = some i
      rw [hsplit]
      exact resolve?_of_nearest hi (by rw [hfkey, Declaration.key, hscope]) hinner
    have hbinding := getElem?_bindings t i
    rw [hi, Option.map_some] at hbinding
    exact ⟨i, _, bindingFor?_eq_some.mpr ⟨hnumber, hbinding⟩, hfkey⟩

theorem RefersTo.exists_occurs (h : RefersTo t p d) : ∃ name, Occurs t p name := by
  obtain ⟨i, b, hb, -⟩ := h
  obtain ⟨name, hocc, -⟩ := bindingNumber?_eq_some.mp (bindingFor?_eq_some.mp hb).1
  exact ⟨name, hocc⟩

/-- The child of a node that declares nothing by it stands for a value, where a value may stand. -/
theorem occurs_child {n : Node} {s : Step} {slots : List Slot} (hn : t.get? p = some n)
    (hget : t.get? (p ++ [s]) = some (.mk (.identifier name) slots))
    (hvalue : standsForValue (some n) (some s) = true) (hpattern : n.kind.isPattern = false)
    (hbinds : ∀ parent, bindsBy parent n.kind n.skeleton s = none)
    (hself : n.kind ≠ .classExpression) : Occurs t (p ++ [s]) name where
  get := ⟨slots, hget⟩
  value := by rwa [Position.parent?_concat, Option.bind_some, hn, List.getLast?_concat]
  not_declaring := by
    intro d hd hplace
    obtain ⟨above, last, parent, node, s', home, hd⟩ := mem_declarations_iff.mp hd
    have hpath := hplace ▸ hd.path
    by_cases he : above ++ [last] ++ [s'] = p ++ [s]
    · obtain ⟨rfl, hs⟩ := List.append_inj' he rfl
      simp only [List.cons.injEq, and_true] at hs
      subst hs
      have hb := hd.binds
      rw [Option.some.inj (hd.get_node.symm.trans hn), hbinds] at hb
      cases hb
    · have := hpath.isPattern_of_between (Position.prefix_of_prefix_append hpath.isPrefix he)
        (List.prefix_append ..) (by simp) hn
      rw [hpattern] at this
      cases this
  not_self := by
    intro h
    obtain ⟨r, m, c, he, -, hm, hk, -⟩ := mem_selfNamePlaces.mp h
    obtain ⟨rfl, -⟩ := List.append_inj' he rfl
    rw [hn] at hm
    cases hm
    exact hself hk

theorem occurs_callee {slots slots' : List Slot} (hp : t.get? p = some (.mk .call slots))
    (hget : t.get? (p ++ [first]) = some (.mk (.identifier name) slots')) :
    Occurs t (p ++ [first]) name :=
  occurs_child hp hget rfl rfl (fun _ => rfl) (by simp)

/-- The initial value of a variable stands for a value. -/
theorem AliasLink.occurs {slots : List Slot} (h : AliasLink t p q)
    (hget : t.get? q = some (.mk (.identifier name) slots)) : Occurs t q name := by
  obtain ⟨i, b, init, -, -, hinit, rfl⟩ := h
  unfold Binding.init? at hinit
  split at hinit
  · rename_i hb
    exact occurs_child hb hget rfl rfl (fun _ => rfl) (by simp)
  · cases hinit

/-- What a chain of aliases comes to stands for a value, if the callee does. -/
theorem LeadsTo.occurs {slots : List Slot} (h : LeadsTo t p e) :
    (∀ word slots, t.get? p = some (.mk (.identifier word) slots) → Occurs t p word) →
      t.get? e = some (.mk (.identifier name) slots) → Occurs t e name := by
  induction h with
  | refl p => exact fun hp he => hp name slots he
  | link hlink _ ih => exact fun _ he => ih (fun _ _ hq => hlink.occurs hq) he

/-! ## Where a chain ends -/

/-- **A chain that comes to a declared function ends there**: nothing else declares its name in that
scope, or the binding is not constant. -/
theorem RefersTo.not_aliasLink (h : RefersTo t e d) (hd : d ∈ declarations t)
    (hfunction : ∃ flags slots, t.get? d.place = some (.mk (.functionDeclaration flags) slots)) :
    ¬ AliasLink t e q := by
  rintro ⟨i, b, init, hb, hconst, hinit, -⟩
  obtain ⟨j, c, hc, hkey⟩ := h
  cases hb.symm.trans hc
  obtain ⟨-, hbinding⟩ := bindingFor?_eq_some.mp hb
  rw [getElem?_bindings] at hbinding
  obtain ⟨f, hf, rfl⟩ := Option.map_eq_some_iff.mp hbinding
  -- the function is the only declaration of its name, and no declarator
  obtain rfl := eq_first_of_constant (List.mem_of_getElem? hf) hconst hd hkey.symm
  obtain ⟨flags, slots, hget⟩ := hfunction
  change Binding.init? _ t = some init at hinit
  simp only [Binding.init?, bindingOf, hget] at hinit
  cases hinit

/-! ## What a call of the decoder leads to -/

theorem analyze_root (t : Node) : (analyze t).root = t := rfl

/-- An identifier of a revised tree, or of what has been taken out of it, was there before. -/
theorem RevisedFrom.exists_identifier {u : Node} {slots : List Slot} (h : RevisedFrom t u)
    (hget : (analyze t).nodeAt? u p = some (.mk (.identifier name) slots)) :
    ∃ slots', t.get? p = some (.mk (.identifier name) slots') := by
  rcases Option.or_eq_some_iff.mp hget with hu | ⟨-, ht⟩
  · obtain ⟨⟨k, slots'⟩, hp, hk, -⟩ := h.exists_of_not_isWritten hu (not_isWritten_of_kind rfl)
    cases hk
    exact ⟨slots', hp⟩
  · exact ⟨slots, ht⟩

/-- A plain declarator with an initial value was one before. -/
theorem RevisedFrom.exists_init? {u init init₀ : Node} {b : Binding} (h : RevisedFrom t u)
    (hinit : (analyze t).init? u b = some init) (hget : t.get? b.initPlace = some init₀) :
    b.init? t = some init₀ := by
  rcases Option.or_eq_some_iff.mp hinit with hu | ⟨-, ht⟩
  · obtain ⟨word, slots, hplace⟩ := Binding.init?_eq_some hu
    obtain ⟨⟨k, slots'⟩, hplace', hk, hskeleton⟩ := h.exists_of_not_isWritten hplace
      (not_isWritten_of_kind rfl)
    cases hk
    have hname : u.get? (b.place ++ [first]) = some (.mk (.identifier word) slots) := by
      rw [Node.get?_concat, hplace]
      rfl
    obtain ⟨slots'', htarget⟩ := h.exists_identifier (nodeAt?_of_get? hname)
    exact Binding.init?_of_places hplace' hskeleton htarget hget
  · rw [analyze_root] at ht
    rw [ht, ← hget, get?_initPlace ht]

/-- **What names the decoder leads to an identifier with the decoder's name**, in the tree before the
pass as well. -/
theorem exists_leadsTo_of_namesDecoder {u : Node} (h : RevisedFrom t u) :
    ∀ {fuel : Nat} {passed : List Nat} {p : Position},
      namesDecoder u (analyze t) name fuel passed p = true →
        (∃ word slots, t.get? p = some (.mk (.identifier word) slots)) ∧
        ∃ e slots, LeadsTo t p e ∧ t.get? e = some (.mk (.identifier name) slots)
  | 0, _, _, hnames => by cases hnames
  | fuel + 1, passed, p, hnames => by
      unfold namesDecoder at hnames
      split at hnames
      · rename_i word slots hget
        obtain ⟨slots', hp⟩ := h.exists_identifier hget
        refine ⟨⟨word, slots', hp⟩, ?_⟩
        split at hnames
        · rename_i hword
          subst hword
          exact ⟨p, slots', .refl p, hp⟩
        · split at hnames
          · cases hnames
          · rename_i i b hb
            split at hnames
            · cases hnames
            · rename_i hpasses
              simp only [Bool.or_eq_true, not_or, Bool.not_eq_true, Bool.not_eq_false',
                Option.isNone_eq_false_iff, Option.isSome_iff_exists] at hpasses
              obtain ⟨⟨-, hconst⟩, init, hinit⟩ := hpasses
              obtain ⟨⟨word', slots'', hinitplace⟩, e, slots, hleads, he⟩ :=
                exists_leadsTo_of_namesDecoder h hnames
              exact ⟨e, slots, .link ⟨i, b, _, hb, hconst, h.exists_init? hinit hinitplace, rfl⟩
                hleads, he⟩
      · cases hnames

theorem exists_leadsTo_of_isAlias {u : Node} (h : RevisedFrom t u)
    (halias : isAlias u (analyze t) (some name) p = true) :
    ∃ e slots, LeadsTo t p e ∧ t.get? e = some (.mk (.identifier name) slots) := by
  simp only [isAlias, Bool.and_eq_true] at halias
  exact (exists_leadsTo_of_namesDecoder h halias.2).2

end Descramble

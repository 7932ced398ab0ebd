import Descramble.Proofs.Pass.Aliases
import Descramble.Proofs.Tree.Building
import Mathlib.Logic.Relation

/-!
# The search for the decoder

The search for the decoder goes along a chain of constant variables and remembers the bindings that
it has passed.  What it decides is a relation that knows of neither fuel nor passed bindings.

* `Alias` — the least relation: an identifier with the decoder's name, or one whose chain goes on to
  such an identifier; `alias_iff_leadsTo`.
* `AliasAt` — the same with the number of links.  Each binding that the search has passed is at least
  as far from the decoder as the place that it has come to, so it is not met again.
* `chase?`, `chase?_eq_namesDecoder` — the search with no answer where fuel runs out, which it does not.
* `LeadsTo.back` — a chain that has come to a cycle stays on it.
* `isAlias_iff_alias` — the search decides the relation.
-/

set_option autoImplicit false

namespace Descramble

/-- The node at a place is an identifier with the decoder's name, or an identifier that refers to a
constant variable whose initial value is such a node. -/
inductive Alias (t : Node) (decoder : String) : Position → Prop where
  | named {p : Position} {slots : List Slot}
      (hget : t.get? p = some (.mk (.identifier decoder) slots)) : Alias t decoder p
  | linked {p : Position} {name : String} {slots : List Slot} {i : Nat} {b : Binding} {init : Node}
      (hget : t.get? p = some (.mk (.identifier name) slots))
      (hfor : (analyze t).bindingFor? p = some (i, b)) (hconstant : b.constant = true)
      (hinit : b.init? t = some init) (h : Alias t decoder b.initPlace) : Alias t decoder p

/-- The search for the decoder, without an answer where no fuel is left. -/
def chase? (tree : Node) (analysis : Analysis) (decoder : String) :
    (fuel : Nat) → (passed : List Nat) → Position → Option Bool
  | 0, _, _ => none
  | fuel + 1, passed, place =>
    match analysis.nodeAt? tree place with
    | some (.mk (.identifier name) _) =>
      if name = decoder then some true
      else
        match analysis.bindingFor? place with
        | none => some false
        | some (number, b) =>
          if passed.contains number || !b.constant || (analysis.init? tree b).isNone then some false
          else chase? tree analysis decoder fuel (number :: passed) b.initPlace
    | _ => some false

variable {t : Node} {decoder : String} {p q e : Position}

/-! ## Chains -/

/-- An identifier has at most one link. -/
theorem AliasLink.unique {q' : Position} (h : AliasLink t p q) (h' : AliasLink t p q') : q = q' := by
  obtain ⟨i, b, init, hb, -, -, rfl⟩ := h
  obtain ⟨i', b', init', hb', -, -, rfl⟩ := h'
  cases hb.symm.trans hb'
  rfl

theorem LeadsTo.trans (h : LeadsTo t p q) (h' : LeadsTo t q e) : LeadsTo t p e := by
  induction h with
  | refl p => exact h'
  | link hlink _ ih => exact .link hlink (ih h')

theorem LeadsTo.of_transGen (h : Relation.TransGen (AliasLink t) p q) : LeadsTo t p q := by
  induction h with
  | single hlink => exact .link hlink (.refl _)
  | tail _ hlink ih => exact ih.trans (.link hlink (.refl _))

/-- A cycle may be entered at the next place as well. -/
theorem AliasLink.cycle (h : AliasLink t p q) (hcycle : Relation.TransGen (AliasLink t) p p) :
    Relation.TransGen (AliasLink t) q q ∧ LeadsTo t q p := by
  rcases Relation.TransGen.head'_iff.mp hcycle with ⟨q', hfirst, hrest⟩
  obtain rfl := h.unique hfirst
  refine ⟨Relation.TransGen.tail' hrest h, ?_⟩
  rcases Relation.reflTransGen_iff_eq_or_transGen.mp hrest with rfl | hrest
  · exact .refl _
  · exact .of_transGen hrest

/-- **A chain that has come to a cycle stays on it.** -/
theorem LeadsTo.back (h : LeadsTo t p e) :
    Relation.TransGen (AliasLink t) p p → LeadsTo t e p := by
  induction h with
  | refl p => exact fun _ => .refl p
  | link hlink _ ih =>
      intro hcycle
      obtain ⟨hcycle', hback⟩ := hlink.cycle hcycle
      exact (ih hcycle').trans hback

/-- Whatever a chain comes to before or after a place, it comes to one from the other. -/
theorem LeadsTo.total (h : LeadsTo t p q) : LeadsTo t p e → LeadsTo t q e ∨ LeadsTo t e q := by
  induction h with
  | refl p => exact Or.inl
  | link hlink hrest ih =>
      intro he
      cases he with
      | refl => exact Or.inr (.link hlink hrest)
      | link hlink' he' =>
          obtain rfl := hlink.unique hlink'
          exact ih he'

/-- **What is an alias has a chain to an identifier with the decoder's name.** -/
theorem alias_iff_leadsTo : Alias t decoder p ↔
    ∃ e slots, LeadsTo t p e ∧ t.get? e = some (.mk (.identifier decoder) slots) := by
  constructor
  · intro h
    induction h with
    | named hget => exact ⟨_, _, .refl _, hget⟩
    | linked hget hfor hconstant hinit _ ih =>
        obtain ⟨e, slots, hleads, he⟩ := ih
        exact ⟨e, slots, .link ⟨_, _, _, hfor, hconstant, hinit, rfl⟩ hleads, he⟩
  · rintro ⟨e, slots, hleads, he⟩
    induction hleads with
    | refl p => exact .named he
    | link hlink _ ih =>
        obtain ⟨i, b, init, hfor, hconstant, hinit, rfl⟩ := hlink
        obtain ⟨name, hoccurs, -⟩ := bindingNumber?_eq_some.mp (bindingFor?_eq_some.mp hfor).1
        obtain ⟨slots', hget⟩ := hoccurs.get
        exact .linked hget hfor hconstant hinit (ih he)

/-! ## The search comes to an end -/

/-- **Fuel does not run out**, in whatever tree: no binding is passed twice. -/
theorem chase?_eq_namesDecoder (u : Node) (a : Analysis) (decoder : String) (fuel : Nat) :
    ∀ (fuel' : Nat) (passed : List Nat) (p : Position), passed.Nodup →
      (∀ i ∈ passed, i < a.bindings.length) → a.bindings.length < fuel + passed.length →
      a.bindings.length < fuel' + passed.length →
        chase? u a decoder fuel passed p = some (namesDecoder u a decoder fuel' passed p) := by
  induction fuel with
  | zero =>
      intro fuel' passed p hnodup hbounded hfuel
      have := length_le_of_nodup hnodup hbounded
      omega
  | succ fuel ih =>
      intro fuel' passed p hnodup hbounded hfuel hfuel'
      have hlength := length_le_of_nodup hnodup hbounded
      obtain ⟨fuel', rfl⟩ : ∃ rest, fuel' = rest + 1 := ⟨fuel' - 1, by omega⟩
      rw [chase?, namesDecoder]
      rcases a.nodeAt? u p with _ | ⟨k, slots⟩
      · rfl
      by_cases hk : ∃ name, k = .identifier name
      · obtain ⟨name, rfl⟩ := hk
        by_cases hname : name = decoder
        · simp only [if_pos hname]
        · simp only [if_neg hname]
          cases hfor : a.bindingFor? p with
          | none => rfl
          | some found =>
              obtain ⟨i, b⟩ := found
              by_cases hends : (passed.contains i || !b.constant || (a.init? u b).isNone) = true
              · simp only [if_pos hends]
              · simp only [if_neg hends]
                have hnew : i ∉ passed := fun hmem =>
                  hends (by rw [List.contains_iff_mem.mpr hmem]; rfl)
                refine ih fuel' (i :: passed) _ (List.nodup_cons.mpr ⟨hnew, hnodup⟩) ?_
                  (by rw [List.length_cons]; omega) (by rw [List.length_cons]; omega)
                intro j hj
                rcases List.mem_cons.mp hj with rfl | hj
                · exact (List.getElem?_eq_some_iff.mp (bindingFor?_eq_some.mp hfor).2).1
                · exact hbounded j hj
      · -- no other kind of node goes on
        cases k <;> first | rfl | exact absurd ⟨_, rfl⟩ hk

/-! ## The search decides the relation -/

/-- What is an alias after that many links. -/
inductive AliasAt (t : Node) (decoder : String) : Nat → Position → Prop where
  | named {p : Position} {slots : List Slot}
      (hget : t.get? p = some (.mk (.identifier decoder) slots)) : AliasAt t decoder 0 p
  | linked {n : Nat} {p : Position} {name : String} {slots : List Slot} {i : Nat} {b : Binding}
      {init : Node} (hget : t.get? p = some (.mk (.identifier name) slots)) (hname : name ≠ decoder)
      (hfor : (analyze t).bindingFor? p = some (i, b)) (hconstant : b.constant = true)
      (hinit : b.init? t = some init) (h : AliasAt t decoder n b.initPlace) :
      AliasAt t decoder (n + 1) p

theorem AliasAt.unique {m n : Nat} (hm : AliasAt t decoder m p) :
    AliasAt t decoder n p → m = n := by
  induction hm generalizing n with
  | named hget =>
      intro hn
      cases hn with
      | named => rfl
      | linked hget' hname =>
          cases hget.symm.trans hget'
          exact absurd rfl hname
  | linked hget hname hfor _ _ _ ih =>
      intro hn
      cases hn with
      | named hget' =>
          cases hget.symm.trans hget'
          exact absurd rfl hname
      | linked _ _ hfor' _ _ h =>
          cases hfor.symm.trans hfor'
          rw [ih h]

theorem Alias.exists_at (h : Alias t decoder p) : ∃ n, AliasAt t decoder n p := by
  induction h with
  | named hget => exact ⟨0, .named hget⟩
  | @linked p name slots i b init hget hfor hconstant hinit _ ih =>
      by_cases hname : name = decoder
      · subst hname
        exact ⟨0, .named hget⟩
      · obtain ⟨n, h⟩ := ih
        exact ⟨n + 1, .linked hget hname hfor hconstant hinit h⟩

/-- **The search finds what is an alias.**  The bindings it has passed are no nearer to the decoder
than the place it has come to. -/
theorem chase?_of_aliasAt {n : Nat} (h : AliasAt t decoder n p) : ∀ (fuel : Nat) (passed : List Nat),
    (∀ i ∈ passed, ∃ b m, (analyze t).bindings[i]? = some b ∧ AliasAt t decoder m b.initPlace ∧ n ≤ m) →
      chase? t (analyze t) decoder fuel passed p ≠ some false := by
  induction h with
  | named hget =>
      intro fuel passed _
      cases fuel with
      | zero => simp [chase?]
      | succ fuel => simp [chase?, nodeAt?_of_get? hget]
  | @linked n p name slots i b init hget hname hfor hconstant hinit h ih =>
      intro fuel passed hfarther
      cases fuel with
      | zero => simp [chase?]
      | succ fuel =>
          have hnew : i ∉ passed := by
            intro hmem
            obtain ⟨b', m, hb', hm, hle⟩ := hfarther i hmem
            cases (bindingFor?_eq_some.mp hfor).2.symm.trans hb'
            have := h.unique hm
            omega
          have hends : ¬ (passed.contains i || !b.constant ||
              ((analyze t).init? t b).isNone) = true := by
            rw [hconstant, analysis_init?_of_init? hinit]
            simpa using hnew
          rw [chase?, nodeAt?_of_get? hget]
          simp only [if_neg hname, hfor, if_neg hends]
          refine ih fuel (i :: passed) fun j hj => ?_
          rcases List.mem_cons.mp hj with rfl | hj
          · exact ⟨b, n, (bindingFor?_eq_some.mp hfor).2, h, Nat.le_refl n⟩
          · obtain ⟨b', m, hb', hm, hle⟩ := hfarther j hj
            exact ⟨b', m, hb', hm, by omega⟩

/-- **The search for the decoder decides what is an alias.**  It ends, however much fuel there is
beyond one for each binding.  What has a chain to the decoder's name is found, whatever bindings have
been passed on the way; and a chain that comes to a cycle before it comes to that name is no alias. -/
theorem isAlias_iff_alias (t : Node) {decoder : String} (hdecoder : decoder ≠ "") (p : Position) :
    (isAlias t (analyze t) (some decoder) p = true ↔ Alias t decoder p) ∧
      (∀ fuel, (analyze t).bindings.length < fuel →
        chase? t (analyze t) decoder fuel [] p = some (isAlias t (analyze t) (some decoder) p)) ∧
      (∀ e slots, LeadsTo t p e → t.get? e = some (.mk (.identifier decoder) slots) →
        isAlias t (analyze t) (some decoder) p = true) ∧
      ∀ q, LeadsTo t p q → Relation.TransGen (AliasLink t) q q →
        (∀ e slots, LeadsTo t p e → LeadsTo t e q →
          t.get? e ≠ some (.mk (.identifier decoder) slots)) →
          isAlias t (analyze t) (some decoder) p = false := by
  have hends : ∀ fuel, (analyze t).bindings.length < fuel →
      chase? t (analyze t) decoder fuel [] p = some (isAlias t (analyze t) (some decoder) p) := by
    intro fuel hfuel
    rw [chase?_eq_namesDecoder t _ _ fuel ((analyze t).bindings.length + 1) [] p List.nodup_nil
      (by simp) (by simpa) (by simp)]
    simp [isAlias, hdecoder]
  have hiff : isAlias t (analyze t) (some decoder) p = true ↔ Alias t decoder p := by
    refine ⟨fun h => alias_iff_leadsTo.mpr (exists_leadsTo_of_isAlias (.refl t) h), fun h => ?_⟩
    obtain ⟨n, hn⟩ := h.exists_at
    have hfound := chase?_of_aliasAt hn ((analyze t).bindings.length + 1) [] (by simp)
    rw [hends _ (by simp)] at hfound
    simpa using hfound
  refine ⟨hiff, hends, fun e slots hleads he =>
    hiff.mpr (alias_iff_leadsTo.mpr ⟨e, slots, hleads, he⟩), fun q hq hcycle hnot => ?_⟩
  refine Bool.eq_false_iff.mpr fun h => ?_
  obtain ⟨e, slots, hleads, he⟩ := alias_iff_leadsTo.mp (hiff.mp h)
  -- on the way to the cycle or on the cycle: either way the chain goes on to `q`
  have hback : LeadsTo t e q := (hq.total hleads).elim (fun h => h.back hcycle) id
  exact hnot e slots hleads hback he

/-- `var k = decoder; var j = k; var a = b; var b = a; j(1); a(2);` -/
def chainAndCycle : Node :=
  .programOf "script" [.varOf "k" (.ident "decoder"), .varOf "j" (.ident "k"),
    .varOf "a" (.ident "b"), .varOf "b" (.ident "a"),
    .statementOf (.callOf (.ident "j") [some (.lit (.number (.int 1)) "1")]),
    .statementOf (.callOf (.ident "a") [some (.lit (.number (.int 2)) "2")])]

/-- The first callee is an alias after two links, and the second one goes round. -/
theorem isAlias_iff_alias_chainAndCycle :
    Alias chainAndCycle "decoder" [⟨0, some 4⟩, first, first] ∧
    ¬ Alias chainAndCycle "decoder" [⟨0, some 5⟩, first, first] ∧
    Relation.TransGen (AliasLink chainAndCycle) [⟨0, some 3⟩, ⟨0, some 0⟩, second]
      [⟨0, some 3⟩, ⟨0, some 0⟩, second] := by
  have hdecoder : "decoder" ≠ "" := by decide
  refine ⟨(isAlias_iff_alias chainAndCycle hdecoder _).1.mp (by decide +kernel), fun h => ?_, ?_⟩
  · have := (isAlias_iff_alias chainAndCycle hdecoder _).1.mpr h
    exact absurd this (by decide +kernel)
  · have hlink : AliasLink chainAndCycle [⟨0, some 3⟩, ⟨0, some 0⟩, second]
        [⟨0, some 2⟩, ⟨0, some 0⟩, second] :=
      ⟨2, (analyze chainAndCycle).bindings[2], .ident "b", rfl, rfl, rfl, rfl⟩
    have hlink' : AliasLink chainAndCycle [⟨0, some 2⟩, ⟨0, some 0⟩, second]
        [⟨0, some 3⟩, ⟨0, some 0⟩, second] :=
      ⟨3, (analyze chainAndCycle).bindings[3], .ident "a", rfl, rfl, rfl, rfl⟩
    exact .tail (.single hlink) hlink'

end Descramble

import Descramble.Proofs.Evaluation.Agreement
import Descramble.Proofs.Pass.PlainValues

/-!
# Plain member names change no finding

The analysis of a tree in plain names finds the same bindings and occurrences, so constant bindings
have the initial values that they had, in plain names, and the decoder the names that it had.

* `init?_withPlainNames`, `constantInit?_withPlainNames` — initial values.
* `namesDecoder_withPlainNames` — the names of the decoder.
* `callsDecoder_withPlainNames` — the calls that are left alone.
* `within_withPlainNames` — surroundings, and with them the values of names.
* `normalized_unseen` — the pass keeps places, bindings, occurrences and outcomes, and has nothing to do
  a second time.
-/

set_option autoImplicit false

namespace Descramble

/-! ## Findings of the analysis -/

section
variable {t : Node} (hc : t.conforms = true)
include hc

theorem bindingNumber?_withPlainNames :
    (analyze t.withPlainNames).bindingNumber? = (analyze t).bindingNumber? := by
  funext p
  simp only [Analysis.bindingNumber?, Analysis.occurrence?, occurrences_withPlainNames hc]

theorem isGlobal_withPlainNames : (analyze t.withPlainNames).isGlobal = (analyze t).isGlobal := by
  funext p
  simp only [Analysis.isGlobal, Analysis.occurrence?, occurrences_withPlainNames hc]

theorem bindingFor?_withPlainNames :
    (analyze t.withPlainNames).bindingFor? = (analyze t).bindingFor? := by
  funext p
  simp only [Analysis.bindingFor?, bindingNumber?_withPlainNames hc, bindings_withPlainNames hc]

/-! ## Initial values -/

/-- **Initial values are what they were, in plain names.** -/
theorem init?_withPlainNames (b : Binding) :
    b.init? t.withPlainNames = (b.init? t).map Node.withPlainNames := by
  unfold Binding.init?
  rcases get?_withPlainNames_cases hc b.place with ⟨name, hkey, hget⟩ | ⟨-, hget⟩
  · obtain ⟨raw, regex, slots, hliteral⟩ := hkey.get?
    rw [hget, hliteral]
    rfl
  · rw [hget]
    cases t.get? b.place with
    | none => rfl
    | some n =>
        rw [Option.map_some]
        generalize hm : n.withPlainNames = m
        split
        · rename_i heq
          cases heq
          obtain ⟨slots, rfl, hslots⟩ := Node.eq_of_withPlainNames (by simp) hm
          simp only [slots_eq_one_iff, List.map_eq_nil_iff, Option.map_eq_some_iff] at hslots
          obtain ⟨_, _, rfl, ⟨target, rfl, htarget⟩, init, _, rfl, rfl, rfl⟩ := hslots
          obtain ⟨slots', rfl, -⟩ := Node.eq_of_withPlainNames (by simp) htarget
          rfl
        · rename_i hnone
          split
          · rename_i name slots init heq
            cases heq
            refine (hnone name (slots.map Slot.withPlainNames) (init.map Node.withPlainNames) ?_).elim
            rw [← hm, withPlainNames_of_kind (by simp)]
            simp only [List.map_cons, List.map_nil, Slot.withPlainNames, Option.map_some,
              withPlainNames_of_kind (show Kind.identifier name ≠ .member true by simp)]
          · rfl

omit hc in
/-- An initial value is no key. -/
theorem not_isPlainKey_initPlace {b : Binding} {init : Node} (h : b.init? t = some init) (name : String) :
    ¬ IsPlainKey t b.initPlace name := by
  rintro ⟨q, m, hq, hm, hplain⟩
  obtain ⟨rfl, -⟩ := List.append_inj' hq rfl
  obtain ⟨word, slots, hget⟩ := Binding.init?_eq_some h
  rw [hget] at hm
  cases hm
  rw [plainMember?_of_kind (by simp)] at hplain
  cases hplain

/-! ## The decoder -/

omit hc in
theorem nodeAt?_analyze (p : Position) : (analyze t).nodeAt? t p = t.get? p := Option.or_self

omit hc in
theorem init?_analyze (b : Binding) : (analyze t).init? t b = b.init? t := Option.or_self

/-- **The decoder keeps its names**: none is looked for at a key. -/
theorem namesDecoder_withPlainNames (decoder : String) : ∀ (fuel : Nat) (passed : List Nat)
    (p : Position), (∀ name, ¬ IsPlainKey t p name) →
      namesDecoder t.withPlainNames (analyze t.withPlainNames) decoder fuel passed p =
        namesDecoder t (analyze t) decoder fuel passed p
  | 0, _, _, _ => rfl
  | fuel + 1, passed, p, hkey => by
      rw [namesDecoder, namesDecoder, nodeAt?_analyze, nodeAt?_analyze, get?_withPlainNames hc hkey,
        bindingFor?_withPlainNames hc]
      simp only [init?_analyze, init?_withPlainNames hc, Option.isNone_map]
      cases t.get? p with
      | none => rfl
      | some n =>
          rw [Option.map_some]
          generalize hm : n.withPlainNames = m
          split
          · rename_i heq
            cases heq
            obtain ⟨slots, rfl, -⟩ := Node.eq_of_withPlainNames (by simp) hm
            dsimp only
            split
            · rfl
            · cases (analyze t).bindingFor? p with
              | none => rfl
              | some found =>
                  obtain ⟨number, b⟩ := found
                  dsimp only
                  split
                  · rfl
                  · rename_i hlink
                    simp only [Bool.or_eq_true, not_or, Option.isNone_iff_eq_none] at hlink
                    obtain ⟨init, hinit⟩ := Option.ne_none_iff_exists'.mp hlink.2
                    exact namesDecoder_withPlainNames decoder fuel _ _ (not_isPlainKey_initPlace hinit)
          · rename_i hname
            split
            · rename_i heq
              cases heq
              rw [withPlainNames_of_kind (by simp)] at hm
              exact (hname _ _ (congrArg some hm.symm)).elim
            · rfl

/-- **The calls of the decoder stay its calls.** -/
theorem callsDecoder_withPlainNames (decoder : Option String) :
    callsDecoder t.withPlainNames (analyze t.withPlainNames) decoder =
      callsDecoder t (analyze t) decoder := by
  funext p
  have halias : isAlias t.withPlainNames (analyze t.withPlainNames) decoder (p ++ [first]) =
      isAlias t (analyze t) decoder (p ++ [first]) := by
    cases decoder with
    | none => rfl
    | some word =>
        have hkey : ∀ name, ¬ IsPlainKey t (p ++ [first]) name := by
          rintro name ⟨q, m, hq, -⟩
          obtain ⟨-, hs⟩ := List.append_inj' hq rfl
          cases hs
        rw [isAlias, isAlias, bindings_withPlainNames hc, namesDecoder_withPlainNames hc _ _ _ _ hkey]
  unfold callsDecoder
  rw [halias]
  rcases get?_withPlainNames_cases hc p with ⟨name, hkey, hget⟩ | ⟨-, hget⟩
  · obtain ⟨raw, regex, slots, hliteral⟩ := hkey.get?
    rw [hget, hliteral]
  · rw [hget]
    cases t.get? p with
    | none => rfl
    | some n =>
        rw [Option.map_some]
        generalize hm : n.withPlainNames = m
        split
        · rename_i heq
          cases heq
          obtain ⟨slots, rfl, -⟩ := Node.eq_of_withPlainNames (by simp) hm
          rfl
        · rename_i hcall
          split
          · rename_i heq
            cases heq
            rw [withPlainNames_of_kind (by simp)] at hm
            exact (hcall _ (congrArg some hm.symm)).elim
          · rfl

/-! ## The values of names -/

theorem constantInit?_withPlainNames (decoder : Option String) (p : Position) :
    (Context.ofTree t.withPlainNames (analyze t.withPlainNames) decoder).constantInit? p =
      ((Context.ofTree t (analyze t) decoder).constantInit? p).map fun found =>
        (found.1, found.2.1, found.2.2.withPlainNames) := by
  simp only [Context.constantInit?, Context.ofTree, bindingFor?_withPlainNames hc,
    init?_withPlainNames hc]
  cases (analyze t).bindingFor? p with
  | none => rfl
  | some found =>
      obtain ⟨number, b⟩ := found
      simp only [Option.bind_eq_bind, Option.bind_some]
      cases b.init? t with
      | none => rfl
      | some init =>
          simp only [Option.map_some, Option.bind_some]
          split <;> rfl

theorem within_withPlainNames {decoder : Option String} {fuel : Nat} {passed : List Nat}
    (h : valueOfBinding (Context.ofTree t.withPlainNames (analyze t.withPlainNames) decoder) fuel passed =
      valueOfBinding (Context.ofTree t (analyze t) decoder) fuel passed) :
    (Context.ofTree t.withPlainNames (analyze t.withPlainNames) decoder).within fuel passed =
      (Context.ofTree t (analyze t) decoder).within fuel passed := by
  rw [Context.within, Context.within, h]
  simp only [Context.ofTree, isGlobal_withPlainNames hc, callsDecoder_withPlainNames hc]

/-- **Names keep their values.** -/
theorem valueOfBinding_withPlainNames (decoder : Option String) : ∀ (fuel : Nat) (passed : List Nat),
    valueOfBinding (Context.ofTree t.withPlainNames (analyze t.withPlainNames) decoder) fuel passed =
      valueOfBinding (Context.ofTree t (analyze t) decoder) fuel passed
  | 0, _ => rfl
  | fuel + 1, passed => by
      funext p name
      rw [valueOfBinding, valueOfBinding, constantInit?_withPlainNames hc]
      have hnumber : (Context.ofTree t.withPlainNames (analyze t.withPlainNames) decoder).analysis.bindingNumber? p =
          (Context.ofTree t (analyze t) decoder).analysis.bindingNumber? p :=
        congrFun (bindingNumber?_withPlainNames hc) p
      rw [hnumber]
      cases hfound : (Context.ofTree t (analyze t) decoder).constantInit? p with
      | none => rfl
      | some found =>
          obtain ⟨number, initPlace, init⟩ := found
          obtain ⟨b, -, hinit, -, -, -, -, rfl⟩ := constantInit?_eq_some.mp hfound
          have hwithin := within_withPlainNames hc
            (valueOfBinding_withPlainNames decoder fuel (number :: passed))
          have hvalue : valueOf ((Context.ofTree t.withPlainNames (analyze t.withPlainNames) decoder).within
                fuel (number :: passed)) b.initPlace init.withPlainNames =
              valueOf ((Context.ofTree t (analyze t) decoder).within fuel (number :: passed))
                b.initPlace init := by
            rw [hwithin, valueOf_withPlainNames init (Node.conforms_of_get? hc (get?_initPlace hinit))]
          simp only [Context.within] at hvalue
          simp only [Option.map_some, hvalue]

/-- **Every expression has the outcome that it had**, the new names apart. -/
theorem evaluate_withPlainNames (decoder : Option String) {p : Position}
    (hkey : ∀ name, ¬ IsPlainKey t p name) :
    (Context.ofTree t.withPlainNames (analyze t.withPlainNames) decoder).evaluate p =
      (Context.ofTree t (analyze t) decoder).evaluate p := by
  have hsurroundings : (Context.ofTree t.withPlainNames (analyze t.withPlainNames) decoder).surroundings =
      (Context.ofTree t (analyze t) decoder).surroundings := by
    show (Context.ofTree t.withPlainNames (analyze t.withPlainNames) decoder).within
        ((analyze t.withPlainNames).bindings.length + 1) [] =
      (Context.ofTree t (analyze t) decoder).within ((analyze t).bindings.length + 1) []
    rw [bindings_withPlainNames hc]
    exact within_withPlainNames hc (valueOfBinding_withPlainNames hc decoder _ [])
  have hget' : (Context.ofTree t.withPlainNames (analyze t.withPlainNames) decoder).tree.get? p =
      (t.get? p).map Node.withPlainNames := get?_withPlainNames hc hkey
  have hget : (Context.ofTree t (analyze t) decoder).tree.get? p = t.get? p := rfl
  rw [Context.evaluate, Context.evaluate, hget', hget, hsurroundings]
  cases hn : t.get? p with
  | none => rfl
  | some n => simp only [Option.map_some, valueOf_withPlainNames n (Node.conforms_of_get? hc hn)]

end

/-! ## The pass -/

theorem slotNames_withPlainNames {t : Node} (hc : t.conforms = true) (p : Position) :
    (t.withPlainNames.get? p).map (fun n => n.kind.slotNames) =
      (t.get? p).map fun n => n.kind.slotNames := by
  rcases get?_withPlainNames_cases hc p with ⟨name, hkey, hget⟩ | ⟨-, hget⟩
  · obtain ⟨raw, regex, slots, hliteral⟩ := hkey.get?
    rw [hget, hliteral]
    rfl
  · rw [hget, Option.map_map]
    refine congrArg (fun f => Option.map f (t.get? p)) (funext fun n => ?_)
    rcases kind_withPlainNames n with h | ⟨h, h'⟩
    · exact congrArg Kind.slotNames h
    · rw [Function.comp_apply, h, h']
      rfl

theorem foldl_normalizeAt_idle : ∀ (places : List Position) {r : Revision},
    (∀ p n, r.tree.get? p = some n → plainMember? n = none) → places.foldl normalizeAt r = r
  | [], _, _ => rfl
  | p :: places, r, h => by
      have hidle : normalizeAt r p = r := by
        unfold normalizeAt
        split
        · rename_i n hn
          rw [h p n hn]
        · rfl
      rw [List.foldl_cons, hidle, foldl_normalizeAt_idle places h]

/-- **The pass is not seen.**  It keeps all places, with their slots; the analysis finds the same
bindings, and the same identifiers refer to them; every expression has the outcome that it had, the new
names apart; and a second run has nothing to do. -/
theorem normalized_unseen {t : Node} (hc : t.conforms = true) :
    ∃ t' changed, (normalizeMembers t).outcome = .ok (t', changed) ∧
      (t'.places = t.places ∧ ∀ p, (t'.get? p).map (fun n => n.kind.slotNames) =
        (t.get? p).map fun n => n.kind.slotNames) ∧
      ((analyze t').bindings = (analyze t).bindings ∧
        (analyze t').occurrences = (analyze t).occurrences) ∧
      (∀ decoder p, (∀ name, ¬ CreatesName t t' p name) →
        (Context.ofTree t' (analyze t') decoder).evaluate p =
          (Context.ofTree t (analyze t) decoder).evaluate p) ∧
      (normalizeMembers t').outcome = .ok (t', false) := by
  refine ⟨_, _, normalizeMembers_outcome t, ?_⟩
  rw [normalizedRevision_tree hc]
  refine ⟨⟨places_withPlainNames hc, slotNames_withPlainNames hc⟩,
    ⟨bindings_withPlainNames hc, occurrences_withPlainNames hc⟩, ?_, ?_⟩
  · intro decoder p hnew
    exact evaluate_withPlainNames hc decoder fun name hkey =>
      hnew name ((createsName_iff hc).mpr hkey)
  · have hagain : normalizedRevision t.withPlainNames = ⟨t.withPlainNames, 0⟩ :=
      foldl_normalizeAt_idle _ fun p n hn => plainMember?_of_get?_withPlainNames hc hn
    rw [normalizeMembers_outcome, hagain]
    rfl

/-- The script `var s = "ab"; s["concat"]("c");`. -/
def bracketedKey : Node :=
  .mk (.program "script") [.many [
    some (.mk (.variableDeclaration .var) [.many [
      some (.declarator (.ident "s") (some (.lit (.text "ab") "\"ab\"")))]]),
    some (.unary1 (.expressionStatement none)
      (.callOf (.memberOf true (.ident "s") (.lit (.text "concat") "\"concat\""))
        [some (.lit (.text "c") "\"c\"")]))]]

/-- The method that is called by its plain name gives the text that it gave. -/
theorem normalized_unseen_bracketedKey :
    ∃ t' changed, (normalizeMembers bracketedKey).outcome = .ok (t', changed) ∧
      (analyze t').bindings = (analyze bracketedKey).bindings ∧
      (Context.ofTree t' (analyze t') none).evaluate [⟨0, some 1⟩, first] =
        .ok (.known (.text "abc")) ∧
      (normalizeMembers t').outcome = .ok (t', false) := by
  obtain ⟨t', changed, hout, ⟨-, hslots⟩, ⟨hbindings, -⟩, hevaluate, hagain⟩ :=
    normalized_unseen (t := bracketedKey) (by decide)
  refine ⟨t', changed, hout, hbindings, ?_, hagain⟩
  rw [hevaluate none]
  · rfl
  · -- a call has slots, and a name has none
    rintro name ⟨⟨slots, hget⟩, -⟩
    have hcall := hslots [⟨0, some 1⟩, first]
    rw [hget] at hcall
    cases hcall

end Descramble

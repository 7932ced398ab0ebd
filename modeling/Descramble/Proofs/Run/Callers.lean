import Descramble.Proofs.Pass.Aliases
import Descramble.Proofs.Pass.Resolving
import Descramble.Proofs.Run.Discovery

/-!
# Whose calls are resolved

Discovery finds the declaration of a function, but keeps its name only.  A call whose chain of aliases
comes to that name is resolved, also where a parameter, a variable or another function has the name.

* `FirstDecoder`, `exists_firstDecoder` — the function that the search for a decoder stops at.
* `DecoderDeclaration` — the declaration that a discovery has found.
* `exists_decoderDeclaration` — every discovery that finds a decoder has found one.
* `resolved_calls_decoder_iff` — when every resolved call is a call of that function.
-/

set_option autoImplicit false

namespace Descramble

/-! ## The declaration that is found -/

/-- What has no result need not be searched. -/
theorem firstResult?_filter {α β : Type} {f : α → Except Fault (Option β)} {keep : α → Bool}
    (h : ∀ a, keep a = false → f a = .ok none) :
    ∀ as : List α, firstResult? f (as.filter keep) = firstResult? f as
  | [] => rfl
  | a :: as => by
      cases hkeep : keep a with
      | true => simp only [List.filter_cons, hkeep, if_true, firstResult?, firstResult?_filter h as]
      | false =>
          simp only [List.filter_cons, hkeep, Bool.false_eq_true, if_false, firstResult?, h a hkeep,
            firstResult?_filter h as]
          rfl

/-- The first node of a tree that has the shape of a decoder. -/
def FirstDecoder (loader : Option String) (t : Node) (place : Position) (decoder : Decoder) : Prop :=
  ∃ earlier function later, t.sites = earlier ++ ⟨place, function⟩ :: later ∧
    (∀ site ∈ earlier, decoder? loader site.node = .ok none) ∧
      decoder? loader function = .ok (some decoder)

theorem functionParts?_eq_some {function body : Node} {name : String} {params : List (Option Node)}
    (h : functionParts? function = some (name, params, body)) :
    ∃ flags slots, function = .mk (.functionDeclaration flags)
      [.one (some (.mk (.identifier name) slots)), .many params, .one (some body)] := by
  unfold functionParts? at h
  split at h
  · cases h
    exact ⟨_, _, rfl⟩
  · cases h

/-- **The search for a decoder stops at the first node that has its shape.** -/
theorem exists_firstDecoder {loader : Option String} {t : Node} {decoder : Decoder}
    (h : findDecoder? loader t = .ok (some decoder)) : ∃ place, FirstDecoder loader t place decoder := by
  have hall : firstResult? (decoder? loader) (t.sites.map Site.node) = .ok (some decoder) := by
    rw [← h, findDecoder?, functionDeclarations]
    refine (firstResult?_filter (fun node hk => ?_) _).symm
    -- only function declarations have parts
    have hparts : functionParts? node = none := by
      rw [Option.eq_none_iff_forall_ne_some]
      rintro ⟨name, params, body⟩ hparts
      obtain ⟨flags, slots, rfl⟩ := functionParts?_eq_some hparts
      cases hk
    simp only [decoder?, hparts]
  obtain ⟨earlier, function, later, hsplit, hearlier, hfound⟩ := firstResult?_eq_some hall
  obtain ⟨sites, sites', hsites, rfl, hrest⟩ := List.map_eq_append_iff.mp hsplit
  obtain ⟨⟨place, node⟩, sites'', rfl, rfl, -⟩ := List.map_eq_cons_iff.mp hrest
  exact ⟨place, sites, node, sites'', hsites,
    fun site hsite => hearlier site.node (List.mem_map_of_mem hsite), hfound⟩

theorem FirstDecoder.get?_eq_some {loader : Option String} {t : Node} {place : Position}
    {decoder : Decoder} (h : FirstDecoder loader t place decoder) :
    ∃ flags slots params body, t.get? place = some (.mk (.functionDeclaration flags)
      [.one (some (.mk (.identifier decoder.name) slots)), .many params, .one (some body)]) := by
  obtain ⟨earlier, function, later, hsites, -, hshape⟩ := h
  have hsite : ⟨place, function⟩ ∈ t.sites := by
    rw [hsites]
    exact List.mem_append_right _ List.mem_cons_self
  obtain ⟨params, body, hparts, -⟩ := decoder?_eq_some hshape
  obtain ⟨flags, slots, rfl⟩ := functionParts?_eq_some hparts
  exact ⟨flags, slots, params, body, Node.mem_sites_iff.mp hsite⟩

/-- The declaration whose function a discovery has found to be the decoder. -/
structure DecoderDeclaration (s : RunState) (t : Node) (d : Declaration) : Prop where
  declared : d ∈ declarations t
  hoisted : d.kind = .hoisted
  first : ∃ decoder, FirstDecoder s.loaderName t d.place decoder ∧ d.name.name = decoder.name ∧
    s.offset = some (.int decoder.offset)
  known : s.decoderName = some d.name.name

/-- A named function below some parent is declared in the nearest scope around it. -/
theorem exists_declaration_of_function {t body : Node} {place : Position} {flags : FunctionFlags}
    {name : String} {slots : List Slot} {params : List (Option Node)} (hne : place ≠ [])
    (hget : t.get? place = some (.mk (.functionDeclaration flags)
      [.one (some (.mk (.identifier name) slots)), .many params, .one (some body)])) :
    ∃ d ∈ declarations t, d.kind = .hoisted ∧ d.place = place ∧ d.name.name = name := by
  obtain ⟨above, last, rfl⟩ : ∃ above last, place = above ++ [last] := by
    rcases List.eq_nil_or_concat place with rfl | ⟨above, last, rfl⟩
    · exact absurd rfl hne
    · exact ⟨above, last, List.concat_eq_append ..⟩
  obtain ⟨parent, hparent⟩ := Node.exists_get?_of_prefix hget (List.prefix_append above [last])
  obtain ⟨scope, outer, hscopes⟩ := List.exists_cons_of_ne_nil
    (List.ne_nil_of_mem (root_mem_scopesAround hparent))
  have hname : t.get? (above ++ [last] ++ [first]) = some (.mk (.identifier name) slots) := by
    rw [Node.get?_concat, hget]
    rfl
  have hdeclares : Declares t
      ⟨scope, ⟨above ++ [last] ++ [first], name⟩, .hoisted, above ++ [last]⟩ above last parent _ first
      .outer := {
    place_eq := rfl
    get_parent := hparent
    get_node := hget
    binds := rfl
    path := .here
    get_name := ⟨slots, hname⟩
    own := fun _ => rfl
    scope_eq := by rw [Home.pick, hscopes]; rfl }
  exact ⟨_, mem_declarations_iff.mpr ⟨_, _, _, _, _, _, hdeclares⟩, rfl, rfl, rfl⟩

/-- **A discovery that finds a decoder** has found a declared function. -/
theorem exists_decoderDeclaration {source : String} {t : Node} {s₀ s : RunState}
    (hroot : t.kind = .program source) (h : (discover t s₀).outcome = .ok s)
    (hnew : s₀.decoderFound = false) (hfound : s.decoderFound = true) :
    ∃ d, DecoderDeclaration s t d := by
  rcases discover_eq_ok.mp h with ⟨hold, -⟩ | ⟨-, s₁, h₁, h₂⟩
  · rw [hnew] at hold
    cases hold
  · rcases discoverDecoder_cases h₂ with ⟨rfl, -⟩ | ⟨loader, decoder, hloader, hdecoder, rfl⟩
    · rw [(discoverLoader_decoderFound h₁).1, hnew] at hfound
      cases hfound
    · obtain ⟨place, hfirst⟩ := exists_firstDecoder hdecoder
      obtain ⟨flags, slots, params, body, hget⟩ := hfirst.get?_eq_some
      have hne : place ≠ [] := by
        rintro rfl
        cases hget
        cases hroot
      obtain ⟨d, hd, hkind, rfl, hname⟩ := exists_declaration_of_function hne hget
      refine ⟨d, hd, hkind, ⟨decoder, ?_, hname, rfl⟩, ?_⟩
      · show FirstDecoder s₁.loaderName t d.place decoder
        rw [hloader]
        exact hfirst
      · show some decoder.name = some d.name.name
        rw [hname]

/-! ## Whose calls are resolved -/

section
variable {t t' u : Node} {s : RunState} {d : Declaration} {p : Position} {changed : Bool}
  {slots : List Slot} {text : String}

/-- The function of the declaration that is found has no initial value. -/
theorem DecoderDeclaration.not_aliasLink (hd : DecoderDeclaration s t d) {e q : Position}
    (h : RefersTo t e d) : ¬ AliasLink t e q := by
  obtain ⟨decoder, hfirst, -, -⟩ := hd.first
  obtain ⟨flags, slots, params, body, hget⟩ := hfirst.get?_eq_some
  exact h.not_aliasLink hd.declared ⟨flags, _, hget⟩

theorem revisedFrom_of_comesTo (hu : ComesTo s t p u) : RevisedFrom t u := by
  obtain ⟨earlier, later, count, -, hearlier⟩ := hu
  exact visitEach_induction (P := fun r => RevisedFrom t r.tree) (fun _ _ _ h hv => h.resolveAt hv)
    (RevisedFrom.refl t) hearlier

/-- **A call that stands for a text leads to the decoder's name.** -/
theorem exists_leadsTo_of_resolvedEntry? (hd : DecoderDeclaration s t d) (hu : ComesTo s t p u)
    (hentry : resolvedEntry? s (analyze t) u p = .ok (some text)) :
    ∃ e slots, LeadsTo t (p ++ [first]) e ∧
      t.get? e = some (.mk (.identifier d.name.name) slots) := by
  obtain ⟨-, -, -, -, -, halias, -⟩ := resolvedEntry?_eq_some.mp hentry
  rw [hd.known] at halias
  exact exists_leadsTo_of_isAlias (revisedFrom_of_comesTo hu) halias

/-- An identifier that a chain from a callee comes to refers to the decoder if nothing nearer captures
its name. -/
theorem refersTo_iff_of_leadsTo (hd : DecoderDeclaration s t d)
    (hcall : t.get? p = some (.mk .call slots)) {e : Position} (h : LeadsTo t (p ++ [first]) e) :
    RefersTo t e d ↔ (∃ slots, t.get? e = some (.mk (.identifier d.name.name) slots)) ∧
      NearestAround t d e := by
  constructor
  · intro hrefers
    obtain ⟨name, hocc⟩ := hrefers.exists_occurs
    obtain ⟨rfl, hnearest⟩ := (refersTo_iff hd.declared hocc).mp hrefers
    exact ⟨hocc.get, hnearest⟩
  · rintro ⟨⟨slots', hget⟩, hnearest⟩
    have hocc := h.occurs (fun _ _ hcallee => occurs_callee hcall hcallee) hget
    exact (refersTo_iff hd.declared hocc).mpr ⟨rfl, hnearest⟩

end

/-- **When all resolved calls are calls of the decoder.**  A discovery that finds a decoder has found
a declared function.  The chain of aliases from the callee of a resolved call comes to an identifier
with its name.  All these chains end in identifiers that refer to that declaration exactly if each call
that stands for a text when the pass comes to it leads to such an identifier in its scope, with no
declaration of the name in a nearer one. -/
theorem resolved_calls_decoder_iff {source : String} {t t' : Node} {s₀ s : RunState} {changed : Bool}
    (hroot : t.kind = .program source) (hdiscover : (discover t s₀).outcome = .ok s)
    (hnew : s₀.decoderFound = false) (hfound : s.decoderFound = true)
    (hrun : (resolveCalls s t).outcome = .ok (t', changed)) :
    ∃ d, DecoderDeclaration s t d ∧
      (∀ p slots text, t.get? p = some (.mk .call slots) → t'.get? p = some (.ofText text) →
        ∃ e slots, LeadsTo t (p ++ [first]) e ∧
          t.get? e = some (.mk (.identifier d.name.name) slots)) ∧
      ((∀ p slots text, t.get? p = some (.mk .call slots) → t'.get? p = some (.ofText text) →
          ∃ e, AliasEnd t (p ++ [first]) e ∧ RefersTo t e d) ↔
        ∀ p u text, ComesTo s t p u → resolvedEntry? s (analyze t) u p = .ok (some text) →
          ∃ e slots, LeadsTo t (p ++ [first]) e ∧
            t.get? e = some (.mk (.identifier d.name.name) slots) ∧ NearestAround t d e) := by
  obtain ⟨d, hd⟩ := exists_decoderDeclaration hroot hdiscover hnew hfound
  refine ⟨d, hd, ?_, ?_, ?_⟩
  · intro p slots text hcall htext
    obtain ⟨u, hu⟩ := exists_comesTo hfound hrun hcall
    exact exists_leadsTo_of_resolvedEntry? hd hu
      ((replaced_iff_resolved hfound hrun hu).mp ⟨⟨slots, hcall⟩, htext⟩)
  · intro hdecoder p u text hu hentry
    obtain ⟨⟨slots, hcall⟩, htext⟩ := (replaced_iff_resolved hfound hrun hu).mpr hentry
    obtain ⟨e, ⟨hleads, -⟩, hrefers⟩ := hdecoder p slots text hcall htext
    obtain ⟨⟨slots', hget⟩, hnearest⟩ := (refersTo_iff_of_leadsTo hd hcall hleads).mp hrefers
    exact ⟨e, slots', hleads, hget, hnearest⟩
  · intro hnearest p slots text hcall htext
    obtain ⟨u, hu⟩ := exists_comesTo hfound hrun hcall
    obtain ⟨e, slots', hleads, hget, hin⟩ := hnearest p u text hu
      ((replaced_iff_resolved hfound hrun hu).mp ⟨⟨slots, hcall⟩, htext⟩)
    have hrefers := (refersTo_iff_of_leadsTo hd hcall hleads).mpr ⟨⟨slots', hget⟩, hin⟩
    exact ⟨e, ⟨hleads, fun q => hd.not_aliasLink hrefers⟩, hrefers⟩

/-- The loader `A` of two texts, the decoder `B` with the offset 5, and a function with a parameter
`B`: `function g(B) { return B(5); }`.  The statement is `use(g(h), B(5));`. -/
def shadowedDecoder : Node :=
  .programOf "script" [
    .functionNamed "A" [] [
      .varOf "t" (.mk .arrayExpression [.many [
        some (.lit (.text "x") "\"x\""), some (.lit (.text "y") "\"y\"")]]),
      .statementOf (.assigned "A" (.functionOf [] [.returnOf (.ident "t")])),
      .returnOf (.callOf (.ident "A") [])],
    .functionNamed "B" ["a"] [
      .varOf "b" (.callOf (.ident "A") []),
      .returnOf (.memberOf true (.ident "b") (.lessened "a" (.lit (.number (.int 5)) "5")))],
    .functionNamed "g" ["B"] [.returnOf (.callOf (.ident "B") [
      some (.lit (.number (.int 5)) "5")])],
    .statementOf (.callOf (.ident "use") [some (.callOf (.ident "g") [some (.ident "h")]),
      some (.callOf (.ident "B") [some (.lit (.number (.int 5)) "5")])])]

/-- What a discovery finds there. -/
def twoEntries : RunState where
  table := ["x", "y"]
  loaderName := some "A"
  decoderName := some "B"
  offset := some (.int 5)
  decoderFound := true

/-- The place of `B(5)` in the function with the parameter `B`. -/
def shadowedCall : Position := [⟨0, some 2⟩, ⟨2, none⟩, ⟨0, some 0⟩, first]

/-- The call of the parameter becomes `"x"`. -/
theorem resolved_calls_decoder_iff_shadowedDecoder :
    shadowedDecoder.kind = .program "script" ∧ ({} : RunState).decoderFound = false ∧
      twoEntries.decoderFound = true ∧
      (discover shadowedDecoder {}).outcome = .ok twoEntries ∧
      ∃ t' changed, (resolveCalls twoEntries shadowedDecoder).outcome = .ok (t', changed) ∧
        ∃ d, DecoderDeclaration twoEntries shadowedDecoder d ∧
          ¬ ∀ p slots text, shadowedDecoder.get? p = some (.mk .call slots) →
            t'.get? p = some (.ofText text) →
              ∃ e, AliasEnd shadowedDecoder (p ++ [first]) e ∧ RefersTo shadowedDecoder e d := by
  have hdiscover : (discover shadowedDecoder {}).outcome = .ok twoEntries :=
    eq_ok_of_toOption (by decide +kernel)
  obtain ⟨⟨t', changed⟩, hrun⟩ := Option.isSome_iff_exists.mp
    (show (resolveCalls twoEntries shadowedDecoder).outcome.toOption.isSome = true by
      decide +kernel)
  have hrun := eq_ok_of_toOption hrun
  obtain ⟨d, hd, -, hiff⟩ := resolved_calls_decoder_iff rfl hdiscover rfl rfl hrun
  refine ⟨rfl, rfl, rfl, hdiscover, t', changed, hrun, d, hd, ?_⟩
  rw [hiff]
  intro hnearest
  have hcomes : ComesTo twoEntries shadowedDecoder shadowedCall shadowedDecoder :=
    ⟨shadowedDecoder.places.take 40, shadowedDecoder.places.drop 41, 0, rfl, rfl⟩
  have hentry : resolvedEntry? twoEntries (analyze shadowedDecoder) shadowedDecoder shadowedCall =
      .ok (some "x") := eq_ok_of_toOption (by decide +kernel)
  obtain ⟨e, slots, hleads, hget, hin⟩ := hnearest _ _ _ hcomes hentry
  have hrefers := (refersTo_iff_of_leadsTo hd rfl hleads).mpr ⟨⟨slots, hget⟩, hin⟩
  -- the callee refers to the parameter, which has no initial value
  obtain ⟨⟨i, b⟩, hb, hplaces⟩ := Option.map_eq_some_iff.mp
    (show ((analyze shadowedDecoder).bindingFor? (shadowedCall ++ [first])).map
        (fun found => (found.2.scope.place, found.2.place)) =
      some ([⟨0, some 2⟩], [⟨0, some 2⟩]) by decide +kernel)
  simp only [Prod.mk.injEq] at hplaces
  cases hleads with
  | refl =>
      obtain ⟨j, c, hc, hkey⟩ := hrefers
      cases hb.symm.trans hc
      have hroot : ∀ d ∈ declarations shadowedDecoder, d.kind = .hoisted → d.scope.place = [] := by
        decide +kernel
      have hscope : b.scope.place = d.scope.place := congrArg Prod.fst hkey
      rw [hplaces.1, hroot d hd.declared hd.hoisted] at hscope
      cases hscope
  | link hlink _ =>
      obtain ⟨j, c, init, hc, -, hinit, -⟩ := hlink
      cases hb.symm.trans hc
      simp only [Binding.init?, hplaces.2] at hinit
      cases hinit

end Descramble

import Descramble.Proofs.Pass.Aliases
import Descramble.Proofs.Pass.Resolving
import Mathlib.Data.List.Pairwise

/-!
# What resolving replaces

Resolving goes on below the calls that it has replaced, and it looks at the later ones in a tree that
it has changed already, with what was known about the names of the first tree.  All that it does is to
write texts into places of which none is above another one.

* `Node.withTexts` — a tree with texts written into it.
* `ResolvedFrom` — each node is as it was, or it is a text in the place of a call.  In such a tree the
  same names call the decoder (`ResolvedFrom.isAlias_eq`).
* `Edited` — the texts that the visits of some places write; `Edited.pairwise`, `Edited.exists_turn`.
* `resolveCalls_edits` — the pass replaces calls of the decoder by entries of the table, and of those
  with an integer literal exactly the ones whose entry is there.
-/

set_option autoImplicit false

namespace Descramble

/-! ## Texts in a tree -/

/-- Neither place stands at the other one or below it. -/
def Position.Apart (p q : Position) : Prop := ¬ p <+: q ∧ ¬ q <+: p

instance : Std.Symm fun e f : Position × String => e.1.Apart f.1 := ⟨fun _ _ => And.symm⟩

/-- Of edits that are apart none is above another one. -/
theorem eq_of_above {edits : List (Position × String)}
    (hapart : edits.Pairwise fun e f => e.1.Apart f.1) {e f : Position × String} (he : e ∈ edits)
    (hf : f ∈ edits) (habove : e.1 <+: f.1) : e = f :=
  Decidable.byContradiction fun hne => (hapart.forall he hf hne).1 habove

namespace Node

/-- The tree with texts in the places of nodes, one written after the other. -/
def withTexts (t : Node) (edits : List (Position × String)) : Node :=
  edits.foldl (fun u e => u.replaceAt e.1 (.ofText e.2)) t

@[simp] theorem withTexts_nil (t : Node) : t.withTexts [] = t := rfl

@[simp] theorem withTexts_cons (t : Node) (p : Position) (text : String)
    (edits : List (Position × String)) :
    t.withTexts ((p, text) :: edits) = (t.replaceAt p (.ofText text)).withTexts edits := rfl

/-- A node that is apart from all texts is as it was. -/
theorem get?_withTexts_of_apart {p : Position} : ∀ {edits : List (Position × String)} {t : Node},
    (∀ e ∈ edits, e.1.Apart p) → (t.withTexts edits).get? p = t.get? p
  | [], _, _ => rfl
  | (q, text) :: edits, t, h => by
      obtain ⟨hqp, hpq⟩ := h (q, text) List.mem_cons_self
      rw [withTexts_cons, get?_withTexts_of_apart fun e he => h e (List.mem_cons_of_mem _ he)]
      exact get?_modifyAt_of_not_prefix _ t q p hqp hpq

/-- Only the text has its kind and its slots. -/
theorem eq_ofText_of_layout {n : Node} {text : String} (h : n.layout = (ofText text).layout) :
    n = ofText text := by
  obtain ⟨k, slots⟩ := n
  simp only [layout, skeleton, Prod.mk.injEq] at h
  obtain ⟨hk, hslots⟩ := h
  obtain rfl : slots = [] := List.map_eq_nil_iff.mp hslots
  exact congrArg (Node.mk · []) hk

end Node

/-! ## Names in a tree with texts -/

/-- Each node of `u` has the kind and the slots of the node at its place in `t`, or it is a text in the
place of a call. -/
def ResolvedFrom (t u : Node) : Prop :=
  ∀ p n, u.get? p = some n →
    (∃ text slots, n = .ofText text ∧ t.get? p = some (.mk .call slots)) ∨
      (t.get? p).map Node.layout = some n.layout

namespace ResolvedFrom

variable {t u : Node} {p q : Position}

theorem refl (t : Node) : ResolvedFrom t t := by
  intro p n hn
  rw [hn]
  exact Or.inr rfl

theorem revisedFrom (h : ResolvedFrom t u) : RevisedFrom t u := by
  intro p n hn
  refine (h p n hn).imp ?_ id
  rintro ⟨text, slots, rfl, -⟩
  exact isWritten_ofText text

/-- A call of the revised tree was a call before. -/
theorem exists_call (h : ResolvedFrom t u) {slots : List Slot}
    (hget : u.get? p = some (.mk .call slots)) : ∃ slots', t.get? p = some (.mk .call slots') := by
  rcases h p _ hget with ⟨text, slots', htext, -⟩ | hlayout
  · cases htext
  · obtain ⟨⟨k, slots'⟩, hn, he⟩ := Option.map_eq_some_iff.mp hlayout
    simp only [Node.layout, Prod.mk.injEq] at he
    obtain ⟨rfl, -⟩ : k = .call ∧ _ := he
    exact ⟨slots', hn⟩

/-- **One call is replaced** by a text. -/
theorem replaceAt (h : ResolvedFrom t u) {slots : List Slot}
    (hget : u.get? q = some (.mk .call slots)) (text : String) :
    ResolvedFrom t (u.replaceAt q (.ofText text)) := by
  intro p n hn
  by_cases hpre : q <+: p
  · obtain ⟨s, rfl⟩ := hpre
    rw [Node.get?_replaceAt_append, hget, Option.bind_some] at hn
    obtain rfl := get?_ofText hn
    obtain ⟨slots', hcall⟩ := h.exists_call hget
    cases hn
    exact Or.inl ⟨text, slots', rfl, by rwa [List.append_nil]⟩
  · have hlayout := Node.map_get?_modifyAt_of_not_prefix Node.layout_modifyChild
      (fun _ => .ofText text) u q p hpre
    rw [← Node.replaceAt, hn, Option.map_some] at hlayout
    obtain ⟨m, hm, he⟩ := Option.map_eq_some_iff.mp hlayout.symm
    rcases h p m hm with ⟨text', slots', rfl, hcall⟩ | hkept
    · exact Or.inl ⟨text', slots', Node.eq_ofText_of_layout he.symm, hcall⟩
    · exact Or.inr (hkept.trans (congrArg some he))

/-- The same identifiers are found. -/
theorem exists_identifier (h : ResolvedFrom t u) {name : String} {slots : List Slot}
    (hget : t.get? p = some (.mk (.identifier name) slots)) :
    ∃ slots', (analyze t).nodeAt? u p = some (.mk (.identifier name) slots') := by
  cases hu : u.get? p with
  | none => exact ⟨slots, by rw [Analysis.nodeAt?, hu, Option.none_or]; exact hget⟩
  | some n =>
      refine ⟨n.slots, (nodeAt?_of_get? hu).trans (congrArg some ?_)⟩
      rcases h p n hu with ⟨text, slots', -, hcall⟩ | hlayout
      · cases hget.symm.trans hcall
      · rw [hget, Option.map_some, Option.some.injEq] at hlayout
        simp only [Node.layout, Prod.mk.injEq] at hlayout
        obtain ⟨k, slots'⟩ := n
        exact congrArg (Node.mk · slots') hlayout.1.symm

/-- The same bindings have initial values. -/
theorem isNone_init? (h : ResolvedFrom t u) (b : Binding) :
    ((analyze t).init? u b).isNone = ((analyze t).init? t b).isNone := by
  cases hu : b.init? u with
  | none =>
      simp only [Analysis.init?, hu, Option.none_or, analyze_root, Option.or_self]
  | some init =>
      obtain ⟨init₀, hinit₀⟩ : ∃ init₀, t.get? b.initPlace = some init₀ := by
        rcases h _ _ (get?_initPlace hu) with ⟨text, slots, -, hcall⟩ | hlayout
        · exact ⟨_, hcall⟩
        · obtain ⟨m, hm, -⟩ := Option.map_eq_some_iff.mp hlayout
          exact ⟨m, hm⟩
      have hrevised := analysis_init?_of_init? (a := analyze t) hu
      rw [hrevised, analysis_init?_of_init? (h.revisedFrom.exists_init? hrevised hinit₀)]
      rfl

theorem namesDecoder_eq (h : ResolvedFrom t u) (decoder : String) (fuel : Nat) :
    ∀ (passed : List Nat) (p : Position), namesDecoder u (analyze t) decoder fuel passed p =
      namesDecoder t (analyze t) decoder fuel passed p := by
  induction fuel with
  | zero => exact fun _ _ => rfl
  | succ fuel ih =>
      intro passed p
      rw [namesDecoder, namesDecoder]
      split
      · rename_i name slots hget
        obtain ⟨slots', hget'⟩ := h.revisedFrom.exists_identifier hget
        simp only [nodeAt?_of_get? hget', h.isNone_init?, ih]
      · rename_i hother
        split
        · rename_i name slots hget
          rw [Analysis.nodeAt?, analyze_root, Option.or_self] at hget
          obtain ⟨slots', hget'⟩ := h.exists_identifier hget
          exact absurd hget' (hother name slots')
        · rfl

/-- **The same names call the decoder**, by what is known about the first tree. -/
theorem isAlias_eq (h : ResolvedFrom t u) (decoder : Option String) (p : Position) :
    isAlias u (analyze t) decoder p = isAlias t (analyze t) decoder p := by
  cases decoder with
  | none => rfl
  | some name => simp only [isAlias, h.namesDecoder_eq]

end ResolvedFrom

/-! ## The texts that are written -/

/-- The texts that the visits of some places write, from a tree on. -/
inductive Edited (state : RunState) (a : Analysis) :
    Node → List Position → List (Position × String) → Prop where
  | nil (u : Node) : Edited state a u [] []
  | keep {u : Node} {p : Position} {places : List Position} {edits : List (Position × String)}
      (hentry : resolvedEntry? state a u p = .ok none) (rest : Edited state a u places edits) :
      Edited state a u (p :: places) edits
  | replace {u : Node} {p : Position} {text : String} {places : List Position}
      {edits : List (Position × String)} (hentry : resolvedEntry? state a u p = .ok (some text))
      (rest : Edited state a (u.replaceAt p (.ofText text)) places edits) :
      Edited state a u (p :: places) ((p, text) :: edits)

theorem exists_edited {state : RunState} {a : Analysis} : ∀ {places : List Position}
    {r r' : Revision}, visitEach (resolveAt state a) places r = .ok r' →
      ∃ edits, Edited state a r.tree places edits ∧ r'.tree = r.tree.withTexts edits
  | [], _, _, h => by
      cases h
      exact ⟨[], .nil _, rfl⟩
  | p :: places, r, r', h => by
      obtain ⟨r₁, hvisit, hrest⟩ := bind_eq_ok.mp h
      obtain ⟨edits, hedits, htree⟩ := exists_edited hrest
      cases hentry : resolvedEntry? state a r.tree p with
      | error fault => simp [resolveAt, hentry, bind, Except.bind] at hvisit
      | ok entry =>
          cases entry with
          | none =>
              simp only [resolveAt, hentry, bind, Except.bind, pure, Except.pure] at hvisit
              cases hvisit
              exact ⟨edits, .keep hentry hedits, htree⟩
          | some text =>
              simp only [resolveAt, hentry, bind, Except.bind, pure, Except.pure] at hvisit
              cases hvisit
              exact ⟨(p, text) :: edits, .replace hentry hedits, htree⟩

namespace Edited

variable {state : RunState} {a : Analysis} {t u : Node} {p q : Position} {text : String}
  {places earlier later : List Position} {edits : List (Position × String)}

/-- Texts are written in the order of the visits. -/
theorem sublist (h : Edited state a u places edits) : (edits.map Prod.fst).Sublist places := by
  induction h with
  | nil u => exact .slnil
  | keep _ _ ih => exact ih.cons _
  | replace _ _ ih => exact ih.cons_cons _

theorem mem_places (h : Edited state a u places edits) {e : Position × String} (he : e ∈ edits) :
    e.1 ∈ places := h.sublist.subset (List.mem_map_of_mem he)

theorem resolvedFrom (h : Edited state a u places edits) :
    ResolvedFrom t u → ResolvedFrom t (u.withTexts edits) := by
  induction h with
  | nil u => exact id
  | keep _ _ ih => exact ih
  | replace hentry _ ih =>
      obtain ⟨slots, hget⟩ := get?_of_resolvedEntry? hentry
      exact fun hu => ih (hu.replaceAt hget _)

/-- Nothing is written below a text. -/
theorem not_below (h : Edited state a u places edits) :
    u.get? q = some (.ofText text) → (∀ p ∈ places, ¬ p <+: q) → ∀ e ∈ edits, ¬ q <+: e.1 := by
  induction h with
  | nil u => simp
  | keep _ _ ih => exact fun hq hnot => ih hq fun p hp => hnot p (List.mem_cons_of_mem _ hp)
  | @replace u p text' places edits hentry _ ih =>
      intro hq hnot
      obtain ⟨slots, hget⟩ := get?_of_resolvedEntry? hentry
      have hpq := hnot p List.mem_cons_self
      have hstays := get?_replaceAt_of_isWritten (l := .ofText text') (isWritten_ofText text) hq hget
        (not_isWritten_of_kind rfl) hpq
      intro e he
      rcases List.mem_cons.mp he with rfl | he
      · rintro ⟨s, rfl⟩
        rw [Node.get?_append, hq, Option.bind_some] at hget
        obtain rfl := get?_ofText hget
        cases hget
      · exact ih hstays (fun p hp => hnot p (List.mem_cons_of_mem _ hp)) e he

/-- **No text is written above or below another one.** -/
theorem pairwise (h : Edited state a u places edits) :
    places.Pairwise (fun p q => p.before q = true) →
      edits.Pairwise fun e f => e.1.Apart f.1 := by
  induction h with
  | nil u => exact fun _ => .nil
  | keep _ _ ih => exact fun hforward => ih (List.pairwise_cons.mp hforward).2
  | @replace u p text places edits hentry rest ih =>
      intro hforward
      obtain ⟨hp, hforward⟩ := List.pairwise_cons.mp hforward
      have hnot : ∀ q ∈ places, ¬ q <+: p := fun q hq => Position.not_prefix_of_before (hp q hq)
      have htext : (u.replaceAt p (.ofText text)).get? p = some (.ofText text) := by
        obtain ⟨slots, hget⟩ := get?_of_resolvedEntry? hentry
        have := u.get?_replaceAt_append (.ofText text) p []
        rwa [List.append_nil, hget] at this
      exact List.pairwise_cons.mpr ⟨fun e he => ⟨rest.not_below htext hnot e he,
        hnot e.1 (rest.mem_places he)⟩, ih hforward⟩

theorem split : ∀ {earlier : List Position} {u : Node} {edits : List (Position × String)},
    Edited state a u (earlier ++ later) edits →
      ∃ done rest, edits = done ++ rest ∧ Edited state a u earlier done ∧
        Edited state a (u.withTexts done) later rest
  | [], u, edits, h => ⟨[], edits, rfl, .nil u, h⟩
  | p :: earlier, u, edits, h => by
      cases h with
      | keep hentry h =>
          obtain ⟨done, rest, rfl, hdone, hrest⟩ := split h
          exact ⟨done, rest, rfl, .keep hentry hdone, hrest⟩
      | @replace _ _ text _ edits hentry h =>
          obtain ⟨done, rest, rfl, hdone, hrest⟩ := split h
          exact ⟨(p, text) :: done, rest, rfl, .replace hentry hdone, hrest⟩

/-- **The turn of a place**: a text is written there just if the node stands for it in the tree that the
earlier visits have left. -/
theorem exists_turn (h : Edited state a u (earlier ++ p :: later) edits)
    (hnodup : (earlier ++ p :: later).Nodup) :
    ∃ done entry, Edited state a u earlier done ∧ (∀ e ∈ done, e ∈ edits) ∧
      resolvedEntry? state a (u.withTexts done) p = .ok entry ∧
        ∀ text, (p, text) ∈ edits ↔ entry = some text := by
  obtain ⟨done, rest, rfl, hdone, hrest⟩ := h.split
  obtain ⟨-, hlater, hne⟩ := List.nodup_append.mp hnodup
  have hearlier : ∀ text, (p, text) ∉ done := fun text hmem =>
    hne p (hdone.mem_places hmem) p List.mem_cons_self rfl
  have hsub : ∀ e ∈ done, e ∈ done ++ rest := fun e he => List.mem_append_left _ he
  cases hrest with
  | keep hentry hrest =>
      refine ⟨done, none, hdone, hsub, hentry, fun text => ?_⟩
      simp only [List.mem_append, hearlier, false_or, reduceCtorEq, iff_false]
      exact fun hmem => (List.nodup_cons.mp hlater).1 (hrest.mem_places hmem)
  | @replace _ _ text' _ rest hentry hrest =>
      refine ⟨done, some text', hdone, hsub, hentry, fun text => ?_⟩
      simp only [List.mem_append, hearlier, false_or, List.mem_cons, Prod.mk.injEq, true_and,
        Option.some.injEq]
      refine ⟨fun hmem => hmem.elim Eq.symm fun hmem => ?_, fun he => Or.inl he.symm⟩
      exact absurd (hrest.mem_places hmem) (List.nodup_cons.mp hlater).1

/-- **The turn of a call** that nothing above has been replaced of: it is as it was. -/
theorem exists_untouched (h : Edited state a t t.places edits) {n : Node} (hn : t.get? p = some n)
    (hout : ∀ e ∈ edits, e.1 <+: p → e.1 = p) :
    ∃ u entry, ResolvedFrom t u ∧ u.get? p = some n ∧ resolvedEntry? state a u p = .ok entry ∧
      ∀ text, (p, text) ∈ edits ↔ entry = some text := by
  obtain ⟨earlier, later, hsplit⟩ := List.append_of_mem (Node.mem_places_iff.mpr ⟨n, hn⟩)
  have hforward := t.pairwise_places
  have hnodup := t.places_nodup
  rw [hsplit] at h hforward hnodup
  obtain ⟨done, entry, hdone, hsub, hentry, htext⟩ := h.exists_turn hnodup
  refine ⟨t.withTexts done, entry, hdone.resolvedFrom (.refl t), ?_, hentry, htext⟩
  rw [Node.get?_withTexts_of_apart fun e he => ?_, hn]
  have hbefore : e.1.before p = true :=
    (List.pairwise_append.mp hforward).2.2 e.1 (hdone.mem_places he) p List.mem_cons_self
  refine ⟨fun habove => ?_, Position.not_prefix_of_before hbefore⟩
  rw [hout e (hsub e he) habove, Position.before_irrefl] at hbefore
  cases hbefore

end Edited

/-! ## The pass -/

section
variable {state : RunState} {t t' : Node} {changed : Bool}

/-- **Resolving is exact on integer literals and touches nothing else.**  The result is the tree with
texts in the places of calls, none of them above another.  Each of these calls the decoder, by what is
known about the tree before the pass, has an argument, and becomes an entry of the table.  A call of
the decoder whose first argument is the literal of an integer, and which is not inside another call
that is replaced, becomes the entry at the integer less the offset, if there is one. -/
theorem resolveCalls_edits (hfound : state.decoderFound = true) {offset : Int}
    (hoffset : state.offset = some (.int offset))
    (h : (resolveCalls state t).outcome = .ok (t', changed)) :
    ∃ edits : List (Position × String), t' = t.withTexts edits ∧
      edits.Pairwise (fun e f => e.1.Apart f.1) ∧
      (∀ p text, (p, text) ∈ edits →
        (∃ callee arg rest, t.get? p = some (.mk .call [callee, .many (arg :: rest)])) ∧
          isAlias t (analyze t) state.decoderName (p ++ [first]) = true ∧ text ∈ state.table) ∧
      ∀ p callee arg rest v, t.get? p = some (.mk .call [callee, .many (some arg :: rest)]) →
        isAlias t (analyze t) state.decoderName (p ++ [first]) = true →
        Node.ofNumber (.int v) = .ok arg → v.natAbs < Number.safeBound →
        (∀ e ∈ edits, e.1 <+: p → e.1 = p) →
          ((∃ text, (p, text) ∈ edits) ↔ 0 ≤ v - offset ∧ v - offset < state.table.length) ∧
            ∀ text, (p, text) ∈ edits → state.table[(v - offset).toNat]? = some text := by
  rcases resolveCalls_eq_ok.mp h with ⟨hnot, -⟩ | ⟨-, r, hr, htree, -⟩
  · rw [hfound] at hnot
    cases hnot
  obtain ⟨edits, hedits, hr⟩ := exists_edited hr
  have hapart := hedits.pairwise t.pairwise_places
  refine ⟨edits, htree.symm.trans hr, hapart, fun p text hmem => ?_,
    fun p callee arg rest v hget halias hnode hsmall hout => ?_⟩
  · obtain ⟨n, hn⟩ := Node.mem_places_iff.mp (hedits.mem_places hmem)
    have hout : ∀ e ∈ edits, e.1 <+: p → e.1 = p := fun e he habove =>
      congrArg Prod.fst (eq_of_above hapart he hmem habove)
    obtain ⟨u, entry, hu, hget, hentry, htext⟩ := hedits.exists_untouched hn hout
    rw [(htext text).mp hmem] at hentry
    obtain ⟨callee, arg, rest, v, hcall, halias, -, hfrom⟩ := resolvedEntry?_eq_some.mp hentry
    cases hget.symm.trans hcall
    exact ⟨⟨callee, arg, rest, hn⟩, hu.isAlias_eq _ _ ▸ halias, RunState.mem_table_of_entry? hfrom⟩
  · obtain ⟨u, entry, hu, hcall, hentry, htext⟩ := hedits.exists_untouched hget hout
    have hsafe : Number.isSafe v = true := Number.isSafe_iff.mpr hsmall
    have hvalue : (Context.ofTree u (analyze t) state.decoderName).evaluate (p ++ [⟨1, some 0⟩]) =
        .ok (.known (.number (.int v))) := by
      refine evaluate_ofInt (show u.get? (p ++ [⟨1, some 0⟩]) = some (.ofInt v) from ?_) hsafe
      rw [Node.get?_concat, hcall, Node.ofInt, hnode]
      rfl
    rw [resolvedEntry?_call hcall (hu.isAlias_eq _ _ ▸ halias) hvalue] at hentry
    simp only [htext]
    exact RunState.entry?_int_eq_some hoffset hentry

end

/-- `var k = B; k(6, k(5)); k(7);` -/
def nestedCalls : Node :=
  .programOf "script" [.varOf "k" (.ident "B"),
    .statementOf (.callOf (.ident "k") [some (.ofInt 6),
      some (.callOf (.ident "k") [some (.ofInt 5)])]),
    .statementOf (.callOf (.ident "k") [some (.ofInt 7)])]

/-- A decoder `B` with the offset `5`, and a table of two texts. -/
def twoTexts : RunState where
  table := ["x", "y"]
  loaderName := some "A"
  decoderName := some "B"
  offset := some (.int 5)
  decoderFound := true

/-- The first call becomes `"y"`, with the call inside; the table has no entry for the other one. -/
theorem resolveCalls_edits_nestedCalls :
    twoTexts.decoderFound = true ∧ twoTexts.offset = some (.int 5) ∧
      ∃ t' changed edits, (resolveCalls twoTexts nestedCalls).outcome = .ok (t', changed) ∧
        t' = nestedCalls.withTexts edits ∧ ([⟨0, some 1⟩, first], "y") ∈ edits ∧
        ∀ text, ([⟨0, some 2⟩, first], text) ∉ edits := by
  obtain ⟨⟨t', changed⟩, hrun⟩ := Option.isSome_iff_exists.mp
    (show (resolveCalls twoTexts nestedCalls).outcome.toOption.isSome = true by decide +kernel)
  have hrun := eq_ok_of_toOption hrun
  obtain ⟨edits, htree, -, hcalls, hexact⟩ := resolveCalls_edits rfl rfl hrun
  -- above the calls stand a statement and the program
  have hout : ∀ s, s ∈ [(⟨0, some 1⟩ : Step), ⟨0, some 2⟩] →
      ∀ e ∈ edits, e.1 <+: [s, first] → e.1 = [s, first] := by
    rintro s hs ⟨q, text⟩ he habove
    obtain ⟨⟨callee, arg, rest, hcall⟩, -⟩ := hcalls q text he
    rcases List.prefix_concat_iff.mp (show q <+: [s] ++ [first] from habove) with rfl | habove
    · rfl
    · rcases List.prefix_concat_iff.mp (show q <+: [] ++ [s] from habove) with rfl | habove
      · simp only [List.mem_cons, List.not_mem_nil, or_false] at hs
        rcases hs with rfl | rfl <;> cases hcall
      · obtain rfl := List.prefix_nil.mp habove
        cases hcall
  obtain ⟨⟨-, hhas⟩, hentry⟩ := hexact [⟨0, some 1⟩, first] _ _ _ 6 rfl (by decide +kernel)
    (ofNumber_eq_ofInt (by decide)) (by decide) (hout _ (by simp))
  obtain ⟨⟨hlacks, -⟩, -⟩ := hexact [⟨0, some 2⟩, first] _ _ _ 7 rfl (by decide +kernel)
    (ofNumber_eq_ofInt (by decide)) (by decide) (hout _ (by simp))
  obtain ⟨text, hmem⟩ := hhas (by decide)
  cases hentry text hmem
  exact ⟨rfl, rfl, t', changed, edits, hrun, htree, hmem,
    fun text hmem => absurd (hlacks ⟨text, hmem⟩) (by decide)⟩

end Descramble

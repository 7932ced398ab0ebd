import Descramble.Proofs.Evaluation.Literal
import Descramble.Proofs.Number.Limit
import Descramble.Proofs.Pass.Revised
import Descramble.Proofs.Tree.Building

/-!
# What resolving drops

A call of the decoder is replaced as a whole, on the strength of its first argument alone.  The first
argument has a known value, so nothing is lost with it; the other arguments are not looked at.

* `RunState.entry?_int`, `RunState.entry?_int_eq_some` — the entry for an integer.
* `resolvedEntry?_eq_some` — which calls stand for a text.
* `ComesTo` — the tree that the pass finds when it comes to a place.
* `kind_visitEach`, `get?_visitEach` — a call is as it was when its turn comes, and what its turn makes
  of it stays.
* `resolved_keeps_effects_iff` — when no replaced call had an argument with an effect.
-/

set_option autoImplicit false

namespace Descramble

/-! ## The text that a call stands for -/

/-- The entry that a state has for a number, by the double and the integral part of the difference. -/
theorem RunState.entry?_of_minus {state : RunState} {n offset index : Number} {i : Int} {d : Double}
    (hoffset : state.offset = some offset) (hminus : n.minus offset = .ok index)
    (hd : index.toDouble = .ok d) (hi : index.truncate? = some i) :
    state.entry? (.number n) =
      .ok (if d.isInteger = true ∧ 0 ≤ i then state.table[i.toNat]? else none) := by
  simp only [ entry?, hoffset, hminus, hd, hi, bind, Except.bind, pure, Except.pure]
  by_cases hwhole : d.isInteger = true
  · by_cases hneg : i < 0
    · simp [hwhole, hneg, Int.not_le.mpr hneg]
    · simp [hwhole, hneg, Int.not_lt.mp hneg]
  · simp [hwhole]

-- the difference is kept apart from the integer, so that its double is not computed
theorem RunState.exists_of_entry? {state : RunState} {n offset index : Number} {i : Int}
    {entry : Option String} (hoffset : state.offset = some offset)
    (hminus : n.minus offset = .ok index) (hi : index.truncate? = some i)
    (h : state.entry? (.number n) = .ok entry) :
    ∃ d, index.toDouble = .ok d ∧
      entry = if d.isInteger = true ∧ 0 ≤ i then state.table[i.toNat]? else none := by
  cases hd : index.toDouble with
  | error fault =>
      simp only [ entry?, hoffset, hminus, hd, bind, Except.bind, reduceCtorEq] at h
  | ok d =>
      rw [entry?_of_minus hoffset hminus hd hi] at h
      exact ⟨d, rfl, (Except.ok.inj h).symm⟩

/-- **The entry for an integer** where the offset is an integer, if there is no fault. -/
theorem RunState.entry?_int {state : RunState} {v offset : Int} {entry : Option String}
    (hoffset : state.offset = some (.int offset))
    (h : state.entry? (.number (.int v)) = .ok entry) :
    entry = if 0 ≤ v - offset then state.table[(v - offset).toNat]? else none := by
  have hminus : (Number.int v).minus (.int offset) = .ok (.int (v - offset)) := rfl
  obtain ⟨d, hd, rfl⟩ := exists_of_entry? hoffset hminus rfl h
  simp only [Number.isInteger_of_toDouble hd, true_and]

/-- An integer leads to an entry if the difference is an index of the table, and to the one there. -/
theorem RunState.entry?_int_eq_some {state : RunState} {v offset : Int} {entry : Option String}
    (hoffset : state.offset = some (.int offset))
    (h : state.entry? (.number (.int v)) = .ok entry) :
    ((∃ text, entry = some text) ↔ 0 ≤ v - offset ∧ v - offset < state.table.length) ∧
      ∀ text, entry = some text → state.table[(v - offset).toNat]? = some text := by
  rw [entry?_int hoffset h]
  by_cases hpos : 0 ≤ v - offset
  · rw [if_pos hpos]
    refine ⟨?_, fun text htext => htext⟩
    constructor
    · rintro ⟨text, htext⟩
      have hlt := (List.getElem?_eq_some_iff.mp htext).1
      exact ⟨hpos, by omega⟩
    · rintro ⟨-, hlt⟩
      exact ⟨_, List.getElem?_eq_getElem (by omega)⟩
  · rw [if_neg hpos]
    refine ⟨?_, fun text htext => by cases htext⟩
    constructor
    · rintro ⟨text, htext⟩
      cases htext
    · rintro ⟨hle, -⟩
      exact absurd hle hpos

/-- What a number leads to is in the table. -/
theorem RunState.mem_table_of_entry? {state : RunState} {v : Value} {text : String}
    (h : state.entry? v = .ok (some text)) : text ∈ state.table := by
  unfold entry? at h
  split at h
  · obtain ⟨index, -, h⟩ := bind_eq_ok.mp h
    obtain ⟨d, -, h⟩ := bind_eq_ok.mp h
    split at h
    · split at h
      · split at h
        · cases h
        · exact List.mem_of_getElem? (Except.ok.inj h)
      · cases h
    · cases h
  · cases h
  · cases h

/-- The literal of an integer is known. -/
theorem evaluate_ofInt {ctx : Context} {p : Position} {v : Int}
    (hget : ctx.tree.get? p = some (.ofInt v)) (hsafe : Number.isSafe v = true) :
    ctx.evaluate p = .ok (.known (.number (.int v))) := by
  refine evaluate_eq_known_iff.mpr ⟨.ofInt v, hget, valueOf_ofInt _ _ hsafe, ?_⟩
  rw [Value.isLiteral_number (Number.toDouble_int hsafe), Double.isFinite_ofInt hsafe]

/-- A call of the decoder stands for the entry of its first argument. -/
theorem resolvedEntry?_call {state : RunState} {a : Analysis} {t : Node} {p : Position} {callee : Slot}
    {arg : Option Node} {rest : List (Option Node)} {v : Value}
    (hget : t.get? p = some (.mk .call [callee, .many (arg :: rest)]))
    (halias : isAlias t a state.decoderName (p ++ [first]) = true)
    (hvalue : (Context.ofTree t a state.decoderName).evaluate (p ++ [⟨1, some 0⟩]) = .ok (.known v)) :
    resolvedEntry? state a t p = state.entry? v := by
  simp only [ resolvedEntry?, hget, halias, hvalue, if_true, bind, Except.bind]

/-- A node stands for no text unless it calls the decoder with a known value. -/
theorem resolvedEntry?_eq_none {state : RunState} {a : Analysis} {t : Node} {p : Position}
    (h : ∀ callee arg rest, t.get? p = some (.mk .call [callee, .many (arg :: rest)]) →
      isAlias t a state.decoderName (p ++ [first]) = false ∨
        ∃ outcome, (Context.ofTree t a state.decoderName).evaluate (p ++ [⟨1, some 0⟩]) = .ok outcome ∧
          ∀ v, outcome ≠ .known v) : resolvedEntry? state a t p = .ok none := by
  unfold resolvedEntry?
  split
  · rename_i callee arg rest hget
    split
    · rename_i halias
      obtain halias' | ⟨outcome, houtcome, hv⟩ := h callee arg rest hget
      · rw [halias'] at halias
        cases halias
      · simp only [houtcome, bind, Except.bind]
        cases outcome with
        | known v => exact absurd rfl (hv v)
        | _ => rfl
    · rfl
  · rfl

/-- **A call stands for a text** if it calls the decoder and its first argument is known and leads to
an entry of the table. -/
theorem resolvedEntry?_eq_some {state : RunState} {a : Analysis} {t : Node} {p : Position}
    {text : String} :
    resolvedEntry? state a t p = .ok (some text) ↔
      ∃ callee arg rest v, t.get? p = some (.mk .call [callee, .many (arg :: rest)]) ∧
        isAlias t a state.decoderName (p ++ [first]) = true ∧
        (Context.ofTree t a state.decoderName).evaluate (p ++ [⟨1, some 0⟩]) = .ok (.known v) ∧
        state.entry? v = .ok (some text) := by
  constructor
  · intro h
    unfold resolvedEntry? at h
    split at h
    · rename_i callee arg rest hget
      split at h
      · rename_i halias
        obtain ⟨outcome, houtcome, h⟩ := bind_eq_ok.mp h
        cases outcome with
        | known v => exact ⟨callee, arg, rest, v, hget, halias, houtcome, h⟩
        | _ => cases h
      · cases h
    · cases h
  · rintro ⟨callee, arg, rest, v, hget, halias, hvalue, hentry⟩
    rw [resolvedEntry?_call hget halias hvalue, hentry]

/-! ## One visit -/

section
variable {state : RunState} {a : Analysis} {r r' : Revision} {p q : Position}

/-- Nothing stands below a text. -/
theorem get?_ofText {text : String} {s : Position} {n : Node} (h : (Node.ofText text).get? s = some n) :
    s = [] := by
  cases s with
  | nil => rfl
  | cons step s =>
      rw [Node.ofText, Node.get?_cons, Node.child?_mk, Node.childOfSlots_nil] at h
      cases h

/-- A visit of another place leaves a place with its kind, or without a node. -/
theorem kind_resolveAt (h : resolveAt state a r q = .ok r') (hne : q ≠ p) :
    r'.tree.get? p = none ∨ (r'.tree.get? p).map Node.kind = (r.tree.get? p).map Node.kind := by
  rcases resolveAt_cases h with rfl | ⟨text, slots, hget, -, rfl⟩
  · exact Or.inr rfl
  · by_cases hqp : q <+: p
    · obtain ⟨s, rfl⟩ := hqp
      refine Or.inl ?_
      show (r.tree.replaceAt q (.ofText text)).get? (q ++ s) = none
      rw [Node.get?_replaceAt_append, hget]
      cases hs : (Node.ofText text).get? s with
      | none => rfl
      | some n => exact absurd (by rw [get?_ofText hs, List.append_nil]) hne
    · exact Or.inr (Node.map_get?_modifyAt_of_not_prefix Node.kind_modifyChild _ _ _ _ hqp)

/-- A text that a visit has written stays, unless a place above it is visited. -/
theorem get?_resolveAt_of_text {text : String} (h : resolveAt state a r q = .ok r')
    (hp : r.tree.get? p = some (.ofText text)) (hqp : ¬ q <+: p) :
    r'.tree.get? p = some (.ofText text) := by
  rcases resolveAt_cases h with rfl | ⟨text', slots', hget, -, rfl⟩
  · exact hp
  · exact get?_replaceAt_of_isWritten (isWritten_ofText text) hp hget (not_isWritten_of_kind rfl) hqp

/-! ## All visits -/

theorem kind_visitEach : ∀ {places : List Position} {r r' : Revision},
    visitEach (resolveAt state a) places r = .ok r' → p ∉ places →
      r'.tree.get? p = none ∨ (r'.tree.get? p).map Node.kind = (r.tree.get? p).map Node.kind
  | [], _, _, h, _ => by
      cases h
      exact Or.inr rfl
  | q :: places, r, r', h, hp => by
      rw [List.mem_cons, not_or] at hp
      obtain ⟨r₁, hvisit, hrest⟩ := bind_eq_ok.mp h
      rcases kind_visitEach hrest hp.2 with hnone | hkind
      · exact Or.inl hnone
      · rcases kind_resolveAt hvisit (Ne.symm hp.1) with hnone | hkind'
        · -- a place without a node stays without one
          rw [hnone, Option.map_none, Option.map_eq_none_iff] at hkind
          exact Or.inl hkind
        · exact Or.inr (hkind.trans hkind')

/-- What each visit of a place that is not above it leaves alone stays. -/
theorem get?_visitEach {visit : Revision → Position → Except Fault Revision} {m : Node}
    (step : ∀ {r r' q}, visit r q = .ok r' → r.tree.get? p = some m → ¬ q <+: p →
      r'.tree.get? p = some m) :
    ∀ {places : List Position} {r r' : Revision}, visitEach visit places r = .ok r' →
      r.tree.get? p = some m → (∀ q ∈ places, ¬ q <+: p) → r'.tree.get? p = some m
  | [], _, _, h, hp, _ => by
      cases h
      exact hp
  | q :: places, r, r', h, hp, hnot => by
      obtain ⟨r₁, hvisit, hrest⟩ := bind_eq_ok.mp h
      exact get?_visitEach step hrest (step hvisit hp (hnot q List.mem_cons_self))
        fun q' hq' => hnot q' (List.mem_cons_of_mem _ hq')

end

theorem visitEach_append (visit : Revision → Position → Except Fault Revision) :
    ∀ (places places' : List Position) (r : Revision),
      visitEach visit (places ++ places') r =
        visitEach visit places r >>= visitEach visit places'
  | [], _, _ => rfl
  | p :: places, places', r => by
      simp only [List.cons_append, visitEach, visitEach_append visit places places']
      cases visit r p <;> rfl

/-- The visits before a place, the visit of the place, and the rest. -/
theorem visitEach_split {visit : Revision → Position → Except Fault Revision}
    {earlier later : List Position} {p : Position} {r r' : Revision}
    (h : visitEach visit (earlier ++ p :: later) r = .ok r') :
    ∃ r₀ r₁, visitEach visit earlier r = .ok r₀ ∧ visit r₀ p = .ok r₁ ∧
      visitEach visit later r₁ = .ok r' := by
  rw [visitEach_append] at h
  obtain ⟨r₀, hearlier, h⟩ := bind_eq_ok.mp h
  obtain ⟨r₁, hvisit, hlater⟩ := bind_eq_ok.mp h
  exact ⟨r₀, r₁, hearlier, hvisit, hlater⟩

/-- The pass comes to a place when the tree is `u`. -/
def ComesTo (state : RunState) (t : Node) (p : Position) (u : Node) : Prop :=
  ∃ earlier later count, t.places = earlier ++ p :: later ∧
    visitEach (resolveAt state (analyze t)) earlier ⟨t, 0⟩ = .ok ⟨u, count⟩

section
variable {state : RunState} {t t' : Node} {p : Position} {changed : Bool}

/-- The rest of a pass, from a place on. -/
theorem exists_rest (hfound : state.decoderFound = true)
    (h : (resolveCalls state t).outcome = .ok (t', changed)) {earlier later : List Position}
    (hsplit : t.places = earlier ++ p :: later) :
    ∃ r r₁ r', visitEach (resolveAt state (analyze t)) earlier ⟨t, 0⟩ = .ok r ∧
      resolveAt state (analyze t) r p = .ok r₁ ∧
      visitEach (resolveAt state (analyze t)) later r₁ = .ok r' ∧ r'.tree = t' := by
  rcases resolveCalls_eq_ok.mp h with ⟨hnot, -⟩ | ⟨-, r', hr', he, -⟩
  · rw [hfound] at hnot
    cases hnot
  · rw [hsplit] at hr'
    obtain ⟨r, r₁, hr, hvisit, hrest⟩ := visitEach_split hr'
    exact ⟨r, r₁, r', hr, hvisit, hrest, he⟩

/-- The pass comes to every place. -/
theorem exists_comesTo (hfound : state.decoderFound = true)
    (h : (resolveCalls state t).outcome = .ok (t', changed)) {n : Node} (hn : t.get? p = some n) :
    ∃ u, ComesTo state t p u := by
  obtain ⟨earlier, later, hsplit⟩ := List.append_of_mem (Node.mem_places_iff.mpr ⟨n, hn⟩)
  obtain ⟨⟨u, count⟩, -, -, hr, -⟩ := exists_rest hfound h hsplit
  exact ⟨u, earlier, later, count, hsplit, hr⟩

/-- The places behind a place are not above it. -/
theorem not_prefix_of_later {earlier later : List Position}
    (hsplit : t.places = earlier ++ p :: later) : ∀ q ∈ later, ¬ q <+: p := by
  intro q hq
  have hforward := t.pairwise_places
  rw [hsplit] at hforward
  exact Position.not_prefix_of_before
    ((List.pairwise_cons.mp (List.pairwise_append.mp hforward).2.1).1 q hq)

theorem not_mem_of_split {earlier later : List Position}
    (hsplit : t.places = earlier ++ p :: later) : p ∉ earlier ∧ p ∉ later := by
  have hnd := t.places_nodup
  rw [hsplit] at hnd
  obtain ⟨-, hlater, hne⟩ := List.nodup_append.mp hnd
  exact ⟨fun hp => hne p hp p List.mem_cons_self rfl, (List.nodup_cons.mp hlater).1⟩

/-- **The calls that are replaced** are those that stand for a text when the pass comes to them. -/
theorem replaced_iff_resolved (hfound : state.decoderFound = true)
    (h : (resolveCalls state t).outcome = .ok (t', changed)) {u : Node} {text : String}
    (hu : ComesTo state t p u) :
    ((∃ slots, t.get? p = some (.mk .call slots)) ∧ t'.get? p = some (.ofText text)) ↔
      resolvedEntry? state (analyze t) u p = .ok (some text) := by
  obtain ⟨earlier, later, count, hsplit, hearlier⟩ := hu
  obtain ⟨r, r₁, r', hr, hvisit, hrest, rfl⟩ := exists_rest hfound h hsplit
  obtain rfl : r = ⟨u, count⟩ := Except.ok.inj (hr.symm.trans hearlier)
  obtain ⟨hpearlier, hplater⟩ := not_mem_of_split hsplit
  have hbefore := kind_visitEach hearlier hpearlier
  have hreplaced : ∀ {text' slots}, u.get? p = some (.mk .call slots) →
      r₁ = Revision.replace ⟨u, count⟩ p (.ofText text') →
        r'.tree.get? p = some (.ofText text') := by
    rintro text' slots hget rfl
    refine get?_visitEach get?_resolveAt_of_text hrest ?_ (not_prefix_of_later hsplit)
    have := u.get?_replaceAt_append (.ofText text') p []
    rwa [List.append_nil, hget] at this
  constructor
  · rintro ⟨⟨slots, hcall⟩, htext⟩
    rcases resolveAt_cases hvisit with rfl | ⟨text', slots', hget, hentry, hr₁⟩
    · -- no visit but its own gives the place another kind
      exfalso
      have hafter := kind_visitEach hrest hplater
      rw [htext] at hafter
      rcases hafter with hnone | hkind
      · cases hnone
      · rcases hbefore with hnone | hkind'
        · rw [hnone] at hkind
          cases hkind
        · rw [hkind', hcall] at hkind
          cases hkind
    · have htext' := hreplaced hget hr₁
      rw [htext] at htext'
      cases htext'
      exact hentry
  · intro hentry
    obtain ⟨slots, hget⟩ := get?_of_resolvedEntry? hentry
    constructor
    · rw [hget] at hbefore
      rcases hbefore with hnone | hkind
      · cases hnone
      · obtain ⟨⟨k, slots'⟩, hn, hk⟩ := Option.map_eq_some_iff.mp hkind.symm
        cases hk
        exact ⟨slots', hn⟩
    · rcases resolveAt_cases hvisit with rfl | ⟨text', slots', -, hentry', hr₁⟩
      · simp [resolveAt, hentry, bind, Except.bind, pure, Except.pure, Revision.replace] at hvisit
      · cases hentry.symm.trans hentry'
        exact hreplaced hget hr₁

end

/-! ## Effects -/

/-- What static evaluation finds out about an argument of the call at a place. -/
def argumentOutcome (state : RunState) (a : Analysis) (t : Node) (p : Position) (k : Nat) :
    Except Fault Outcome :=
  (Context.ofTree t a state.decoderName).evaluate (p ++ [⟨1, some k⟩])

/-- **No replaced call had an argument with an effect** exactly if no call of the decoder whose first
argument leads to an entry of the table has an effect in another argument. -/
theorem resolved_keeps_effects_iff {state : RunState} {t t' : Node} {changed : Bool}
    (hfound : state.decoderFound = true)
    (h : (resolveCalls state t).outcome = .ok (t', changed)) :
    (∀ p u slots text, ComesTo state t p u → t.get? p = some (.mk .call slots) →
        t'.get? p = some (.ofText text) →
          ∀ k, argumentOutcome state (analyze t) u p k ≠ .ok .sideEffecting) ↔
      ∀ p u callee args v text, ComesTo state t p u →
        u.get? p = some (.mk .call [callee, .many args]) →
        isAlias u (analyze t) state.decoderName (p ++ [first]) = true →
        argumentOutcome state (analyze t) u p 0 = .ok (.known v) →
        state.entry? v = .ok (some text) →
          ∀ k, argumentOutcome state (analyze t) u p (k + 1) ≠ .ok .sideEffecting := by
  constructor
  · intro hkeeps p u callee args v text hu hget halias hvalue hentry k
    obtain ⟨arg, rest, rfl⟩ : ∃ arg rest, args = arg :: rest := by
      cases args with
      | cons arg rest => exact ⟨arg, rest, rfl⟩
      | nil =>
          obtain ⟨n, hn, -⟩ := evaluate_eq_known_iff.mp hvalue
          change u.get? (p ++ [⟨1, some 0⟩]) = some n at hn
          rw [Node.get?_concat, hget] at hn
          cases hn
    have hresolved := resolvedEntry?_eq_some.mpr ⟨callee, arg, rest, v, hget, halias, hvalue, hentry⟩
    obtain ⟨⟨slots, hcall⟩, htext⟩ := (replaced_iff_resolved hfound h hu).mpr hresolved
    exact hkeeps p u slots text hu hcall htext (k + 1)
  · intro hkeeps p u slots text hu hcall htext k
    have hresolved := (replaced_iff_resolved hfound h hu).mp ⟨⟨slots, hcall⟩, htext⟩
    obtain ⟨callee, arg, rest, v, hget, halias, hvalue, hentry⟩ := resolvedEntry?_eq_some.mp hresolved
    cases k with
    | zero =>
        intro heffect
        cases hvalue.symm.trans heffect
    | succ k => exact hkeeps p u callee (arg :: rest) v text hu hget halias hvalue hentry k

/-- `use(B(5, f()));` -/
def effectfulArgument : Node :=
  .programOf "script" [.statementOf (.callOf (.ident "use") [
    some (.callOf (.ident "B") [some (.lit (.number (.int 5)) "5"),
      some (.callOf (.ident "f") [])])])]

/-- A decoder `B` with the offset `5`, and a table of one text. -/
def oneEntry : RunState where
  table := ["x"]
  loaderName := some "A"
  decoderName := some "B"
  offset := some (.int 5)
  decoderFound := true

/-- The whole call becomes `"x"`, and `f()` is not called any more. -/
theorem resolved_keeps_effects_iff_effectfulArgument :
    oneEntry.decoderFound = true ∧
      ∃ t' changed, (resolveCalls oneEntry effectfulArgument).outcome = .ok (t', changed) ∧
        ¬ ∀ p u slots text, ComesTo oneEntry effectfulArgument p u →
          effectfulArgument.get? p = some (.mk .call slots) → t'.get? p = some (.ofText text) →
            ∀ k, argumentOutcome oneEntry (analyze effectfulArgument) u p k ≠
              .ok .sideEffecting := by
  obtain ⟨⟨t', changed⟩, hrun⟩ := Option.isSome_iff_exists.mp
    (show (resolveCalls oneEntry effectfulArgument).outcome.toOption.isSome = true by
      decide +kernel)
  have hrun := eq_ok_of_toOption hrun
  refine ⟨rfl, t', changed, hrun, ?_⟩
  rw [resolved_keeps_effects_iff rfl hrun]
  intro hkeeps
  have hcomes : ComesTo oneEntry effectfulArgument [⟨0, some 0⟩, first, ⟨1, some 0⟩]
      effectfulArgument :=
    ⟨effectfulArgument.places.take 4, effectfulArgument.places.drop 5, 0, rfl, rfl⟩
  exact hkeeps _ _ _ _ (.number (.int 5)) "x" hcomes rfl rfl
    (eq_of_knownNumber? (by decide +kernel)) (eq_ok_of_toOption (by decide +kernel)) 0 rfl

end Descramble

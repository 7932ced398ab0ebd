import Descramble.Proofs.Encoded.Chain
import Descramble.Proofs.Encoded.Discovery
import Descramble.Proofs.Pass.Resolving

/-!
# Resolving the calls of a script with a string table

* `EncodedScript.resolvedEntry?_argument` — a call of the decoder stands for the entry of the table
  at its number less the offset.
* `EncodedScript.resolvedEntry?_eq_none` — nothing else in the script stands for a text.
* `EncodedScript.resolveCalls_tree` — the pass decodes all arguments.
-/

set_option autoImplicit false

namespace Descramble

theorem Node.modifyChild_mk {f : Node → Node} {k : Kind} {slots : List Slot} {step : Step} {c : Node}
    (h : (Node.mk k slots).child? step = some c) :
    (Node.mk k slots).modifyChild f step =
      .mk k (slots.modify step.slot fun slot => slot.setAt step.index (some (f c))) := by
  simp only [modifyChild, h]

namespace EncodedScript

variable {s : EncodedScript}

/-! ## What a call stands for -/

/-- **The table has an entry for a number** at the number less the offset. -/
theorem entry?_found {v : Int} (h : Number.isSafe v = true) :
    s.found.entry? (.number (.int v)) = .ok ( s.entry? v) := by
  have hsafe := s.offset_safe
  rw [Number.isSafe_iff] at h hsafe
  obtain ⟨d, hd⟩ := Number.exists_toDouble (n := v - s.offset) (by omega)
  have hoffset : s.found.offset = some (.int s.offset) := rfl
  have hminus : (Number.int v).minus (.int s.offset) = .ok (.int (v - s.offset)) := rfl
  rw [RunState.entry?_of_minus hoffset hminus hd rfl, EncodedScript.entry?]
  simp only [Number.isInteger_of_toDouble hd, true_and]
  rfl

theorem evaluate_argument {args' : List s.Argument} {i : Nat} {c : s.Call}
    (hc : args'[i]? = some (.call c)) (a : Analysis) (decoder : Option String) :
    (Context.ofTree (tree args') a decoder).evaluate (s.argumentPlace i ++ [argument 0]) =
      .ok (.known (.number (.int c.value))) :=
  evaluate_ofInt (get?_argument hc [argument 0]) c.safe

/-- **A call of the decoder stands for the entry of its number.** -/
theorem resolvedEntry?_argument {args args' : List s.Argument} {i : Nat} {c : s.Call}
    (hc : args[i]? = some (.call c)) (hc' : args'[i]? = some (.call c)) :
    resolvedEntry? s.found (analyze (tree args)) (tree args') (s.argumentPlace i) =
      .ok ( s.entry? c.value) := by
  have hcall : (tree args').get? (s.argumentPlace i) = some (Argument.call c).node :=
    get?_argument hc' []
  have halias := isAlias_callee args args' c.callee_eq (.callee hc) (get?_argument hc' [first])
  have hvalue := evaluate_argument hc' (analyze (tree args)) (some s.decoder)
  rw [← entry?_found c.safe]
  exact resolvedEntry?_call hcall halias hvalue

/-! ## What stands for no text -/

/-- A call with arguments hands over a name first, and not the one that is `free`. -/
def HandsOverName (free : String) (n : Node) : Prop :=
  ∀ callee arg rest, n = .mk .call [callee, .many (arg :: rest)] →
    ∃ name, arg = some (.ident name) ∧ name ≠ free

theorem handsOverName_prelude {args : List s.Argument} {i : Nat} {m : Node}
    (h : Statement args i m) (hi : i < s.aliases.length + 2) :
    m.Everywhere (HandsOverName s.user) := by
  have hlocal : ∀ name ∈ s.form.locals, name ≠ s.user := fun _ h => ne_user (mem_names_of_local h)
  cases h with
  | loader => simp [loaderNode, Node.everywhere_mk, Node.InSlots, HandsOverName]
  | decoder =>
      rw [decoderNode, offsetNode]
      cases hform : s.form with
      | direct param table entry =>
          simp [DecoderForm.declaration, Node.everywhere_mk, Node.InSlots, HandsOverName]
      | selfRedefining param spare table index other entry =>
          simp only [hform, DecoderForm.locals, List.forall_mem_cons] at hlocal
          simp [DecoderForm.declaration, Node.everywhere_mk, Node.InSlots, HandsOverName, hlocal]
  | aliased hname htarget => simp [Node.everywhere_mk, Node.InSlots, HandsOverName]
  | use => omega

/-- Nothing in front stands for a text. -/
theorem resolvedEntry?_prelude (args args' : List s.Argument) {i : Nat} (q : Position)
    (hi : i < s.aliases.length + 2) :
    resolvedEntry? s.found (analyze (tree args)) (tree args') (item i :: q) = .ok none := by
  refine resolvedEntry?_eq_none fun callee arg rest hget => Or.inr ?_
  rw [get?_tree_of_lt args' args hi] at hget
  obtain ⟨name, rfl, hne⟩ : ∃ name, arg = some (.ident name) ∧ name ≠ s.user := by
    rcases get?_tree.mp hget with ⟨h, -⟩ | ⟨j, q', m, h, hm, hq⟩
    · cases h
    · cases h
      exact handsOverName_prelude hm hi q _ hq callee arg rest rfl
  have hname : (tree args).get? (item i :: q ++ [argument 0]) = some (.ident name) := by
    rw [Node.get?_concat, hget]
    rfl
  have hocc := (ordinary_tree args).occurs_of_parent hget hname fun _ => by cases callee <;> rfl
  refine evaluate_unvalued (bindingsUnvalued args args' _) (n := .ident name) ?_ (Or.inl ?_)
  · exact (get?_tree_of_lt args' args hi _).trans hname
  · exact unvalued_of_startsFromName hname hne fun _ _ he => by
      cases he
      exact hocc

/-- In the use of the texts only the arguments can stand for texts. -/
theorem resolvedEntry?_use {args args' : List s.Argument} {q : Position}
    (hp : ∀ i c, args'[i]? = some (.call c) →
      item (s.aliases.length + 2) :: q ≠ s.argumentPlace i) :
    resolvedEntry? s.found (analyze (tree args)) (tree args') (item (s.aliases.length + 2) :: q) =
      .ok none := by
  refine resolvedEntry?_eq_none fun callee arg rest hget => ?_
  rw [get?_tree_cons .use] at hget
  rcases get?_useNode hget with ⟨-, he⟩ | ⟨rfl, -⟩ | ⟨-, he⟩ | ⟨i, arg, r, rfl, harg, hr⟩
  · cases he
  · exact Or.inl (isAlias_user args args' .user (get?_tree_cons .use [first, first]))
  · cases he
  · cases arg with
    | text entry => cases (Node.get?_leaf.mp hr).2
    | call c =>
        rcases get?_call hr with ⟨rfl, -⟩ | ⟨-, he⟩ | ⟨r, -, hr⟩
        · exact absurd rfl (hp i c harg)
        · cases he
        · rcases (isWritten_ofInt c.safe).isNameless r _ hr with ⟨_, _, _, hk⟩ | ⟨_, _, hk⟩ <;> cases hk

/-- **Nothing but a call of the decoder with a number stands for a text.** -/
theorem resolvedEntry?_other {args args' : List s.Argument} {p : Position}
    (hp : ∀ i c, args'[i]? = some (.call c) → p ≠ s.argumentPlace i) :
    resolvedEntry? s.found (analyze (tree args)) (tree args') p = .ok none := by
  cases hget : (tree args').get? p with
  | none =>
      refine resolvedEntry?_eq_none fun callee arg rest h => ?_
      rw [hget] at h
      cases h
  | some n =>
      rcases get?_tree.mp hget with ⟨rfl, rfl⟩ | ⟨i, q, m, rfl, hm, hq⟩
      · exact resolvedEntry?_eq_none fun callee arg rest h => by cases h
      · by_cases hi : i < s.aliases.length + 2
        · exact resolvedEntry?_prelude args args' q hi
        · cases hm with
          | loader => omega
          | decoder => omega
          | aliased hname htarget =>
              have hlt := (List.getElem?_eq_some_iff.mp hname).1
              omega
          | use => exact resolvedEntry?_use hp

/-! ## The pass -/

/-- What the pass makes of an argument. -/
def resolved : s.Argument → s.Argument
  | .call c => decoded c
  | .text entry => .text entry

theorem resolved_call_of_none {c : s.Call} (h : s.entry? c.value = none) :
    resolved (.call c) = .call c := by
  simp [resolved, decoded, h]

theorem resolved_call_of_some {c : s.Call} {entry : String} (h : s.entry? c.value = some entry) :
    resolved (.call c) = .text entry := by
  simp [resolved, decoded, h]

theorem resolved_resolved (arg : s.Argument) : resolved (resolved arg) = resolved arg := by
  cases arg with
  | text entry => rfl
  | call c =>
      cases h : s.entry? c.value with
      | none => rw [resolved_call_of_none h, resolved_call_of_none h]
      | some entry => rw [resolved_call_of_some h]; rfl

/-- A call that is left was there before. -/
theorem eq_call_of_resolved {arg : s.Argument} {c : s.Call} (h : resolved arg = .call c) :
    arg = .call c := by
  cases arg with
  | text entry => cases h
  | call c' =>
      cases he : s.entry? c'.value with
      | none => rwa [resolved_call_of_none he] at h
      | some entry => rw [resolved_call_of_some he] at h; cases h

/-- The arguments after the visit of some places. -/
def resolvedAt (places : List Position) (args : List s.Argument) : List s.Argument :=
  args.mapIdx fun i arg => if s.argumentPlace i ∈ places then resolved arg else arg

theorem getElem?_resolvedAt (places : List Position) (args : List s.Argument) (i : Nat) :
    (resolvedAt places args)[i]? =
      (args[i]?).map fun arg => if s.argumentPlace i ∈ places then resolved arg else arg := by
  rw [resolvedAt, List.getElem?_mapIdx]

theorem resolvedAt_nil (args : List s.Argument) : resolvedAt [] args = args := by
  refine List.ext_getElem? fun i => ?_
  simp [getElem?_resolvedAt]

theorem resolvedAt_cons (p : Position) (places : List Position) (args : List s.Argument) :
    resolvedAt (p :: places) args = resolvedAt places (resolvedAt [p] args) := by
  refine List.ext_getElem? fun i => ?_
  simp only [getElem?_resolvedAt, Option.map_map]
  congr 1
  funext arg
  simp only [Function.comp_apply, List.mem_cons, List.not_mem_nil, or_false]
  by_cases hp : s.argumentPlace i = p <;> by_cases hplaces : s.argumentPlace i ∈ places <;>
    simp [hp, hplaces, resolved_resolved]

/-- Nothing changes where the argument has no text. -/
theorem resolvedAt_eq_self {p : Position} {args : List s.Argument}
    (h : ∀ i arg, args[i]? = some arg → s.argumentPlace i = p → resolved arg = arg) :
    resolvedAt [p] args = args := by
  refine List.ext_getElem? fun i => ?_
  rw [getElem?_resolvedAt]
  cases harg : args[i]? with
  | none => rfl
  | some arg =>
      by_cases hp : s.argumentPlace i = p
      · simp [hp, h i arg harg hp]
      · simp [hp]

theorem resolvedAt_argument {args : List s.Argument} {i : Nat} {arg : s.Argument}
    (harg : args[i]? = some arg) :
    resolvedAt [s.argumentPlace i] args = args.set i (resolved arg) := by
  have hlt := (List.getElem?_eq_some_iff.mp harg).1
  refine List.ext_getElem? fun j => ?_
  rw [getElem?_resolvedAt, List.getElem?_set]
  by_cases hij : i = j
  · subst hij
    rw [harg, if_pos rfl, if_pos hlt]
    simp
  · simp [hij, Ne.symm hij]

theorem replaceAt_argument {args : List s.Argument} {i : Nat} {arg : s.Argument}
    (harg : args[i]? = some arg) (entry : String) :
    (tree args).replaceAt (s.argumentPlace i) (.ofText entry) = tree (args.set i (.text entry)) := by
  have hlength : s.prelude.length = s.aliases.length + 2 := by
    simp [prelude, length_aliasNodes]
  have huse : (tree args).child? (item (s.aliases.length + 2)) = some (useNode args) := by
    rw [tree, Node.child?_mk, Node.childOfSlots_many, List.getElem?_map,
      getElem?_statements.mpr .use]
    rfl
  have hnode : (Node.callOf (.ident s.user) (args.map fun arg => some arg.node)).child? (argument i) =
      some arg.node := by
    simp [Node.child?_mk, harg]
  have hcall : (Node.callOf (.ident s.user) (args.map fun arg => some arg.node)).replaceAt [argument i]
      (.ofText entry) =
        .callOf (.ident s.user) ((args.set i (.text entry)).map fun arg => some arg.node) := by
    rw [Node.replaceAt, Node.modifyAt_cons, Node.modifyChild_mk hnode, List.map_set]
    rfl
  have hstatement : (useNode args).replaceAt [first, argument i] (.ofText entry) =
      useNode (args.set i (.text entry)) := by
    rw [Node.replaceAt, Node.modifyAt_cons, useNode, Node.modifyChild_mk rfl]
    exact congrArg Node.statementOf hcall
  have hset : (s.prelude ++ [useNode args]).set (s.aliases.length + 2)
      (useNode (args.set i (.text entry))) = s.prelude ++ [useNode (args.set i (.text entry))] := by
    rw [List.set_append_right _ _ (by omega), hlength, Nat.sub_self]
    rfl
  rw [Node.replaceAt, Node.modifyAt_cons, tree, Node.modifyChild_mk huse, tree, ← hset, Node.programOf,
    List.map_set, ← hstatement]
  rfl

/-- **One visit** resolves the argument at its place, if there is one. -/
theorem resolveAt_tree {args args' : List s.Argument}
    (h : ∀ (i : Nat) (c : s.Call), args'[i]? = some (.call c) → args[i]? = some (.call c))
    (count : Nat) (p : Position) : ∃ count',
      resolveAt s.found (analyze (tree args)) ⟨tree args', count⟩ p =
        .ok ⟨tree (resolvedAt [p] args'), count'⟩ := by
  by_cases hp : ∃ (i : Nat) (c : s.Call) (entry : String), args'[i]? = some (.call c) ∧
      p = s.argumentPlace i ∧ s.entry? c.value = some entry
  · obtain ⟨i, c, entry, hc, rfl, he⟩ := hp
    have hentry := resolvedEntry?_argument (h i c hc) hc
    refine ⟨count + 1, ?_⟩
    rw [resolvedAt_argument hc, resolved_call_of_some he, ← replaceAt_argument hc]
    simp only [resolveAt, hentry, he, bind, Except.bind]
    rfl
  · have hentry : resolvedEntry? s.found (analyze (tree args)) (tree args') p = .ok none := by
      by_cases hcall : ∃ (i : Nat) (c : s.Call), args'[i]? = some (.call c) ∧ p = s.argumentPlace i
      · obtain ⟨i, c, hc, rfl⟩ := hcall
        rw [resolvedEntry?_argument (h i c hc) hc]
        refine congrArg Except.ok (Option.eq_none_iff_forall_ne_some.mpr fun entry he => ?_)
        exact hp ⟨i, c, entry, hc, rfl, he⟩
      · exact resolvedEntry?_other fun i c hc he => hcall ⟨i, c, hc, he⟩
    have hsame : resolvedAt [p] args' = args' := by
      refine resolvedAt_eq_self fun i arg harg hplace => ?_
      cases arg with
      | text entry => rfl
      | call c =>
          refine resolved_call_of_none (Option.eq_none_iff_forall_ne_some.mpr fun entry he => ?_)
          exact hp ⟨i, c, entry, harg, hplace.symm, he⟩
    refine ⟨count, ?_⟩
    simp only [resolveAt, hentry, bind, Except.bind, hsame]
    rfl

/-- **The visits** of some places, one after the other. -/
theorem visitEach_tree (args : List s.Argument) : ∀ (places : List Position)
    {args' : List s.Argument},
      (∀ (i : Nat) (c : s.Call), args'[i]? = some (.call c) → args[i]? = some (.call c)) →
        ∀ count, ∃ count', visitEach (resolveAt s.found (analyze (tree args))) places
          ⟨tree args', count⟩ = .ok ⟨tree (resolvedAt places args'), count'⟩
  | [], args', _, count => ⟨count, by rw [resolvedAt_nil]; rfl⟩
  | p :: places, args', h, count => by
      obtain ⟨count₁, hvisit⟩ := resolveAt_tree h count p
      obtain ⟨count₂, hrest⟩ := visitEach_tree args places
        (fun i c hc => by
          rw [getElem?_resolvedAt] at hc
          obtain ⟨arg, harg, he⟩ := Option.map_eq_some_iff.mp hc
          refine h i c ?_
          rw [harg]
          split at he
          · rw [eq_call_of_resolved he]
          · rw [he]) count₁
      refine ⟨count₂, ?_⟩
      rw [resolvedAt_cons, ← hrest]
      simp only [visitEach, hvisit, bind, Except.bind]

/-- **Resolving the calls of the script** decodes all its arguments. -/
theorem resolveCalls_tree (args : List s.Argument) :
    ∃ changed, (resolveCalls s.found (tree args)).outcome =
      .ok (tree (args.map resolved), changed) := by
  obtain ⟨count, hvisits⟩ := visitEach_tree args (tree args).places (fun _ _ h => h) 0
  have hall : resolvedAt (tree args).places args = args.map resolved := by
    refine List.ext_getElem? fun i => ?_
    rw [getElem?_resolvedAt, List.getElem?_map]
    cases harg : args[i]? with
    | none => rfl
    | some arg =>
        have hmem : s.argumentPlace i ∈ (tree args).places :=
          Node.mem_places_iff.mpr ⟨arg.node, get?_argument harg []⟩
        simp [hmem]
  refine ⟨decide (0 < count), resolveCalls_eq_ok.mpr (Or.inr ⟨rfl, _, hvisits, ?_, rfl⟩)⟩
  rw [hall]

end EncodedScript

end Descramble

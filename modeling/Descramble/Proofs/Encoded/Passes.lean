import Descramble.Proofs.Encoded.Names
import Descramble.Proofs.Evaluation.Unvalued
import Descramble.Proofs.Run.Settled

/-!
# The passes on a script with a string table

Nothing in the script has a value but its literals: all names are parameters, functions, or variables
that start from such names.  So folding, inlining and the choice of plain names give it back.

* `EncodedScript.bindingsUnvalued` — no name of the script has a value.
* `EncodedScript.foldConstants_tree`, `EncodedScript.inlined_tree`, `EncodedScript.normalized_tree` —
  the passes that have nothing to do.
-/

set_option autoImplicit false

namespace Descramble

namespace EncodedScript

variable {s : EncodedScript}

/-! ## Bound names -/

theorem bindingNumber?_of_mentions {args : List s.Argument} {p : Position} {name : String}
    (h : Mentions args p name) (hne : name ≠ s.user) :
    ∃ i, (analyze (tree args)).bindingNumber? p = some i := by
  obtain ⟨d, hd, hname, hscope⟩ := h.declared.resolve_left hne
  rw [← declarations_tree args] at hd
  obtain ⟨i, hi⟩ := List.mem_iff_getElem?.mp hd
  refine ⟨i, ?_⟩
  rw [bindingNumber?_of_occurs (occurs_iff.mpr h), (declaredOnce_tree args).binding_iff h.get]
  exact ⟨d, hi, hname, hscope⟩

theorem bindingNumber?_user {args : List s.Argument} {p : Position} (h : Mentions args p s.user) :
    (analyze (tree args)).bindingNumber? p = none := by
  rw [bindingNumber?_of_occurs (occurs_iff.mpr h)]
  cases hb : (occurrenceAt (tree args) p s.user).binding with
  | none => rfl
  | some i =>
      obtain ⟨d, hd, hname, -⟩ := ((declaredOnce_tree args).binding_iff h.get).mp hb
      rw [declarations_tree] at hd
      have hmem : d.name.name ∈ s.names := by
        rw [← map_name_declared]
        exact List.mem_map_of_mem (List.mem_of_getElem? hd)
      exact absurd hname (ne_user hmem)

/-! ## Nothing has a value -/

/-- An expression that starts from a name has no value. -/
theorem unvalued_of_startsFromName {args : List s.Argument} {p : Position} {n : Node}
    (hget : (tree args).get? p = some n) (hn : StartsFromName s.user n)
    (hocc : ∀ name slots, n = .mk (.identifier name) slots → Occurs (tree args) p name) :
    Unvalued (analyze (tree args)) p n := by
  have hbound : ∀ {p name}, Occurs (tree args) p name → name ≠ s.user →
      ∃ i, (analyze (tree args)).bindingNumber? p = some i :=
    fun hocc hne => bindingNumber?_of_mentions (occurs_iff.mp hocc) hne
  have hfirst : ∀ {name : String} {slots : List Slot}, n.child? first = some (.mk (.identifier name) slots) →
      (∀ parent, bindsBy parent n.kind n.skeleton first = none) →
        Occurs (tree args) (p ++ [first]) name := by
    intro name slots hc hbinds
    have hname : (tree args).get? (p ++ [first]) = some (.mk (.identifier name) slots) := by
      rw [Node.get?_concat, hget]
      exact hc
    exact (ordinary_tree args).occurs_of_parent hget hname hbinds
  unfold StartsFromName at hn
  split at hn
  · obtain ⟨i, hi⟩ := hbound (hocc _ _ rfl) hn
    exact .name hi
  · rename_i name slots arguments
    refine .call ?_
    by_cases hne : name = s.user
    · exact Or.inl (hne ▸ s.unlisted)
    · obtain ⟨i, hi⟩ := hbound (hfirst rfl fun _ => rfl) hne
      refine Or.inr (Bool.eq_false_iff.mpr fun hglobal => ?_)
      rw [bindingNumber?_of_isGlobal hglobal] at hi
      cases hi
  · obtain ⟨i, hi⟩ := hbound (hfirst rfl fun _ => rfl) hn
    exact .binary (.name hi)
  · obtain ⟨i, hi⟩ := hbound (hfirst rfl fun _ => rfl) hn
    exact .member (.name hi)
  · cases hn

/-- The initial value of a declarator has no value that a name could be given. -/
theorem worthless_init {args : List s.Argument} {p : Position} {id : Slot} {init : Node}
    (hget : (tree args).get? p = some (.mk .variableDeclarator [id, .one (some init)])) :
    Worthless (analyze (tree args)) (p ++ [second]) init := by
  have hinit : (tree args).get? (p ++ [second]) = some init := by
    rw [Node.get?_concat, hget]
    rfl
  have htame := (everywhere_tame args p _ hget).foldSafe
  rcases htame with hk | hn
  · exact Or.inr hk
  · refine Or.inl (unvalued_of_startsFromName hinit hn ?_)
    rintro name slots rfl
    exact (ordinary_tree args).occurs_of_parent hget hinit fun _ => by
      cases id <;> rfl

theorem place_of_declared {d : Declaration} (hd : d ∈ s.declared) :
    ∃ i q, d.place = item i :: q ∧ i < s.aliases.length + 2 := by
  rcases mem_declared.mp hd with rfl | rfl | hd | ⟨j, name, hj, rfl⟩
  · exact ⟨0, [], rfl, by omega⟩
  · exact ⟨0, _, rfl, by omega⟩
  · suffices h : ∀ d ∈ s.form.declared s.decoder, ∃ q, d.place = item 1 :: q by
      obtain ⟨q, hq⟩ := h d hd
      exact ⟨1, q, hq, by omega⟩
    cases s.form with
    | direct param table entry => simp [DecoderForm.declared, functionAt, paramAt, varAt]
    | selfRedefining param spare table index other entry =>
        simp [DecoderForm.declared, redefinition, functionAt, paramAt, varAt]
  · have hlt := (List.getElem?_eq_some_iff.mp hj).1
    exact ⟨j + 2, _, rfl, by omega⟩

theorem Statement.of_lt {args : List s.Argument} (args' : List s.Argument) {i : Nat} {m : Node}
    (h : Statement args i m) (hi : i < s.aliases.length + 2) : Statement args' i m := by
  cases h with
  | loader => exact .loader
  | decoder => exact .decoder
  | aliased hname htarget => exact .aliased hname htarget
  | use => omega

/-- What stands in front does not depend on the arguments. -/
theorem get?_tree_of_lt (args args' : List s.Argument) {i : Nat} (hi : i < s.aliases.length + 2)
    (q : Position) : (tree args).get? (item i :: q) = (tree args').get? (item i :: q) := by
  refine Option.ext fun n => ?_
  simp only [get?_tree, List.cons_ne_nil, false_and, false_or, List.cons.injEq]
  constructor
  · rintro ⟨j, q', m, ⟨hj, rfl⟩, hm, hq⟩
    cases hj
    exact ⟨i, q, m, ⟨rfl, rfl⟩, hm.of_lt args' hi, hq⟩
  · rintro ⟨j, q', m, ⟨hj, rfl⟩, hm, hq⟩
    cases hj
    exact ⟨i, q, m, ⟨rfl, rfl⟩, hm.of_lt args hi, hq⟩

/-- **No name of the script has a value**, also while its arguments are being replaced. -/
theorem bindingsUnvalued (args args' : List s.Argument) (decoder : Option String) :
    BindingsUnvalued (.ofTree (tree args') (analyze (tree args)) decoder) := by
  intro b hb init hinit
  obtain ⟨i, d, hd, rfl⟩ := (declaredOnce_tree args).mem_bindings_iff.mp hb
  rw [declarations_tree] at hd
  have hget : (tree args').get? d.place = (tree args).get? d.place := by
    obtain ⟨i, q, hplace, hi⟩ := place_of_declared (List.mem_of_getElem? hd)
    rw [hplace]
    exact get?_tree_of_lt args' args hi q
  obtain ⟨name, slots, hnode⟩ := Binding.init?_eq_some hinit
  exact worthless_init (hget ▸ hnode)

/-! ## Passes that have nothing to do -/

theorem conforms_tree (args : List s.Argument) : (tree args).conforms = true :=
  Node.conforms_iff.mpr fun p n hn => (everywhere_tame args p n hn).fits

/-- Folding gives the script back. -/
theorem foldConstants_tree (state : RunState) (args : List s.Argument) :
    ∃ changed, (foldConstants state (tree args)).outcome = .ok (tree args, changed) := by
  refine (foldConstants_return_iff (conforms_tree args)).mpr fun p _ target htarget => ?_
  have hunvalued := bindingsUnvalued args args state.decoderName
  rcases foldTarget?_cases htarget with ⟨rfl, n, hn, hk⟩ | ⟨id, init, hget, -, rfl⟩
  · have htame := (everywhere_tame args target n hn).foldSafe
    have hstarts : StartsFromName s.user n := by
      obtain ⟨k, slots⟩ := n
      cases k <;> first | exact htame | cases hk
    refine evaluate_unvalued hunvalued hn (Or.inl (unvalued_of_startsFromName hn hstarts ?_))
    rintro name slots rfl
    cases hk
  · refine evaluate_unvalued hunvalued ?_ (worthless_init hget)
    show (tree args).get? (p ++ [second]) = some init
    rw [Node.get?_concat, hget]
    rfl

/-- Inlining gives the script back. -/
theorem inlined_tree (args : List s.Argument) : (inlinedRevision (tree args)).tree = tree args := by
  refine (inlined_return_iff (conforms_tree args)).mpr fun b _ => ?_
  have hnone : inlinedLiteral? (tree args) b = none := by
    refine Option.eq_none_iff_forall_ne_some.mpr fun literal hliteral => ?_
    obtain ⟨-, -, hinit, hlike⟩ := inlinedLiteral?_eq_some.mp hliteral
    obtain ⟨name, slots, hnode⟩ := Binding.init?_eq_some hinit
    rcases (everywhere_tame args _ _ hnode).foldSafe with hk | hstarts
    · obtain ⟨k, slots⟩ := literal
      cases hk
      cases hlike
    · unfold StartsFromName at hstarts
      split at hstarts <;> first | cases hlike | cases hstarts
  simp [inlinedPlaces, hnone]

/-- All members have plain names already. -/
theorem normalized_tree (args : List s.Argument) :
    (normalizedRevision (tree args)).tree = tree args :=
  (normalized_return_iff (conforms_tree args)).mpr fun p n hn => (everywhere_tame args p n hn).access

end EncodedScript

end Descramble

import Descramble.Proofs.Evaluation.Simulation

/-!
# Values under two analyses of one tree

The value of a name is that of the initial value of its constant binding, and so on along a chain of
bindings.  An analysis that keeps the constant bindings of another one, under whatever numbers, finds
the same values.

* `callsDecoder_eq_false` — a call with a value is no call of the decoder, in whatever tree its callee
  stays what it was.
* `Agrees` — what the analysis in a context keeps of that in another.
* `Agrees.valueOf` — the values in the first context are those in the second; a chain of bindings
  that does not come back to itself is never too long.
* `Context.valueOf_surroundings` — a value that is found with fewer bindings is found with all.
-/

set_option autoImplicit false

namespace Descramble

/-! ## Calls of the decoder -/

theorem bindingFor?_eq_none {a : Analysis} {p : Position} (h : a.bindingNumber? p = none) :
    a.bindingFor? p = none := by
  unfold Analysis.bindingFor?
  rw [h]
  rfl

theorem bindingFor?_eq_some {a : Analysis} {p : Position} {i : Nat} {b : Binding} :
    a.bindingFor? p = some (i, b) ↔ a.bindingNumber? p = some i ∧ a.bindings[i]? = some b := by
  unfold Analysis.bindingFor?
  cases a.bindingNumber? p with
  | none => simp
  | some j =>
      cases hb : a.bindings[j]? with
      | none =>
          simp only [Option.bind_eq_bind, Option.bind_some, hb, Option.bind_none, reduceCtorEq,
            Option.some.injEq, false_iff, not_and]
          rintro rfl h
          rw [hb] at h
          cases h
      | some c =>
          simp only [Option.bind_eq_bind, Option.bind_some, hb, Option.pure_def, Option.some.injEq,
            Prod.mk.injEq]
          constructor
          · rintro ⟨rfl, rfl⟩
            exact ⟨rfl, hb⟩
          · rintro ⟨rfl, h⟩
            rw [hb] at h
            cases h
            exact ⟨rfl, rfl⟩

theorem bindingNumber?_of_isGlobal {a : Analysis} {p : Position} (h : a.isGlobal p = true) :
    a.bindingNumber? p = none := by
  unfold Analysis.isGlobal at h
  unfold Analysis.bindingNumber?
  split at h
  · rename_i o ho
    rw [ho]
    simpa using h
  · cases h

theorem nodeAt?_of_get? {a : Analysis} {t n : Node} {p : Position} (h : t.get? p = some n) :
    a.nodeAt? t p = some n := by
  rw [Analysis.nodeAt?, h, Option.some_or]

theorem analysis_init?_of_init? {a : Analysis} {t init : Node} {b : Binding}
    (h : b.init? t = some init) : a.init? t b = some init := by
  rw [Analysis.init?, h, Option.some_or]

/-- Whether a name without a binding names the decoder is seen from the name alone. -/
theorem isAlias_of_unbound {t : Node} {a : Analysis} {q : Position} {name : String}
    {slots : List Slot} (decoder : Option String)
    (hget : t.get? q = some (.mk (.identifier name) slots)) (hfor : a.bindingFor? q = none) :
    isAlias t a decoder q = decoder.any fun word => word ≠ "" && name == word := by
  cases decoder with
  | none => rfl
  | some word =>
      simp only [isAlias, namesDecoder, nodeAt?_of_get? hget, hfor, Option.any_some]
      by_cases hw : name = word <;> simp [hw]

theorem isAlias_of_not_identifier {t n : Node} {a : Analysis} {q : Position}
    (decoder : Option String) (hget : t.get? q = some n) (hk : ∀ name, n.kind ≠ .identifier name) :
    isAlias t a decoder q = false := by
  cases decoder with
  | none => rfl
  | some word =>
      obtain ⟨k, slots⟩ := n
      simp only [isAlias, namesDecoder, nodeAt?_of_get? hget]
      split
      · rename_i name _ heq
        cases heq
        exact absurd rfl (hk name)
      · simp

/-- **A call with a value is no call of the decoder**, wherever its callee stays what it was. -/
theorem callsDecoder_eq_false {env : Surroundings} {t t' : Node} {a a' : Analysis}
    {decoder : Option String} (henv : env.isDecoderCall = callsDecoder t a decoder)
    (hglobal : env.isGlobal = a.isGlobal) {p : Position} {n : Node} {v : Value}
    (hget : t.get? p = some n) (hk : n.kind = .call) (hv : Computes env p n v)
    (hcallee : ∀ c, t.get? (p ++ [first]) = some c →
      ∃ c', t'.get? (p ++ [first]) = some c' ∧ c'.kind.nameForm = c.kind.nameForm)
    (hbound : ∀ name slots, t.get? (p ++ [first]) = some (.mk (.identifier name) slots) →
      a'.isGlobal (p ++ [first]) = a.isGlobal (p ++ [first])) :
    callsDecoder t' a' decoder p = false := by
  have halias : isAlias t' a' decoder (p ++ [first]) = false := by
    cases hv with
    | @callGlobal name slots arguments f vs v hdecoder hf hg hvs hv =>
        have hgetc : t.get? (p ++ [first]) = some (.mk (.identifier name) slots) := by
          rw [Node.get?_concat, hget]
          rfl
        obtain ⟨⟨k, slots'⟩, hgetc', hkind⟩ := hcallee _ hgetc
        cases Kind.eq_of_nameForm hkind (by simp)
        rw [hglobal] at hg
        have hnone := bindingFor?_eq_none (bindingNumber?_of_isGlobal hg)
        have hnone' := bindingFor?_eq_none (bindingNumber?_of_isGlobal
          (show a'.isGlobal (p ++ [first]) = true by rw [hbound name slots hgetc, hg]))
        rw [henv] at hdecoder
        simp only [callsDecoder, hget] at hdecoder
        rw [isAlias_of_unbound decoder hgetc' hnone', ← isAlias_of_unbound decoder hgetc hnone,
          hdecoder]
    | callMember hdecoder hf hvs hv =>
        obtain ⟨c', hgetc', hkind⟩ := hcallee _ (by rw [Node.get?_concat, hget]; rfl)
        exact isAlias_of_not_identifier decoder hgetc' (by
          rw [Kind.eq_of_nameForm hkind (by simp)]
          simp)
    | callMethod hdecoder hf hname hreceiver hvs hv =>
        obtain ⟨c', hgetc', hkind⟩ := hcallee _ (by rw [Node.get?_concat, hget]; rfl)
        exact isAlias_of_not_identifier decoder hgetc' (by
          rw [Kind.eq_of_nameForm hkind (by simp)]
          simp)
    | _ => cases hk
  unfold callsDecoder
  split
  · exact halias
  · rfl

/-! ## Initial values -/

/-- An initial value stands in a declarator of a plain name. -/
theorem Binding.init?_eq_some {b : Binding} {t init : Node} (h : b.init? t = some init) :
    ∃ name slots, t.get? b.place = some (.declarator (.mk (.identifier name) slots) (some init)) := by
  unfold Binding.init? at h
  split at h
  · rename_i name slots init' hget
    subst h
    exact ⟨name, slots, hget⟩
  · cases h

theorem get?_initPlace {t : Node} {b : Binding} {init : Node} (h : b.init? t = some init) :
    t.get? b.initPlace = some init := by
  obtain ⟨name, slots, hget⟩ := Binding.init?_eq_some h
  rw [Binding.initPlace, Node.get?_concat, hget]
  rfl

/-- A declarator with a name and an initial value in their places has that initial value. -/
theorem Binding.init?_of_places {b : Binding} {t init : Node} {slots slots' : List Slot} {name : String}
    (hget : t.get? b.place = some (.mk .variableDeclarator slots))
    (hslots : slots.map Slot.isList = [false, false])
    (hname : t.get? (b.place ++ [first]) = some (.mk (.identifier name) slots'))
    (hinit : t.get? b.initPlace = some init) : b.init? t = some init := by
  obtain ⟨target, rest, rfl, hrest⟩ := Node.exists_single_of_isList hslots
  obtain ⟨last, rest, rfl, hnone⟩ := Node.exists_single_of_isList hrest
  obtain rfl := List.map_eq_nil_iff.mp hnone
  rw [Node.get?_concat, hget] at hname
  rw [initPlace, Node.get?_concat, hget] at hinit
  cases (show target = _ from hname)
  cases (show last = _ from hinit)
  simp only [Binding.init?, hget]

/-! ## Agreement -/

/-- The second analysis keeps what the first one finds out about the identifiers of a tree: which have
no binding, which are global, and the constant bindings. -/
structure Agrees (t : Node) (a a' : Analysis) : Prop where
  unbound : ∀ p name slots, t.get? p = some (.mk (.identifier name) slots) →
    a.bindingNumber? p = none → a'.bindingNumber? p = none
  isGlobal : ∀ p name slots, t.get? p = some (.mk (.identifier name) slots) →
    a'.isGlobal p = a.isGlobal p
  constant : ∀ p name slots i b, t.get? p = some (.mk (.identifier name) slots) →
    a.bindingFor? p = some (i, b) → b.constant = true →
      ∃ j b', a'.bindingFor? p = some (j, b') ∧ b'.constant = true ∧ b'.place = b.place ∧
        b'.kind = b.kind
  same : ∀ p name slots p' name' slots' j, t.get? p = some (.mk (.identifier name) slots) →
    t.get? p' = some (.mk (.identifier name') slots') → a'.bindingNumber? p = some j →
      a'.bindingNumber? p' = some j → a.bindingNumber? p = a.bindingNumber? p'

/-- Numbers below a bound without repetitions are no more than the bound. -/
theorem length_le_of_nodup {l : List Nat} {n : Nat} (h : l.Nodup) (hlt : ∀ i ∈ l, i < n) :
    l.length ≤ n := by
  have hle := h.length_le_of_subset fun i hi => List.mem_range.mpr (hlt i hi)
  rwa [List.length_range] at hle

namespace Agrees

variable {t : Node} {a a' : Analysis}

theorem refl (t : Node) (a : Analysis) : Agrees t a a where
  unbound := fun _ _ _ _ h => h
  isGlobal := fun _ _ _ _ => rfl
  constant := fun _ _ _ i b _ hb hc => ⟨i, b, hb, hc, rfl, rfl⟩
  same := fun _ _ _ _ _ _ _ _ _ h h' => by rw [h, h']

/-- Two evaluations under way: the second one has passed no binding that the first has not, and has
fuel for all that are left. -/
structure Passing (t : Node) (a a' : Analysis) (fuel' : Nat) (passed passed' : List Nat) : Prop where
  fuel : fuel' + passed'.length = a'.bindings.length + 1
  nodup : passed'.Nodup
  bounded : ∀ j ∈ passed', j < a'.bindings.length
  origin : ∀ j ∈ passed', ∃ p name slots i, t.get? p = some (.mk (.identifier name) slots) ∧
    a'.bindingNumber? p = some j ∧ a.bindingNumber? p = some i ∧ i ∈ passed

theorem Passing.start (t : Node) (a a' : Analysis) (passed : List Nat) :
    Passing t a a' (a'.bindings.length + 1) passed [] where
  fuel := rfl
  nodup := List.nodup_nil
  bounded := by simp
  origin := by simp

/-- A list without repetitions is not longer than the number of bindings: some fuel is left. -/
theorem Passing.exists_fuel {fuel' : Nat} {passed passed' : List Nat}
    (h : Passing t a a' fuel' passed passed') : ∃ rest, fuel' = rest + 1 := by
  have hle := length_le_of_nodup h.nodup h.bounded
  have hfuel := h.fuel
  exact ⟨fuel' - 1, by omega⟩

theorem Passing.pass {fuel' : Nat} {passed passed' : List Nat}
    (h : Passing t a a' (fuel' + 1) passed passed') (hagrees : Agrees t a a') {p : Position}
    {name : String} {slots : List Slot} {i j : Nat} {b' : Binding}
    (hget : t.get? p = some (.mk (.identifier name) slots)) (hi : a.bindingNumber? p = some i)
    (hj : a'.bindingFor? p = some (j, b')) (hnew : i ∉ passed) :
    j ∉ passed' ∧ Passing t a a' fuel' (i :: passed) (j :: passed') := by
  obtain ⟨hnumber, hb'⟩ := bindingFor?_eq_some.mp hj
  have hnew' : j ∉ passed' := by
    intro hmem
    obtain ⟨q, word, slots', k, hq, hqj, hqk, hk⟩ := h.origin j hmem
    rw [hagrees.same q word slots' p name slots j hq hget hqj hnumber, hi] at hqk
    cases hqk
    exact hnew hk
  refine ⟨hnew', ?_, List.nodup_cons.mpr ⟨hnew', h.nodup⟩, ?_, ?_⟩
  · have := h.fuel
    simp only [List.length_cons]
    omega
  · intro k hk
    rcases List.mem_cons.mp hk with rfl | hk
    · exact (List.getElem?_eq_some_iff.mp hb').1
    · exact h.bounded k hk
  · intro k hk
    rcases List.mem_cons.mp hk with rfl | hk
    · exact ⟨p, name, slots, i, hget, hnumber, hi, List.mem_cons_self⟩
    · obtain ⟨q, word, slots', l, hq, hqk, hql, hl⟩ := h.origin k hk
      exact ⟨q, word, slots', l, hq, hqk, hql, List.mem_cons_of_mem _ hl⟩

/-- The initial value that gives a name its value is found under both analyses. -/
theorem constantInit? (h : Agrees t a a') {decoder : Option String} {p : Position} {name : String}
    {slots : List Slot} {i : Nat} {initPlace : Position} {init : Node}
    (hget : t.get? p = some (.mk (.identifier name) slots))
    (hinit : (Context.ofTree t a decoder).constantInit? p = some (i, initPlace, init)) :
    ∃ j b', a'.bindingFor? p = some (j, b') ∧
      (Context.ofTree t a' decoder).constantInit? p = some (j, initPlace, init) := by
  obtain ⟨b, hb, hnode, hconst, hvar, hbefore, hinside, rfl⟩ := constantInit?_eq_some.mp hinit
  obtain ⟨j, b', hb', hconst', hplace, hkind⟩ := h.constant p name slots i b hget hb hconst
  refine ⟨j, b', hb', constantInit?_eq_some.mpr ⟨b', hb', ?_, hconst', ?_, ?_, ?_, ?_⟩⟩
  · rw [← hnode]
    simp only [Binding.init?, hplace]
    rfl
  · rw [hkind, hvar]
  · rw [hplace, hbefore]
  · rw [hplace, hinside]
  · simp only [Binding.initPlace, hplace]

/-- The simulation, from the values of names. -/
theorem simulates_of_names {view : Value → Value} (hview : OperationsRespect view) (h : Agrees t a a')
    {decoder : Option String} {fuel fuel' : Nat} {passed passed' : List Nat}
    (hnames : ∀ p name slots v, t.get? p = some (.mk (.identifier name) slots) →
      valueOfBinding (Context.ofTree t a decoder) fuel passed p name = .ok v →
        valueOfBinding (Context.ofTree t a' decoder) fuel' passed' p name = .ok v) :
    Simulates view ((Context.ofTree t a decoder).within fuel passed)
      ((Context.ofTree t a' decoder).within fuel' passed') t t (fun _ => True) (fun _ => False) where
  respects := hview
  node := fun _ n _ _ hn => ⟨n, hn, rfl, rfl⟩
  step := fun _ _ _ _ => trivial
  value := fun _ _ _ _ hr _ _ => hr.elim
  replaceable := fun _ _ _ _ _ _ _ hr => hr.elim
  nameless := fun _ _ _ hr _ => hr.elim
  callee := fun _ _ _ _ _ _ _ hr => hr
  name := fun p name slots v _ hget hv => ⟨v, hnames p name slots v hget hv, rfl⟩
  isGlobal := fun p name slots _ hget => h.isGlobal p name slots hget
  decoder := fun _ _ _ _ hget hk hv =>
    callsDecoder_eq_false rfl rfl hget hk (valueOf_eq_ok_iff.mp hv) (fun c hc => ⟨c, hc, rfl⟩)
      fun name slots hc => h.isGlobal _ name slots hc

/-- **The second analysis finds the values of names that the first one finds.**  The induction is on
the fuel of the first evaluation; the second has enough because it never passes a binding twice. -/
theorem valueOfBinding (h : Agrees t a a') (decoder : Option String) :
    ∀ (fuel fuel' : Nat) (passed passed' : List Nat), Passing t a a' fuel' passed passed' →
      ∀ p name slots v, t.get? p = some (.mk (.identifier name) slots) →
        Descramble.valueOfBinding (Context.ofTree t a decoder) fuel passed p name = .ok v →
          Descramble.valueOfBinding (Context.ofTree t a' decoder) fuel' passed' p name = .ok v := by
  intro fuel
  induction fuel with
  | zero =>
      intro fuel' passed passed' _ p name slots v _ hv
      cases hv
  | succ fuel ih =>
      intro fuel' passed passed' hpassing p name slots v hget hv
      obtain ⟨fuel', rfl⟩ := hpassing.exists_fuel
      rcases valueOfBinding_eq_ok.mp hv with
        ⟨hnone, hglobal⟩ | ⟨i, initPlace, init, hinit, hnew, harray, hv⟩
      · have hnone' := h.unbound p name slots hget hnone
        exact valueOfBinding_eq_ok.mpr (Or.inl ⟨hnone', hglobal⟩)
      · obtain ⟨j, b', hb', hinit'⟩ := h.constantInit? hget hinit
        obtain ⟨hnew', hpassing'⟩ :=
          hpassing.pass h hget (bindingNumber?_of_constantInit? hinit) hb' hnew
        obtain ⟨b, -, hnode, -, -, -, -, rfl⟩ := constantInit?_eq_some.mp hinit
        have hgeti : t.get? b.initPlace = some init := get?_initPlace hnode
        obtain ⟨n', v', hn', hv', rfl⟩ := (h.simulates_of_names operationsRespect_id
          (ih _ _ _ hpassing')).valueOf init b.initPlace v trivial hgeti hv
        rw [hgeti] at hn'
        cases hn'
        exact valueOfBinding_eq_ok.mpr (Or.inr ⟨j, _, init, hinit', hnew', harray, hv'⟩)

/-- **The second analysis finds the values that the first one finds.** -/
theorem valueOf (h : Agrees t a a') {decoder : Option String} {fuel : Nat} {passed : List Nat}
    {p : Position} {n : Node} {v : Value} (hget : t.get? p = some n)
    (hv : Descramble.valueOf ((Context.ofTree t a decoder).within fuel passed) p n = .ok v) :
    Descramble.valueOf (Context.ofTree t a' decoder).surroundings p n = .ok v := by
  obtain ⟨n', v', hn', hv', rfl⟩ := (h.simulates_of_names operationsRespect_id
    (h.valueOfBinding decoder fuel _ passed [] (Passing.start t a a' passed))).valueOf n p v
      trivial hget hv
  rw [hget] at hn'
  cases hn'
  exact hv'

/-- The values agree in particular up to the form of numbers. -/
theorem simulates (h : Agrees t a a') (decoder : Option String) (fuel : Nat) (passed : List Nat) :
    Simulates Value.normal ((Context.ofTree t a decoder).within fuel passed)
      (Context.ofTree t a' decoder).surroundings t t (fun _ => True) (fun _ => False) :=
  h.simulates_of_names operationsRespect_normal
    (h.valueOfBinding decoder fuel _ passed [] (Passing.start t a a' passed))

end Agrees

/-- **A value that is found with fewer bindings is found with all.** -/
theorem Context.valueOf_surroundings {t n : Node} {a : Analysis} {decoder : Option String} {fuel : Nat}
    {passed : List Nat} {p : Position} {v : Value} (hget : t.get? p = some n)
    (hv : valueOf ((Context.ofTree t a decoder).within fuel passed) p n = .ok v) :
    valueOf (Context.ofTree t a decoder).surroundings p n = .ok v :=
  (Agrees.refl t a).valueOf hget hv

end Descramble

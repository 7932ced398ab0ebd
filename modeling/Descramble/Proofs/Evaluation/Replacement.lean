import Descramble.Proofs.Evaluation.Agreement

/-!
# Values after a replacement

A node is replaced by one that has its value.  What the names of the tree mean
is taken from an analysis that was made before.

* `not_value_callee` — the callee of a call with a value has no value itself, unless it is a name.
* `Replaces` — a node and its replacement.
* `Replaces.valueOf` — everything outside the replaced node keeps its value.
* `Replaces.of_folded` — what is folded is replaced by the literal of its value.
-/

set_option autoImplicit false

namespace Descramble

/-! ## Callees -/

theorem memberOf_ne_ok {name : String} (hlength : name ≠ "length")
    (hindex : Value.indexOfKey? name.toList = .ok none) (length : Nat) (item : Nat → Option Value)
    (v : Value) : Value.memberOf length item name ≠ .ok v := by
  unfold Value.memberOf
  rw [if_neg hlength, hindex]
  intro h
  cases h

/-- The name of a method is neither the length nor an index. -/
theorem textMethod_name {name : String} {m : Value.TextMethod}
    (h : Value.TextMethod.ofName? name = some m) :
    name ≠ "length" ∧ Value.indexOfKey? name.toList = .ok none := by
  unfold Value.TextMethod.ofName? at h
  split at h <;> cases h <;> exact ⟨by decide, rfl⟩

theorem arrayMethod_name {name : String} {m : Value.ArrayMethod}
    (h : Value.ArrayMethod.ofName? name = some m) :
    name ≠ "length" ∧ Value.indexOfKey? name.toList = .ok none := by
  unfold Value.ArrayMethod.ofName? at h
  split at h <;> cases h <;> exact ⟨by decide, rfl⟩

/-- A method is no member that has a value. -/
theorem member_ne_ok_of_callMethod {receiver : Value} {name : String} {args : List Value} {v : Value}
    (h : receiver.callMethod name args = .ok v) (w : Value) :
    receiver.member (.text name) ≠ .ok w := by
  cases receiver with
  | text s =>
      unfold Value.callMethod at h
      cases hm : Value.TextMethod.ofName? name with
      | none => simp [hm] at h
      | some m =>
          obtain ⟨hlength, hindex⟩ := textMethod_name hm
          exact memberOf_ne_ok hlength hindex _ _ w
  | array items =>
      unfold Value.callMethod at h
      cases hm : Value.ArrayMethod.ofName? name with
      | none => simp [hm] at h
      | some m =>
          obtain ⟨hlength, hindex⟩ := arrayMethod_name hm
          exact memberOf_ne_ok hlength hindex _ _ w
  | _ => cases h

/-- A key that is written in the code is a text. -/
theorem key_eq_of_accessedName? {env : Surroundings} {p : Position} {computed : Bool}
    {property : Node} {key : Value} {name : String} (hkey : ComputesKey env p computed property key)
    (hname : accessedName? computed property = some name) : key = .text name := by
  cases hkey with
  | plain =>
      cases hname
      rfl
  | computed h =>
      obtain ⟨k, slots⟩ := property
      unfold accessedName? at hname
      simp only [Node.kind] at hname
      split at hname
      · rename_i hcomputed
        cases hcomputed
      · cases hname
        cases valueOf_eq_ok_iff.mp h with
        | literal h =>
            unfold valueOfLiteral basicPlaneOnly at h
            split at h
            · cases h
            · simp only at h
              split at h
              · cases h
              · cases h
                rfl
      · cases hname

theorem globalValue?_of_ofMember? {object word : String} {f : Builtin}
    (h : Builtin.ofMember? object word = some f) : globalValue? object = none := by
  unfold Builtin.ofMember? at h
  split at h
  · rename_i ho
    rw [ho]
    rfl
  · split at h
    · rename_i ho
      rw [ho.1]
      rfl
    · cases h

/-- **The callee of a call with a value has no value itself**, unless it is a name. -/
theorem not_value_callee {t n c : Node} {a : Analysis} {decoder : Option String} {fuel : Nat}
    {passed : List Nat} {p : Position} {v w : Value} (hget : t.get? p = some n) (hk : n.kind = .call)
    (hv : valueOf ((Context.ofTree t a decoder).within fuel passed) p n = .ok v)
    (hc : t.get? (p ++ [first]) = some c)
    (hw : valueOf (Context.ofTree t a decoder).surroundings (p ++ [first]) c = .ok w) :
    ∃ name, c.kind = .identifier name := by
  have hcv := valueOf_eq_ok_iff.mp hw
  rw [Node.get?_concat, hget, Option.bind_some] at hc
  cases valueOf_eq_ok_iff.mp hv with
  | callGlobal =>
      cases hc
      exact ⟨_, rfl⟩
  | @callMember computed owner property arguments f vs v hdecoder hf hvs hv =>
      cases hc
      obtain ⟨object, word, howner, -, hglobal, hmember⟩ := globalMember?_eq_some.mp hf
      cases hcv with
      | @member _ _ _ receiver key _ hreceiver hkey h =>
          obtain ⟨k, slots⟩ := owner
          cases howner
          rw [List.append_assoc, List.singleton_append] at hreceiver
          cases valueOf_eq_ok_iff.mp hreceiver with
          | identifier hname =>
              have hnone := bindingNumber?_of_isGlobal hglobal
              rcases valueOfBinding_eq_ok.mp hname with ⟨-, hvalue⟩ | ⟨_, _, _, hinit, -⟩
              · rw [globalValue?_of_ofMember? hmember] at hvalue
                cases hvalue
              · rw [bindingNumber?_of_constantInit? hinit] at hnone
                cases hnone
  | @callMethod computed owner property arguments name receiver vs v hdecoder hf hname hreceiver hvs
      hv =>
      cases hc
      cases hcv with
      | @member _ _ _ receiver' key _ hreceiver' hkey h =>
          have hgeto : t.get? (p ++ [first, first]) = some owner := by
            rw [Node.get?_append, hget]
            rfl
          rw [List.append_assoc] at hreceiver'
          obtain rfl : receiver = receiver' := Except.ok.inj
            ((Context.valueOf_surroundings hgeto hreceiver).symm.trans hreceiver')
          rw [key_eq_of_accessedName? hkey hname] at h
          exact absurd h (member_ne_ok_of_callMethod hv w)
  | _ => cases hk

/-! ## Replacements -/

/-- A node gives way to one that has its value, if it has any, wherever it stands; all else keeps its
form.  What is declared inside the node is seen only there, and a binding that is seen outside keeps
its initial value. -/
structure Replaces (view : Value → Value) (t t' : Node) (a : Analysis) (decoder : Option String)
    (q : Position) (m : Node) : Prop where
  respects : OperationsRespect view
  node : ∀ p n, ¬ q <+: p → t.get? p = some n →
    ∃ n', t'.get? p = some n' ∧ n'.kind.nameForm = n.kind.nameForm ∧ n'.shape = n.shape
  self : t'.get? q = some m
  written : m.IsWritten
  value : ∀ n v, t.get? q = some n →
    valueOf (Context.ofTree t a decoder).surroundings q n = .ok v →
      ∀ env p, ∃ w, valueOf env p m = .ok w ∧ view w = view v
  replaceable : ∀ p s n c, q = p ++ [s] → t.get? p = some n → n.kind.isEvaluable = true →
    t.get? q = some c → Replaceable (Context.ofTree t a decoder).surroundings n p s c
  callee : ∀ fuel passed p n v, t.get? p = some n → n.kind = .call →
    valueOf ((Context.ofTree t a decoder).within fuel passed) p n = .ok v → p ++ [first] ≠ q
  seen : ∀ p name slots i b init, t.get? p = some (.mk (.identifier name) slots) →
    a.bindingFor? p = some (i, b) → b.constant = true → b.init? t = some init →
      p.isInside q = false → ¬ q <+: b.place ∧ q ≠ b.place ++ [first]

namespace Replaces

variable {view : Value → Value} {t t' m : Node} {a : Analysis} {decoder : Option String} {q : Position}

theorem not_above {p : Position} (hout : p.isInside q = false) (hne : p ≠ q) : ¬ q <+: p := by
  intro hq
  have := Position.isInside_iff.mpr ⟨hq, Ne.symm hne⟩
  rw [hout] at this
  cases this

theorem outside_step {p : Position} (s : Step) (hout : p.isInside q = false) (hne : p ≠ q) :
    (p ++ [s]).isInside q = false := by
  cases h : Position.isInside (p ++ [s]) q with
  | false => rfl
  | true =>
      obtain ⟨hq, hqne⟩ := Position.isInside_iff.mp h
      exact absurd (Position.prefix_of_prefix_append hq hqne) (not_above hout hne)

/-- The initial value of a binding that is seen outside stays one. -/
theorem init? (h : Replaces view t t' a decoder q m) {p : Position} {name : String}
    {slots : List Slot} {i : Nat} {b : Binding} {init : Node} (hout : p.isInside q = false)
    (hgetp : t.get? p = some (.mk (.identifier name) slots)) (hb : a.bindingFor? p = some (i, b))
    (hconst : b.constant = true) (hinit : b.init? t = some init) :
    b.initPlace.isInside q = false ∧ ∃ init', b.init? t' = some init' := by
  obtain ⟨hnq, hne⟩ := h.seen p name slots i b init hgetp hb hconst hinit hout
  have houtb : b.place.isInside q = false := by
    cases hin : b.place.isInside q with
    | false => rfl
    | true => exact absurd (Position.isInside_iff.mp hin).1 hnq
  have hneb : b.place ≠ q := fun he => hnq (Position.prefix_of_eq he.symm)
  refine ⟨outside_step _ houtb hneb, ?_⟩
  unfold Binding.init? at hinit
  split at hinit
  · rename_i name slots init₀ hget
    subst hinit
    obtain ⟨⟨k, slots'⟩, hn', hkind, hshape⟩ := h.node _ _ hnq hget
    cases Kind.eq_of_nameForm hkind (by simp)
    rcases (slotsAlike_of_shape hshape : SlotsAlike [.one (some (.mk (.identifier name) slots)),
      .one (some init)] slots') with _ | _ | ⟨_ | _ | ⟨⟨⟩⟩⟩
    rename_i target' init'
    -- the name of the declarator is not replaced either
    have hgetn : t.get? (b.place ++ [first]) = some (.mk (.identifier name) slots) := by
      rw [Node.get?_concat, hget]
      rfl
    have hnq' : ¬ q <+: b.place ++ [first] :=
      fun hq => hnq (Position.prefix_of_prefix_append hq hne)
    obtain ⟨⟨k, tslots⟩, ht', hname, -⟩ := h.node _ _ hnq' hgetn
    rw [Node.get?_concat, hn'] at ht'
    cases ht'
    cases Kind.eq_of_nameForm hname (by simp)
    exact ⟨init', by simp only [Binding.init?, hn']⟩
  · cases hinit

theorem not_identifier_of_isWritten {m : Node} (h : m.IsWritten) (name : String) :
    m.kind ≠ .identifier name := by
  rcases h with ⟨value, raw, rfl⟩ | ⟨n, raw, rfl⟩ <;> simp [Node.negated]

/-- The simulation, from the values of names. -/
theorem simulates_of_names (h : Replaces view t t' a decoder q m) {fuel : Nat} {passed : List Nat}
    (hnames : ∀ p name slots v, p.isInside q = false →
      t.get? p = some (.mk (.identifier name) slots) →
      valueOfBinding (Context.ofTree t a decoder) fuel passed p name = .ok v →
        ∃ v', valueOfBinding (Context.ofTree t' a decoder) fuel passed p name = .ok v' ∧
          view v' = view v) :
    Simulates view ((Context.ofTree t a decoder).within fuel passed)
      ((Context.ofTree t' a decoder).within fuel passed) t t'
      (fun p => p.isInside q = false) (fun p => p = q) where
  respects := h.respects
  node := fun p n hout hne hn => h.node p n (not_above hout hne) hn
  step := fun _ s hout hne => outside_step s hout hne
  value := by
    rintro p n v hout rfl hget hv
    obtain ⟨w, hw, hviews⟩ := h.value n v hget (Context.valueOf_surroundings hget hv)
      ((Context.ofTree t' a decoder).within fuel passed) p
    exact ⟨m, w, h.self, hw, hviews⟩
  replaceable := fun p s n c hn hk hc hr => h.replaceable p s n c hr.symm hn hk (hr ▸ hc)
  nameless := by
    rintro p n' name rfl hn'
    rw [h.self] at hn'
    cases hn'
    exact not_identifier_of_isWritten h.written name
  callee := fun p n v _ hget hk hv => h.callee fuel passed p n v hget hk hv
  name := fun p name slots v hout hget hv => hnames p name slots v hout hget hv
  isGlobal := fun _ _ _ _ _ => rfl
  decoder := by
    intro p n v hout hget hk hv
    by_cases hpq : p = q
    · -- a literal is no call
      subst hpq
      show callsDecoder _ _ _ _ = false
      unfold callsDecoder
      rw [h.self]
      rcases h.written with ⟨value, raw, rfl⟩ | ⟨n, raw, rfl⟩ <;> rfl
    · refine callsDecoder_eq_false rfl rfl hget hk (valueOf_eq_ok_iff.mp hv) ?_ (fun _ _ _ => rfl)
      intro c hc
      have hne := h.callee fuel passed p n v hget hk hv
      obtain ⟨c', hc', hkind, -⟩ := h.node _ c (not_above (outside_step first hout hpq) hne) hc
      exact ⟨c', hc', hkind⟩

/-- **Names keep their values.**  Both evaluations pass the same bindings. -/
theorem valueOfBinding (h : Replaces view t t' a decoder q m) :
    ∀ (fuel : Nat) (passed : List Nat) p name slots v, p.isInside q = false →
      t.get? p = some (.mk (.identifier name) slots) →
      Descramble.valueOfBinding (Context.ofTree t a decoder) fuel passed p name = .ok v →
        ∃ v', Descramble.valueOfBinding (Context.ofTree t' a decoder) fuel passed p name = .ok v' ∧
          view v' = view v := by
  intro fuel
  induction fuel with
  | zero =>
      intro passed p name slots v _ _ hv
      cases hv
  | succ fuel ih =>
      intro passed p name slots v hout hget hv
      rcases valueOfBinding_eq_ok.mp hv with
        ⟨hnone, hglobal⟩ | ⟨i, initPlace, init, hinit, hnew, harray, hv⟩
      · exact ⟨v, valueOfBinding_eq_ok.mpr (Or.inl ⟨hnone, hglobal⟩), rfl⟩
      · obtain ⟨b, hb, hnode, hconst, hvar, hbefore, hinside, rfl⟩ := constantInit?_eq_some.mp hinit
        obtain ⟨houti, init', hnode'⟩ := h.init? hout hget hb hconst hnode
        have hgeti : t.get? b.initPlace = some init := get?_initPlace hnode
        obtain ⟨n', v', hn', hv', hviews⟩ :=
          (h.simulates_of_names (ih (i :: passed))).valueOf init b.initPlace v houti hgeti hv
        rw [get?_initPlace hnode'] at hn'
        cases hn'
        refine ⟨v', valueOfBinding_eq_ok.mpr (Or.inr ⟨i, _, init', ?_, hnew, ?_, hv'⟩), hviews⟩
        · exact constantInit?_eq_some.mpr ⟨b, hb, hnode', hconst, hvar, hbefore, hinside, rfl⟩
        · rw [← h.respects.isArray, hviews, h.respects.isArray, harray]

/-- **Everything outside the replaced node keeps its value.** -/
theorem valueOf (h : Replaces view t t' a decoder q m) {p : Position} {n : Node} {v : Value}
    (hout : p.isInside q = false) (hget : t.get? p = some n)
    (hv : Descramble.valueOf (Context.ofTree t a decoder).surroundings p n = .ok v) :
    ∃ n' v', t'.get? p = some n' ∧
      Descramble.valueOf (Context.ofTree t' a decoder).surroundings p n' = .ok v' ∧
        view v' = view v :=
  (h.simulates_of_names (h.valueOfBinding _ [])).valueOf n p v hout hget hv

end Replaces

/-! ## Folded expressions -/

/-- Outside the replaced node nothing changes but the children. -/
theorem exists_node_replaceAt {t m : Node} {p q : Position} {n : Node} (hq : ¬ q <+: p)
    (hn : t.get? p = some n) :
    ∃ n', (t.replaceAt q m).get? p = some n' ∧ n'.kind = n.kind ∧ n'.shape = n.shape := by
  have hkept : ∀ (g : Node → Node) (n : Node) (s : Step),
      ((n.modifyChild g s).kind, (n.modifyChild g s).shape) = (n.kind, n.shape) := by
    intro g n s
    rw [Node.kind_modifyChild, Node.shape_modifyChild]
  have hview := @Node.map_get?_modifyAt_of_not_prefix _ (fun n => (n.kind, n.shape)) hkept
    (fun _ => m) t q p hq
  rw [hn, Option.map_some] at hview
  obtain ⟨n', hn', he⟩ := Option.map_eq_some_iff.mp hview
  simp only [Prod.mk.injEq] at he
  exact ⟨n', hn', he.1, he.2⟩

section Folded

variable {t m c : Node} {a : Analysis} {decoder : Option String} {q : Position} {v : Value}

/-- What a pass may fold: a call, a binary expression, an access or the initial value of a
declarator. -/
def FoldedAt (t : Node) (q : Position) : Prop :=
  (∃ n, t.get? q = some n ∧ n.kind.isFoldable = true) ∨
    ∃ p n, q = p ++ [second] ∧ t.get? p = some n ∧ n.kind = .variableDeclarator

theorem FoldedAt.ne_of_identifier (h : FoldedAt t q) {p : Position} {s : Step} {n c : Node}
    {name : String} (hn : t.get? p = some n) (hs : n.kind = .variableDeclarator → s ≠ second)
    (hc : t.get? (p ++ [s]) = some c) (hk : c.kind = .identifier name) : q ≠ p ++ [s] := by
  rintro rfl
  rcases h with ⟨c', hc', hfold⟩ | ⟨p', n', he, hn', hk'⟩
  · rw [hc] at hc'
    cases hc'
    rw [hk] at hfold
    cases hfold
  · obtain ⟨rfl, hsec⟩ := List.append_inj' he rfl
    rw [hn] at hn'
    cases hn'
    exact hs hk' (by simpa using hsec)

/-- **The literal of a known value replaces what is folded.** -/
theorem Replaces.of_folded (hget : t.get? q = some c)
    (hv : Descramble.valueOf (Context.ofTree t a decoder).surroundings q c = .ok v)
    (hm : ∀ env p, ∃ w, Descramble.valueOf env p m = .ok w ∧ w.normal = v.normal)
    (htarget : FoldedAt t q) (hwritten : m.IsWritten)
    (hseen : ∀ p name slots i b, t.get? p = some (.mk (.identifier name) slots) →
      a.bindingFor? p = some (i, b) → b.constant = true → q <+: b.place → p.isInside q = true) :
    Replaces Value.normal t (t.replaceAt q m) a decoder q m where
  respects := operationsRespect_normal
  node := by
    intro p n hq hn
    obtain ⟨n', hn', hkind, hshape⟩ := exists_node_replaceAt (m := m) hq hn
    exact ⟨n', hn', by rw [hkind], hshape⟩
  self := by
    have := Node.get?_replaceAt_append t m q []
    rwa [List.append_nil, hget] at this
  written := hwritten
  value := by
    intro n w hn hw
    rw [hget] at hn
    cases hn
    rw [hv] at hw
    cases hw
    exact hm
  replaceable := by
    rintro p s n c rfl hn hk hc
    rcases htarget with ⟨c', hc', hfold⟩ | ⟨p', n', he, hn', hk'⟩
    · rw [hc] at hc'
      cases hc'
      exact Or.inl hfold
    · obtain ⟨rfl, -⟩ := List.append_inj' he rfl
      rw [hn] at hn'
      cases hn'
      rw [hk'] at hk
      cases hk
  callee := by
    rintro fuel passed p n w hn hk hw rfl
    obtain ⟨name, hname⟩ := not_value_callee hn hk hw hget hv
    exact htarget.ne_of_identifier hn (by rw [hk]; simp) hget hname rfl
  seen := by
    intro p name slots i b init hgetp hb hconst hinit hout
    refine ⟨?_, ?_⟩
    · intro hq
      rw [hseen p name slots i b hgetp hb hconst hq] at hout
      cases hout
    · unfold Binding.init? at hinit
      split at hinit
      · rename_i hgetb
        exact htarget.ne_of_identifier hgetb (fun _ => by decide)
          (by rw [Node.get?_concat, hgetb]; rfl) rfl
      · cases hinit

end Folded

end Descramble

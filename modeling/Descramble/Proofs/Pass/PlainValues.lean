import Descramble.Proofs.Evaluation.Literal
import Descramble.Proofs.Pass.PlainAnalysis
import Descramble.Proofs.Pass.WrittenNames

/-!
# Plain member names and values

An access has the value that it has with its key in brackets, as a member and as a method that is
called.

* `basicPlaneOnly_of_isPlainName` — a plain name is a text of the basic plane.
* `valueOf_plainMember`, `valueOf_call_withPlainNames` — accesses and calls.
* `valueOf_withPlainNames` — an expression keeps its value in given surroundings.
-/

set_option autoImplicit false

namespace Descramble

/-! ## Parts of expressions -/

theorem toNat_lt_of_isAlphanum {c : Char} (h : c.isAlphanum = true) : c.toNat < 128 := by
  have hcases : (c.isUpper = true ∨ c.isLower = true) ∨ c.isDigit = true :=
    (Bool.or_eq_true_iff.mp h).imp_left Bool.or_eq_true_iff.mp
  rcases hcases with (hupper | hlower) | hdigit
  · have hle : c.val ≤ 'Z'.val := (of_decide_eq_true hupper).2
    exact Nat.lt_of_le_of_lt (UInt32.le_iff_toNat_le.mp hle) (by decide)
  · have hle : c.val ≤ 'z'.val := of_decide_eq_true (Bool.and_eq_true_iff.mp hlower).2
    exact Nat.lt_of_le_of_lt (UInt32.le_iff_toNat_le.mp hle) (by decide)
  · exact Nat.lt_of_le_of_lt (Char.isDigit_iff_toNat.mp hdigit).2 (by decide)

theorem IsAsciiName.basic {name : String} (h : IsAsciiName name) : Text.Basic name.toList := by
  have hword : ∀ {c : Char}, c.isAlphanum = true ∨ c = '_' → c.toNat ≤ 0xFFFF := by
    rintro c (hc | rfl)
    · exact Nat.le_of_lt (Nat.lt_trans (toNat_lt_of_isAlphanum hc) (by decide))
    · decide
  obtain ⟨c, cs, hname, hc, hcs⟩ := h
  rw [hname]
  refine Text.Basic.cons (hword (hc.imp_left fun halpha => ?_)) fun d hd => hword (hcs d hd)
  exact Bool.or_eq_true_iff.mpr (Or.inl halpha)

/-- A plain name is its own value as a text. -/
theorem basicPlaneOnly_of_isPlainName {name : String} (h : isPlainName name = true) :
    basicPlaneOnly name = .ok (.text name) := by
  refine basicPlaneOnly_eq_ok.mpr ⟨rfl, ?_⟩
  rcases isPlainName_iff.mp h with hname | ⟨word, hword, rfl⟩
  · exact hname.basic
  · rw [String.toList_append]
    exact hword.basic.append (Text.Basic.of_all (by decide))

theorem cookedText_withPlainNames (piece : Option Node) :
    cookedText (piece.map Node.withPlainNames) = cookedText piece := by
  cases piece with
  | none => rfl
  | some n =>
      rw [Option.map_some]
      generalize hm : n.withPlainNames = m
      unfold cookedText
      split
      · rename_i heq
        cases heq
        obtain ⟨slots, rfl, -⟩ := Node.eq_of_withPlainNames (by simp) hm
        rfl
      · rename_i hpiece
        split
        · rename_i heq
          cases heq
          rw [withPlainNames_of_kind (by simp)] at hm
          exact (hpiece _ _ _ _ (congrArg some hm.symm)).elim
        · rfl

/-- What is read of a node besides its children: accesses are told apart from the other kinds only. -/
theorem accessedName?_withPlainNames (computed : Bool) (property : Node) :
    accessedName? computed property.withPlainNames = accessedName? computed property := by
  unfold accessedName?
  rcases kind_withPlainNames property with h | ⟨h, h'⟩
  · rw [h]
  · rw [h, h']
    cases computed <;> rfl

theorem globalMember?_withPlainNames (env : Surroundings) (place : Position) (owner : Node)
    (name : Option String) :
    globalMember? env place owner.withPlainNames name = globalMember? env place owner name := by
  unfold globalMember?
  rcases kind_withPlainNames owner with h | ⟨h, h'⟩
  · rw [h]
  · rw [h, h']

theorem itemValues_withPlainNames {env : Surroundings} {p : Position} {slot : Nat} :
    ∀ {items : List (Option Node)} {i : Nat},
      (∀ c, some c ∈ items → ∀ q, valueOf env q c.withPlainNames = valueOf env q c) →
      itemValues env p slot i (items.map fun c => c.map Node.withPlainNames) =
        itemValues env p slot i items
  | [], _, _ => rfl
  | none :: rest, i, h => by
      rw [List.map_cons, Option.map_none, itemValues, itemValues,
        itemValues_withPlainNames fun c hc => h c (List.mem_cons_of_mem _ hc)]
  | some c :: rest, i, h => by
      rw [List.map_cons, Option.map_some, itemValues, itemValues, h c List.mem_cons_self,
        itemValues_withPlainNames fun c hc => h c (List.mem_cons_of_mem _ hc)]

theorem templateText_withPlainNames {env : Surroundings} {p : Position} :
    ∀ {exprs quasis : List (Option Node)} {i : Nat} {start : List Char},
      (∀ c, some c ∈ exprs → ∀ q, valueOf env q c.withPlainNames = valueOf env q c) →
      templateText env p i start (quasis.map fun c => c.map Node.withPlainNames)
          (exprs.map fun c => c.map Node.withPlainNames) =
        templateText env p i start quasis exprs
  | [], _, _, _, _ => by rw [List.map_nil, templateText, templateText]
  | none :: rest, quasis, _, _, _ => by
      rw [List.map_cons, Option.map_none, templateText, templateText, List.isEmpty_map]
  | some c :: rest, [], _, _, _ => by
      rw [List.map_cons, Option.map_some, List.map_nil, templateText, templateText]
  | some c :: rest, quasi :: quasis, i, start, h => by
      have hrest : ∀ start, templateText env p (i + 1) start
            (quasis.map fun c => c.map Node.withPlainNames) (rest.map fun c => c.map Node.withPlainNames) =
          templateText env p (i + 1) start quasis rest := fun start =>
        templateText_withPlainNames fun c hc => h c (List.mem_cons_of_mem _ hc)
      simp only [List.map_cons, Option.map_some, templateText, h c List.mem_cons_self,
        cookedText_withPlainNames, hrest]

/-! ## Expressions -/

/-- **An access has the value that it has with its key in brackets.** -/
theorem valueOf_plainMember {env : Surroundings} {p : Position} {object object' : Node} {name raw : String}
    {slots : List Slot} (hname : isPlainName name = true)
    (hobject : valueOf env (p ++ [first]) object' = valueOf env (p ++ [first]) object) :
    valueOf env p (.memberOf false object' (.ident name)) =
      valueOf env p (.memberOf true object (.mk (.literal (.text name) raw none) slots)) := by
  have hkey : valueOf env (p ++ [second]) (.mk (.literal (.text name) raw none) slots) =
      .ok (.text name) := by
    rw [valueOf]
    exact basicPlaneOnly_of_isPlainName hname
  rw [valueOf]
  simp only [Bool.false_eq_true, if_false]
  rw [valueOf, hobject]
  simp only [if_true, hkey]
  rfl

/-- The key of an access that becomes plain is a text and no regular expression. -/
theorem plainMember?_eq_some_of_conforms {n : Node} (hc : n.conforms = true) {name : String}
    (h : plainMember? n = some name) : isPlainName name = true ∧ ∃ object raw slots,
      n = .memberOf true object (.mk (.literal (.text name) raw none) slots) := by
  obtain ⟨hname, object, raw, regex, slots, rfl⟩ := plainMember?_eq_some_iff.mp h
  cases regex with
  | none => exact ⟨hname, object, raw, slots, rfl⟩
  | some pattern =>
      cases Node.value_eq_null (Node.conforms_iff.mp hc [second] _ rfl)

theorem head?_join_withPlainNames (pieces : List (Option Node)) :
    (pieces.map fun c => c.map Node.withPlainNames).head?.join =
      pieces.head?.join.map Node.withPlainNames := by
  cases pieces <;> rfl

/-- An access in plain names names the same member of the same object. -/
theorem withPlainNames_memberOf (computed : Bool) (object property : Node) :
    ∃ computed' property', (Node.memberOf computed object property).withPlainNames =
        .memberOf computed' object.withPlainNames property' ∧
      accessedName? computed' property' = accessedName? computed property := by
  cases hplain : plainMember? (.memberOf computed object property) with
  | some name =>
      obtain ⟨hname, object₀, raw, regex, slots, he⟩ := plainMember?_eq_some_iff.mp hplain
      cases he
      exact ⟨false, _, withPlainNames_plain hname .., rfl⟩
  | none =>
      exact ⟨computed, _, withPlainNames_of_none hplain, accessedName?_withPlainNames computed property⟩

theorem eq_memberOf_of_withPlainNames {n owner' property' : Node} {computed' : Bool}
    (h : n.withPlainNames = .memberOf computed' owner' property') :
    ∃ computed owner property, n = .memberOf computed owner property := by
  cases hplain : plainMember? n with
  | some name =>
      obtain ⟨-, object, raw, regex, slots, rfl⟩ := plainMember?_eq_some_iff.mp hplain
      exact ⟨true, object, _, rfl⟩
  | none =>
      obtain ⟨k, slots⟩ := n
      rw [withPlainNames_of_none hplain] at h
      obtain ⟨rfl, hslots⟩ := Node.mk.inj h
      simp only [slots_eq_one_iff, List.map_eq_nil_iff, Option.map_eq_some_iff] at hslots
      obtain ⟨_, _, rfl, ⟨owner, rfl, rfl⟩, _, _, rfl, ⟨property, rfl, rfl⟩, rfl⟩ := hslots
      exact ⟨computed', owner, property, rfl⟩

/-- **A call keeps its value**, whether it calls a name, a member, or something else. -/
theorem valueOf_call_withPlainNames {env : Surroundings} {p : Position} {slots : List Slot}
    (hbelow : ∀ s r c, (Node.mk .call slots).get? (s :: r) = some c → ∀ q,
      valueOf env q c.withPlainNames = valueOf env q c)
    (hitem : ∀ (slot : Nat) items, slots[slot]? = some (.many items) → ∀ c, some c ∈ items →
      ∀ q, valueOf env q c.withPlainNames = valueOf env q c) :
    valueOf env p (.mk .call (slots.map Slot.withPlainNames)) = valueOf env p (.mk .call slots) := by
  by_cases hname : ∃ name slots' arguments,
      slots = [.one (some (.mk (.identifier name) slots')), .many arguments]
  · obtain ⟨name, slots', arguments, rfl⟩ := hname
    simp only [List.map_cons, List.map_nil, Slot.withPlainNames, Option.map_some,
      withPlainNames_of_kind (show Kind.identifier name ≠ .member true by simp)]
    rw [valueOf, valueOf, itemValues_withPlainNames (hitem 1 arguments rfl)]
  · by_cases hmember : ∃ computed owner property arguments,
        slots = [.one (some (.memberOf computed owner property)), .many arguments]
    · obtain ⟨computed, owner, property, arguments, rfl⟩ := hmember
      obtain ⟨computed', property', hcallee, haccessed⟩ := withPlainNames_memberOf computed owner property
      simp only [List.map_cons, List.map_nil, Slot.withPlainNames, Option.map_some, hcallee]
      rw [valueOf, valueOf, itemValues_withPlainNames (hitem 1 arguments rfl),
        hbelow first [first] owner rfl, haccessed]
      simp only [globalMember?_withPlainNames]
    · rw [valueOf, valueOf]
      · exact fun name slots' arguments he => hname ⟨name, slots', arguments, he⟩
      · exact fun computed owner property arguments he =>
          hmember ⟨computed, owner, property, arguments, he⟩
      · intro name slots' arguments he
        simp only [slots_eq_one_iff, slots_eq_many_iff, List.map_eq_nil_iff, Option.map_eq_some_iff] at he
        obtain ⟨_, _, rfl, ⟨callee, rfl, hcallee⟩, arguments, _, rfl, rfl, rfl⟩ := he
        obtain ⟨slots, rfl, -⟩ := Node.eq_of_withPlainNames (by simp) hcallee
        exact hname ⟨name, slots, arguments, rfl⟩
      · intro computed' owner' property' arguments he
        simp only [slots_eq_one_iff, slots_eq_many_iff, List.map_eq_nil_iff, Option.map_eq_some_iff] at he
        obtain ⟨_, _, rfl, ⟨callee, rfl, hcallee⟩, arguments, _, rfl, rfl, rfl⟩ := he
        obtain ⟨computed, owner, property, rfl⟩ := eq_memberOf_of_withPlainNames hcallee
        exact hmember ⟨computed, owner, property, arguments, rfl⟩

/-- **An expression keeps its value**, in whatever surroundings. -/
theorem valueOf_withPlainNames {env : Surroundings} (n : Node) :
    n.conforms = true → ∀ p, valueOf env p n.withPlainNames = valueOf env p n := by
  induction n using Node.belowInduction with
  | h n ih =>
      intro hc p
      have hbelow : ∀ s r c, n.get? (s :: r) = some c → ∀ q,
          valueOf env q c.withPlainNames = valueOf env q c := fun s r c hget =>
        ih s r c hget (Node.conforms_of_get? hc hget)
      have hitem : ∀ (slot : Nat) items, n.slots[slot]? = some (.many items) → ∀ c, some c ∈ items → ∀ q,
          valueOf env q c.withPlainNames = valueOf env q c := by
        intro slot items hslot c hc
        obtain ⟨j, hj⟩ := Node.exists_get?_of_mem hslot hc
        exact hbelow _ [] c hj
      cases hplain : plainMember? n with
      | some name =>
          obtain ⟨hname, object, raw, slots, rfl⟩ := plainMember?_eq_some_of_conforms hc hplain
          rw [withPlainNames_plain hname]
          exact valueOf_plainMember hname (hbelow first [] object rfl _)
      | none =>
          obtain ⟨k, slots⟩ := n
          rw [withPlainNames_of_none hplain]
          by_cases hcall : k = .call
          · subst hcall
            exact valueOf_call_withPlainNames hbelow hitem
          generalize hm : Node.mk k (slots.map Slot.withPlainNames) = m
          rw [valueOf.eq_def env p m]
          split
          · obtain ⟨rfl, -⟩ := Node.mk.inj hm
            rw [valueOf]
          · obtain ⟨rfl, -⟩ := Node.mk.inj hm
            rw [valueOf]
          · obtain ⟨rfl, hslots⟩ := Node.mk.inj hm
            simp only [slots_eq_many_iff, List.map_eq_nil_iff] at hslots
            obtain ⟨quasis, _, rfl, rfl, expressions, _, rfl, rfl, rfl⟩ := hslots
            rw [head?_join_withPlainNames, cookedText_withPlainNames, ← List.map_tail, valueOf]
            simp only [templateText_withPlainNames (hitem 1 expressions rfl)]
          · obtain ⟨rfl, hslots⟩ := Node.mk.inj hm
            simp only [slots_eq_one_iff, List.map_eq_nil_iff, Option.map_eq_some_iff] at hslots
            obtain ⟨_, _, rfl, ⟨argument, rfl, rfl⟩, rfl⟩ := hslots
            rw [hbelow first [] argument rfl, valueOf]
          · obtain ⟨rfl, hslots⟩ := Node.mk.inj hm
            simp only [slots_eq_one_iff, List.map_eq_nil_iff, Option.map_eq_some_iff] at hslots
            obtain ⟨_, _, rfl, ⟨left, rfl, rfl⟩, _, _, rfl, ⟨right, rfl, rfl⟩, rfl⟩ := hslots
            rw [hbelow first [] left rfl, hbelow second [] right rfl, valueOf]
          · obtain ⟨rfl, hslots⟩ := Node.mk.inj hm
            simp only [slots_eq_one_iff, List.map_eq_nil_iff, Option.map_eq_some_iff] at hslots
            obtain ⟨_, _, rfl, ⟨left, rfl, rfl⟩, _, _, rfl, ⟨right, rfl, rfl⟩, rfl⟩ := hslots
            rw [hbelow first [] left rfl, hbelow second [] right rfl, valueOf]
          · obtain ⟨rfl, hslots⟩ := Node.mk.inj hm
            simp only [slots_eq_one_iff, List.map_eq_nil_iff, Option.map_eq_some_iff] at hslots
            obtain ⟨_, _, rfl, ⟨test, rfl, rfl⟩, _, _, rfl, ⟨yes, rfl, rfl⟩, _, _, rfl,
              ⟨no, rfl, rfl⟩, rfl⟩ := hslots
            rw [hbelow first [] test rfl, hbelow second [] yes rfl, hbelow ⟨2, none⟩ [] no rfl, valueOf]
          · obtain ⟨rfl, hslots⟩ := Node.mk.inj hm
            simp only [slots_eq_many_iff, List.map_eq_nil_iff] at hslots
            obtain ⟨expressions, _, rfl, rfl, rfl⟩ := hslots
            rw [itemValues_withPlainNames (hitem 0 expressions rfl), valueOf]
          · obtain ⟨rfl, hslots⟩ := Node.mk.inj hm
            simp only [slots_eq_many_iff, List.map_eq_nil_iff] at hslots
            obtain ⟨elements, _, rfl, rfl, rfl⟩ := hslots
            rw [itemValues_withPlainNames (hitem 0 elements rfl), valueOf]
          · obtain ⟨rfl, hslots⟩ := Node.mk.inj hm
            simp only [slots_eq_one_iff, List.map_eq_nil_iff, Option.map_eq_some_iff] at hslots
            obtain ⟨_, _, rfl, ⟨object, rfl, rfl⟩, _, _, rfl, ⟨property, rfl, rfl⟩, rfl⟩ := hslots
            rw [hbelow first [] object rfl, hbelow second [] property rfl, valueOf]
            rcases kind_withPlainNames property with h | ⟨h, h'⟩
            · rw [h]
            · rw [h, h']
          · exact absurd (Node.mk.inj hm).1 hcall
          · exact absurd (Node.mk.inj hm).1 hcall
          · exact absurd (Node.mk.inj hm).1 hcall
          · -- no expression with parts in plain names, so none without
            rename_i hliteral hname htemplate hunary hbinary hlogical hconditional hsequence harray
              hmember _ _ _
            obtain ⟨rfl, rfl⟩ := Node.mk.inj hm
            have hslots : ∀ {slots'}, slots = slots' →
                slots.map Slot.withPlainNames = slots'.map Slot.withPlainNames := fun h => congrArg _ h
            rw [valueOf]
            · exact hliteral
            · exact hname
            · exact fun quasis expressions hk he => htemplate _ _ hk (hslots he)
            · exact fun symbol leading argument hk he => hunary _ _ _ hk (hslots he)
            · exact fun symbol left right hk he => hbinary _ _ _ hk (hslots he)
            · exact fun symbol left right hk he => hlogical _ _ _ hk (hslots he)
            · exact fun test yes no hk he => hconditional _ _ _ hk (hslots he)
            · exact fun expressions hk he => hsequence _ hk (hslots he)
            · exact fun elements hk he => harray _ hk (hslots he)
            · exact fun computed object property hk he => hmember _ _ _ hk (hslots he)
            · exact fun _ _ _ hk _ => hcall hk
            · exact fun _ _ _ _ hk _ => hcall hk
            · exact hcall

end Descramble

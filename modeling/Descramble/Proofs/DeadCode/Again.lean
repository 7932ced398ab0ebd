import Descramble.Proofs.DeadCode.Removal
import Descramble.Proofs.Run.Settled
import Descramble.Proofs.Tree.Building
import Descramble.Proofs.Tree.Mention

/-!
# One sweep is enough

What a sweep leaves in place of a tree is analyzed anew by the next one: places have moved up, uses
are gone, declarations are shorter and initial values may have lost parts.  None of this makes a
declaration removable that was not, or takes from a binding a use that kept it.

* `exists_functionValue_of_doomed` — whatever a sweep removes inside a declarator lies in a function
  value, where purity does not look.
* `isRemovable_of_swept` — what is removable after a sweep was removable before it.
* `not_dead_of_swept`, `eq_of_key_eq_swept` — a declaration that stays has no dead name, and is the
  only one of its name if it is the only one that stays.
* `isLive_of_swept` — a binding that a sweep leaves is still used.
* `sweep_again` — a second sweep does nothing, unless the first one uncovers a stub; so it is for every
  tree whose statements stand in their places.
-/

set_option autoImplicit false

namespace Descramble

/-! ## Removable declarations -/

theorem isRemovable_iff {t : Node} {b : Binding} : isRemovable t b = true ↔
    (b.kind = .hoisted ∧ inList b.place = true ∧
        ∃ flags slots, t.get? b.place = some (.mk (.functionDeclaration flags) slots)) ∨
      ∃ name slots init, t.get? b.place = some (.declarator (.mk (.identifier name) slots) init) ∧
        b.kind.isVariable = true ∧ (∀ c, init = some c → isPure c = true) ∧
        canLoseDeclarator t b.place.dropLast = true := by
  unfold isRemovable
  constructor
  · intro h
    split at h
    · rename_i hk hget
      exact Or.inl ⟨hk, h, _, _, hget⟩
    · rename_i hget
      simp only [Bool.and_eq_true] at h
      obtain ⟨⟨hk, hpure⟩, hlose⟩ := h
      refine Or.inr ⟨_, _, _, hget, hk, ?_, hlose⟩
      rintro c rfl
      exact hpure
    · cases h
  · rintro (⟨hk, hin, flags, slots, hget⟩ | ⟨name, slots, init, hget, hk, hpure, hlose⟩)
    · rw [hk, hget]
      exact hin
    · rw [hget]
      cases init with
      | none => simp [hk, hlose]
      | some c => simp [hk, hlose, hpure c rfl]

section
variable {t : Node}

/-- A removable declaration is not inside a scope that declares its name. -/
theorem not_prefix_scope_of_removable {b : Binding} (hb : b ∈ (analyze t).bindings)
    (hrem : isRemovable t b = true) : ¬ b.place <+: b.scope.place := by
  intro hbelow
  obtain ⟨e, he, hkey, hplace, -⟩ := exists_declares_of_mem_bindings hb
  obtain ⟨above, last, parent, node, s, home, he⟩ := mem_declarations_iff.mp he
  have hscope := he.scope_isPrefix
  rw [← he.place_eq, hplace, show e.scope.place = b.scope.place from congrArg Prod.fst hkey] at hscope
  refine scope_place_ne_of_removable hb hrem (hscope.eq_of_length_le hbelow.length_le)

/-- **A removable binding that nothing uses is declared once.**  A second declaration is a use, and
inside the first one it would belong to another scope. -/
theorem eq_first_of_not_live (hplaced : declarationsPlaced t = true) {i : Nat} {d f : Declaration}
    (hd : (firstDeclarations [] (declarations t))[i]? = some d)
    (hrem : isRemovable t (bindingOf (declarations t) (analyze t).occurrences d i) = true)
    (hlive : isLive [] (bindingOf (declarations t) (analyze t).occurrences d i) = false)
    (hf : f ∈ declarations t) (hkey : f.key = d.key) : f = d := by
  refine (eq_first_or_mem_violations (List.mem_of_getElem? hd) hf hkey i).resolve_right fun huse => ?_
  rcases isLive_eq_false_iff.mp hlive _ (List.mem_append_right _ huse) with hinside | ⟨p, hp, -⟩
  · obtain ⟨hbelow, hne⟩ := Position.isInside_iff.mp hinside
    obtain ⟨above, last, parent, node, s, home, hdec⟩ := mem_declarations_iff.mp hf
    have hname : f.place <+: f.name.place := by
      rw [hdec.place_eq]
      exact (List.prefix_append ..).trans hdec.path.isPrefix
    refine hne (place_eq_of_removable hplaced hrem hf (hbelow.trans hname) ?_).symm
    rw [show f.scope.place = d.scope.place from congrArg Prod.fst hkey]
    exact not_prefix_scope_of_removable (mem_bindings_iff.mpr ⟨i, d, hd, rfl⟩) hrem
  · cases hp

end

/-! ## What a sweep removes inside a declarator -/

section
variable {t : Node}

theorem functionDeclaration_of_isFunction {n : Node} (hfun : n.kind.isFunction = true)
    (hvalue : isFunctionValue n = false) : ∃ flags, n.kind = .functionDeclaration flags := by
  obtain ⟨k, slots⟩ := n
  cases k <;> simp_all [isFunctionValue, Kind.isFunction]

/-- Below a node that holds no statements, a function value opens before the next statement. -/
theorem exists_functionValue_between (hplaced : declarationsPlaced t = true) {m : Node} {q : Position}
    (hq : t.get? q = some m) (hclosed : m.kind.isClosed) {p : Position} {n : Node}
    (hp : t.get? p = some n) (hqp : q <+: p) (hne : q ≠ p) (hplace : statementPlace true t p = true) :
    ∃ f g, q <+: f ∧ f <+: p ∧ f ≠ p ∧ t.get? f = some g ∧ isFunctionValue g = true := by
  induction hlength : p.length using Nat.strongRecOn generalizing p n with
  | ind length ih =>
      obtain ⟨f, g, hqf, hfp, hfne, hg, hfun⟩ :=
        exists_function_between hq hclosed hp hqp hne hplace
      cases hvalue : isFunctionValue g with
      | true => exact ⟨f, g, hqf, hfp, hfne, hg, hvalue⟩
      | false =>
          -- a function that is no value is a declaration, and stands where statements stand
          obtain ⟨flags, hk⟩ := functionDeclaration_of_isFunction hfun hvalue
          have hlt : f.length < length := by
            rw [← hlength]
            exact Nat.lt_of_le_of_ne hfp.length_le fun h => hfne (hfp.eq_of_length h)
          have hqne : q ≠ f := by
            rintro rfl
            rw [hq] at hg
            cases hg
            rw [hk] at hclosed
            cases hclosed true 2
          obtain ⟨f', g', hqf', hf'f, -, hg', hfun'⟩ := ih f.length hlt hg hqf hqne
            (declarationsPlaced_iff.mp hplaced f g hg (by rw [hk]; rfl)) rfl
          refine ⟨f', g', hqf', hf'f.trans hfp, ?_, hg', hfun'⟩
          rintro rfl
          exact hfne (hfp.eq_of_length_le hf'f.length_le)

/-- A sweep removes statements, heads of loops and declarators of such. -/
theorem statementPlace_of_doomed (hplaced : declarationsPlaced t = true)
    (hstubs : ∀ p ∈ stubPlaces t, statementPlace true t p = true) {p : Position}
    (hp : sweeps t p = true) : statementPlace true t p = true ∨
      ∃ above last v slots, p = above ++ [last] ∧
        t.get? above = some (.mk (.variableDeclaration v) slots) ∧
        statementPlace true t above = true := by
  rw [declarationsPlaced_iff] at hplaced
  rcases mem_doomedPlaces.mp (sweeps_iff.mp hp) with ⟨b, hb, rfl⟩ | ⟨n, hn, hall⟩ | hstub
  · obtain ⟨hbind, hrem, -⟩ := mem_deadCandidates.mp ((roundInv_deadBindings t).candidate b hb)
    rcases isRemovable_cases hrem with ⟨-, -, flags, slots, hget⟩ | ⟨-, name, slots, init, hget⟩
    · exact Or.inl (hplaced _ _ hget rfl)
    · obtain ⟨above, last, v, slots, hplace, hparent⟩ := parent_of_removable_declarator hbind hget
      exact Or.inr ⟨above, last, v, slots, hplace, hparent, hplaced _ _ hparent rfl⟩
  · obtain ⟨⟨v, hk⟩, -⟩ := losesAll_cases hall
    exact Or.inl (hplaced _ _ hn (by rw [hk]; rfl))
  · exact Or.inl (hstubs p hstub)

/-- **What a sweep removes inside a declarator lies in a function value.** -/
theorem exists_functionValue_of_doomed (hplaced : declarationsPlaced t = true)
    (hstubs : ∀ p ∈ stubPlaces t, statementPlace true t p = true) {p q : Position} {m n : Node}
    (hq : t.get? q = some m) (hk : m.kind = .variableDeclarator) (hp : t.get? p = some n)
    (hqp : q <+: p) (hne : q ≠ p) (hdoomed : sweeps t p = true) :
    ∃ f g, q <+: f ∧ f <+: p ∧ f ≠ p ∧ t.get? f = some g ∧ isFunctionValue g = true := by
  have hclosed : m.kind.isClosed := by
    rw [hk]
    exact isClosed_declarator
  rcases statementPlace_of_doomed hplaced hstubs hdoomed with
    hplace | ⟨above, last, v, slots, rfl, habove, hplace⟩
  · exact exists_functionValue_between hplaced hq hclosed hp hqp hne hplace
  · have hqabove : q ≠ above := by
      rintro rfl
      rw [hq] at habove
      cases habove
      cases hk
    obtain ⟨f, g, hqf, hfp, -, hg, hfun⟩ := exists_functionValue_between hplaced hq hclosed habove
      (Position.prefix_of_prefix_append hqp hne) hqabove hplace
    refine ⟨f, g, hqf, hfp.trans (List.prefix_append ..), ?_, hg, hfun⟩
    rintro rfl
    exact Position.not_append_prefix (List.cons_ne_nil last []) hfp

end

/-! ## What is removable after a sweep -/

section
variable {t : Node}

theorem embeds_swept (t : Node) :
    Embeds (sweptTree t) t (fun _ => True) (Node.origin (sweeps t) t) := embeds_prune (sweeps t) t

/-- What stands at a place of the swept tree is what is left of the node that it comes from. -/
theorem get?_sweptTree {p : Position} {m : Node} (hm : (sweptTree t).get? p = some m) :
    Node.Survives (sweeps t) (Node.origin (sweeps t) t p) ∧
      ∃ n, t.get? (Node.origin (sweeps t) t p) = some n ∧
        m = Node.pruneAt (sweeps t) (Node.origin (sweeps t) t p) n := by
  obtain ⟨hsurvives, n, hn, hget⟩ := Node.get?_prune (sweeps t) hm
  rw [sweptTree_eq, hget] at hm
  exact ⟨hsurvives, n, hn, (Option.some.inj hm).symm⟩

/-- A declaration does not gain declarators. -/
theorem declaratorCount_pruneAt_le (doomed : Position → Bool) (place : Position) (n : Node) :
    declaratorCount (Node.pruneAt doomed place n) ≤ declaratorCount n := by
  obtain ⟨k, slots⟩ := n
  rw [Node.pruneAt]
  generalize hleft : Node.pruneSlots doomed place 0 slots = left
  unfold declaratorCount
  split
  · rename_i v declarators heq
    cases heq
    obtain ⟨s, rest, rfl, hs, hrest⟩ := Node.pruneSlots_eq_cons doomed hleft
    rw [Node.pruneSlots_eq_nil doomed hrest.symm]
    cases s with
    | one child => cases hs
    | many children =>
        cases hs
        exact Node.length_pruneChildren_le doomed
  · exact Nat.zero_le _

/-- What is left of a declarator of an identifier. -/
theorem declarator_of_pruneAt {doomed : Position → Bool} {place : Position} {n target' : Node}
    {init' : Option Node} (h : Node.pruneAt doomed place n = .declarator target' init') :
    ∃ target init, n = .declarator target init ∧ target.kind = target'.kind ∧
      init' = init.bind fun c => if doomed (place ++ [second]) then none
        else some (Node.pruneAt doomed (place ++ [second]) c) := by
  obtain ⟨k, slots⟩ := n
  rw [Node.pruneAt, Node.mk.injEq] at h
  obtain ⟨rfl, h⟩ := h
  obtain ⟨s, rest, rfl, hs, hrest⟩ := Node.pruneSlots_eq_cons doomed h
  obtain ⟨s', rest', rfl, hs', hrest'⟩ := Node.pruneSlots_eq_cons doomed hrest.symm
  rw [Node.pruneSlots_eq_nil doomed hrest'.symm]
  cases s with
  | many children => cases hs
  | one child =>
      cases s' with
      | many children => cases hs'
      | one init =>
          obtain ⟨target, rfl, htarget⟩ := Option.bind_eq_some_iff.mp (Slot.one.inj hs).symm
          refine ⟨target, init, rfl, ?_, Slot.one.inj hs'⟩
          split at htarget
          · cases htarget
          · cases htarget
            rw [Node.kind_pruneAt]

theorem inList_origin {p : Position} {n : Node} (hp : (sweptTree t).get? p = some n) :
    inList (Node.origin (sweeps t) t p) = inList p := by
  rcases List.eq_nil_or_concat p with rfl | ⟨q, s, rfl⟩
  · rfl
  · rw [List.concat_eq_append] at *
    obtain ⟨r, hr, hsim⟩ := (embeds_swept t).step q s n hp trivial
    rw [hr, inList_concat, inList_concat, hsim.2]

theorem isLoopHead_concat {s : Step} {p : Position} : isLoopHead t (p ++ [s]) = true ↔
    s.slot = 0 ∧ ∃ n, t.get? p = some n ∧ n.kind = .forStatement := by
  unfold isLoopHead
  rw [Position.parent?_concat, List.getLast?_concat, Option.bind_some]
  constructor
  · intro h
    split at h
    · rename_i hget hs
      cases hs
      exact ⟨by simpa using h, _, hget, rfl⟩
    · cases h
  · rintro ⟨hs, ⟨k, slots⟩, hget, hk⟩
    cases hk
    simp [hget, hs]

theorem isLoopHead_origin {p : Position} {n : Node} (hp : (sweptTree t).get? p = some n)
    (h : isLoopHead (sweptTree t) p = true) :
    isLoopHead t (Node.origin (sweeps t) t p) = true := by
  rcases List.eq_nil_or_concat p with rfl | ⟨q, s, rfl⟩
  · cases h
  · rw [List.concat_eq_append] at *
    obtain ⟨r, hr, hsim⟩ := (embeds_swept t).step q s n hp trivial
    obtain ⟨hs, m, hm, hk⟩ := isLoopHead_concat.mp h
    obtain ⟨-, m₀, hm₀, rfl⟩ := get?_sweptTree hm
    rw [Node.kind_pruneAt] at hk
    rw [hr]
    exact isLoopHead_concat.mpr ⟨hsim.1.trans hs, m₀, hm₀, hk⟩

theorem canLoseDeclarator_iff {p : Position} : canLoseDeclarator t p = true ↔
    ∃ n, t.get? p = some n ∧
      (1 < declaratorCount n ∨ inList p = true ∨ isLoopHead t p = true) := by
  unfold canLoseDeclarator
  cases t.get? p <;> simp [or_assoc]

theorem canLoseDeclarator_origin {p : Position} (h : canLoseDeclarator (sweptTree t) p = true) :
    canLoseDeclarator t (Node.origin (sweeps t) t p) = true := by
  obtain ⟨m, hm, h⟩ := canLoseDeclarator_iff.mp h
  obtain ⟨-, n, hn, rfl⟩ := get?_sweptTree hm
  refine canLoseDeclarator_iff.mpr ⟨n, hn, ?_⟩
  rcases h with h | h | h
  · exact Or.inl (Nat.lt_of_lt_of_le h (declaratorCount_pruneAt_le ..))
  · exact Or.inr (Or.inl ((inList_origin hm).trans h))
  · exact Or.inr (Or.inr (isLoopHead_origin hm h))

/-- What a sweep removes from an initial value lies in a function value. -/
theorem exists_functionValue_of_doomed_initial (hplaced : declarationsPlaced t = true)
    (hstubs : ∀ p ∈ stubPlaces t, statementPlace true t p = true) {p q : Position}
    {target c m : Node} (hp : t.get? p = some (.declarator target (some c)))
    (hm : c.get? q = some m) (hdoomed : sweeps t (p ++ [second] ++ q) = true) :
    ∃ r k, r <+: q ∧ r ≠ q ∧ c.get? r = some k ∧ isFunctionValue k = true := by
  have hc : t.get? (p ++ [second]) = some c := by
    rw [Node.get?_concat, hp]
    rfl
  have hget : t.get? (p ++ [second] ++ q) = some m := by
    rw [Node.get?_append, hc]
    exact hm
  obtain ⟨f, g, hpf, hf, hne, hg, hfun⟩ := exists_functionValue_of_doomed hplaced hstubs hp rfl hget
    (by rw [List.append_assoc]; exact List.prefix_append ..) (by simp) hdoomed
  -- the declarator is no function value, so the function lies in the initial value
  have hpne : p ≠ f := by
    rintro rfl
    rw [hp] at hg
    cases hg
    cases hfun
  have hlt : p.length < f.length :=
    Nat.lt_of_le_of_ne hpf.length_le fun h => hpne (hpf.eq_of_length h)
  obtain ⟨r, rfl⟩ := List.prefix_of_prefix_length_le (List.prefix_append (p ++ [second]) q) hf
    (by rw [List.length_append]; exact hlt)
  refine ⟨r, g, (List.prefix_append_right_inj _).mp hf, fun h => hne (by rw [h]), ?_, hfun⟩
  rw [Node.get?_append, hc] at hg
  exact hg

/-- **What is removable after a sweep was removable before it.** -/
theorem isRemovable_of_swept (hplaced : declarationsPlaced t = true)
    (hstubs : ∀ p ∈ stubPlaces t, statementPlace true t p = true) {b b' : Binding}
    (hb' : b' ∈ (analyze (sweptTree t)).bindings)
    (hplace : b.place = Node.origin (sweeps t) t b'.place) (hkind : b.kind = b'.kind)
    (hrem : isRemovable (sweptTree t) b' = true) : isRemovable t b = true := by
  rw [isRemovable_iff] at hrem ⊢
  rw [hplace, hkind]
  rcases hrem with ⟨hk, hin, flags, slots, hget⟩ | ⟨name, slots, init, hget, hk, hpure, hlose⟩
  · obtain ⟨-, ⟨k, slots₀⟩, hn, hleft⟩ := get?_sweptTree hget
    rw [Node.pruneAt] at hleft
    cases hleft
    exact Or.inl ⟨hk, (inList_origin hget).trans hin, flags, slots₀, hn⟩
  · obtain ⟨-, n, hn, hleft⟩ := get?_sweptTree hget
    obtain ⟨⟨k, slots₀⟩, init₀, rfl, htarget, hinit⟩ := declarator_of_pruneAt hleft.symm
    cases htarget
    refine Or.inr ⟨name, slots₀, init₀, hn, hk, ?_, ?_⟩
    · rintro c rfl
      have hfun := fun q m => @exists_functionValue_of_doomed_initial t hplaced hstubs _ q _ c m hn
      have hstays : ¬ sweeps t (Node.origin (sweeps t) t b'.place ++ [second]) = true := by
        intro hdoomed
        obtain ⟨r, -, hr, hne, -⟩ := hfun [] c rfl (by rwa [List.append_nil])
        exact hne (List.prefix_nil.mp hr)
      rw [Option.bind_some, if_neg hstays] at hinit
      have hleft := hpure _ hinit
      unfold isPure at hleft ⊢
      rw [Bool.not_eq_true', Bool.eq_false_iff] at hleft ⊢
      refine fun hfound => hleft (Node.mentions_pruneAt ?_ c (fun q m _ => hfun q m) hfound)
      rintro ⟨k, _⟩ ⟨k', _⟩ hkind
      simp only [Node.kind_mk] at hkind
      simp [isFunctionValue, isImpure, hkind]
    · obtain ⟨above, last, v, vslots, habove, -⟩ := parent_of_removable_declarator hb' hget
      rw [habove] at hget hlose ⊢
      obtain ⟨r, hr, -⟩ := (embeds_swept t).step above last _ hget trivial
      rw [hr, List.dropLast_concat]
      rw [List.dropLast_concat] at hlose
      exact canLoseDeclarator_origin hlose

end

/-! ## What is used after a sweep -/

section
variable {t : Node} {d : Declaration}

/-- What stays declared has no dead name. -/
theorem not_dead_of_swept (hd : d ∈ declarations (sweptTree t)) {b : Binding}
    (hb : b ∈ deadBindings t) : b.key ≠ (d.relabel (Node.origin (sweeps t) t)).key := by
  intro hkey
  obtain ⟨above, last, parent, node, s, home, hdec⟩ := mem_declarations_iff.mp hd
  have hnode := hdec.get_node
  rw [← hdec.place_eq] at hnode
  obtain ⟨hsurvives, -⟩ := get?_sweptTree hnode
  obtain ⟨hbind, -, -⟩ := mem_deadCandidates.mp ((roundInv_deadBindings t).candidate b hb)
  obtain ⟨i, e, he, rfl⟩ := mem_bindings_iff.mp hbind
  have hmap := (embeds_swept t).mem_declarations_map hd
  rcases eq_first_or_mem_violations (List.mem_of_getElem? he) hmap hkey.symm i with hfirst | huse
  · have hplace : (bindingOf (declarations t) (analyze t).occurrences e i).place =
        Node.origin (sweeps t) t d.place := (congrArg Declaration.place hfirst).symm
    have hdoomed := sweeps_iff.mpr (mem_doomedPlaces.mpr (Or.inl ⟨_, hb, hplace⟩))
    rw [hsurvives _ (List.prefix_refl _) (hplace ▸ place_ne_nil_of_mem_bindings hbind)] at hdoomed
    cases hdoomed
  · exact not_survives_of_dead hb (List.mem_append_right _ huse) hsurvives

/-- **A declaration that is the only one of its name after a sweep was so before it.** -/
theorem eq_of_key_eq_swept (hplaced : declarationsPlaced t = true)
    (hd : d ∈ declarations (sweptTree t))
    (honly : ∀ f ∈ declarations (sweptTree t), f.key = d.key → f = d) {f : Declaration}
    (hf : f ∈ declarations t) (hkey : f.key = (d.relabel (Node.origin (sweeps t) t)).key) :
    f = d.relabel (Node.origin (sweeps t) t) := by
  have hE := embeds_swept t
  -- the scopes of declarations are nodes of the tree
  have hscope : ∀ {e : Declaration}, e ∈ declarations (sweptTree t) →
      ∃ n, (sweptTree t).get? e.scope.place = some n := by
    intro e he
    obtain ⟨above, last, parent, node, s, home, hdec⟩ := mem_declarations_iff.mp he
    exact Node.exists_get?_of_prefix hdec.get_node hdec.scope_isPrefix
  obtain ⟨hfscope, hfname⟩ := Prod.mk.inj hkey
  obtain ⟨n, hn⟩ := hscope hd
  have hsurvives : Node.Survives (sweeps t) f.scope.place := by
    rw [hfscope]
    exact (get?_sweptTree hn).1
  have hstays := survives_of_not_dead hplaced hf hsurvives fun b hb =>
    hkey ▸ not_dead_of_swept hd hb
  obtain ⟨above, last, parent, node, s, home, hdec⟩ := mem_declarations_iff.mp hf
  obtain ⟨slots, hname⟩ := hdec.get_name
  obtain ⟨q, hq, hqget⟩ := Node.exists_get?_prune (sweeps t) hname hstays
  obtain ⟨f', hf', rfl, -⟩ := hE.exists_declares hf hqget trivial hq
  obtain ⟨m, hm⟩ := hscope hf'
  rw [honly f' hf' (Prod.ext (hE.inj _ _ _ _ hm hn trivial trivial hfscope) hfname)]

/-- An identifier that goes lies in a dead declaration or in a stub. -/
theorem inside_discarded_of_not_survives {p : Position} {name : String} {slots : List Slot}
    (hp : t.get? p = some (.mk (.identifier name) slots)) (h : ¬ Node.Survives (sweeps t) p) :
    ∃ place ∈ discardedBy (stubPlaces t) (deadBindings t), p.isInside place = true := by
  have hdead : ∀ b ∈ deadBindings t, b.place <+: p →
      ∃ place ∈ discardedBy (stubPlaces t) (deadBindings t), p.isInside place = true := by
    intro b hb hbelow
    refine ⟨b.place, List.mem_append_right _ (List.mem_map_of_mem hb),
      Position.isInside_iff.mpr ⟨hbelow, ?_⟩⟩
    rintro rfl
    obtain ⟨-, hrem, -⟩ := mem_deadCandidates.mp ((roundInv_deadBindings t).candidate b hb)
    rcases isRemovable_cases hrem with ⟨-, -, flags, _, hget⟩ | ⟨-, _, _, _, hget⟩ <;>
      · rw [hp] at hget
        cases hget
  unfold Node.Survives at h
  simp only [Classical.not_forall, Bool.not_eq_false] at h
  obtain ⟨q, hq, -, hdoomed⟩ := h
  rcases mem_doomedPlaces.mp (sweeps_iff.mp hdoomed) with ⟨b, hb, rfl⟩ | ⟨n, hn, hall⟩ | hstub
  · exact hdead b hb hq
  · -- the identifier lies in one of the declarators, and all of them are dead
    obtain ⟨⟨v, hk⟩, hchildren⟩ := losesAll_cases hall
    obtain ⟨_ | ⟨s, r⟩, rfl⟩ := hq
    · rw [List.append_nil, hn] at hp
      cases hp
      cases hk
    · rw [Node.get?_append, hn, Option.bind_some, Node.get?_cons] at hp
      obtain ⟨c, hc, -⟩ := Option.bind_eq_some_iff.mp hp
      obtain ⟨b, hb, hplace⟩ := List.mem_map.mp (hchildren s c hc)
      refine hdead b hb ?_
      rw [hplace]
      exact (List.prefix_append_right_inj q).mpr (List.prefix_append [s] r)
  · refine ⟨q, List.mem_append_left _ hstub, Position.isInside_iff.mpr ⟨hq, ?_⟩⟩
    rintro rfl
    obtain ⟨n, hn, -, hguard⟩ := mem_stubPlaces.mp hstub
    obtain ⟨directive, hk⟩ := kind_of_isGuardStub hguard
    rw [hp] at hn
    cases hn
    cases hk

/-- **What uses the origin of a binding that nothing uses** lies in the declaration, or goes. -/
theorem isLive_origin_eq_false {i j : Nat}
    (hd : (firstDeclarations [] (declarations (sweptTree t)))[j]? = some d)
    (hi : (firstDeclarations [] (declarations t))[i]? =
      some (d.relabel (Node.origin (sweeps t) t)))
    (honly : ∀ f ∈ declarations t, f.key = (d.relabel (Node.origin (sweeps t) t)).key →
      f = d.relabel (Node.origin (sweeps t) t))
    (hlive : isLive [] (bindingOf (declarations (sweptTree t)) (analyze (sweptTree t)).occurrences d j)
      = false) :
    isLive (discardedBy (stubPlaces t) (deadBindings t)) (bindingOf (declarations t)
      (analyze t).occurrences (d.relabel (Node.origin (sweeps t) t)) i) = false := by
  have hE := embeds_swept t
  rw [isLive_eq_false_iff] at hlive ⊢
  intro use huse
  rcases mem_uses_iff.mp huse with ⟨f, hf, rfl⟩ | ⟨name, hocc, hbinding⟩
  · rw [further_eq_nil (nodup_declarations t) (List.mem_of_getElem? hi) honly] at hf
    cases hf
  · obtain ⟨slots, hget⟩ := hocc.get
    by_cases hsurvives : Node.Survives (sweeps t) use
    · obtain ⟨p, rfl, hp⟩ := Node.exists_get?_prune (sweeps t) hget hsurvives
      have hbinding' := hE.resolve?_of_map hp trivial hbinding hi hd rfl
      have hocc' := hE.occurs_of_map hp trivial hocc
      rcases hlive p (mem_uses_iff.mpr (Or.inr ⟨name, hocc', hbinding'⟩)) with hin | ⟨q, hq, -⟩
      · obtain ⟨hbelow, hne⟩ := Position.isInside_iff.mp hin
        obtain ⟨n, hn⟩ := Node.exists_get?_of_prefix hp hbelow
        exact Or.inl (Position.isInside_iff.mpr ⟨hE.map_prefix hp trivial hbelow,
          fun he => hne (hE.inj _ _ _ _ hn hp trivial trivial he)⟩)
      · cases hq
    · exact Or.inr (inside_discarded_of_not_survives hget hsurvives)

/-- **A removable binding that a sweep leaves is used.**  Otherwise the sweep would have taken it. -/
theorem isLive_of_swept (hplaced : declarationsPlaced t = true)
    (hstubs : ∀ p ∈ stubPlaces t, statementPlace true t p = true) {b : Binding}
    (hb : b ∈ (analyze (sweptTree t)).bindings) (hrem : isRemovable (sweptTree t) b = true) :
    isLive [] b = true := by
  refine Classical.byContradiction fun hlive => ?_
  rw [Bool.not_eq_true] at hlive
  have hE := embeds_swept t
  obtain ⟨j, d, hd, rfl⟩ := mem_bindings_iff.mp hb
  have hmem := (mem_of_mem_firstDeclarations (List.mem_of_getElem? hd)).1
  -- the origin of the declaration is the only declaration of its name
  have honly : ∀ f ∈ declarations t, f.key = (d.relabel (Node.origin (sweeps t) t)).key →
      f = d.relabel (Node.origin (sweeps t) t) := fun f hf hkey =>
    eq_of_key_eq_swept hplaced hmem (fun f' hf' hkey' => eq_first_of_not_live
      (hE.placed hplaced fun _ _ _ _ => trivial) hd hrem hlive hf' hkey') hf hkey
  obtain ⟨e, he, hekey⟩ := exists_first_of_mem (hE.mem_declarations_map hmem)
  obtain ⟨i, hi⟩ := List.mem_iff_getElem?.mp he
  obtain rfl := honly e (mem_of_mem_firstDeclarations he).1 hekey
  have hbind := mem_bindings_iff.mpr ⟨i, _, hi, rfl⟩
  -- it stays, so it lies in no stub
  have hstub : ∀ p ∈ stubPlaces t,
      (d.relabel (Node.origin (sweeps t) t)).place.isInside p = false := by
    intro p hp
    refine Bool.eq_false_iff.mpr fun hin => ?_
    obtain ⟨n, hn⟩ := exists_get?_of_mem_bindings hb
    have hstays := (get?_sweptTree hn).1 p (Position.isInside_iff.mp hin).1
    obtain ⟨m, -, hlist, -⟩ := mem_stubPlaces.mp hp
    rw [sweeps_iff.mpr (mem_doomedPlaces.mpr (Or.inr (Or.inr hp)))] at hstays
    refine absurd (hstays ?_) (by simp)
    rintro rfl
    cases hlist
  have hcandidate := mem_deadCandidates.mpr
    ⟨hbind, isRemovable_of_swept hplaced hstubs hb rfl rfl hrem, hstub⟩
  exact not_dead_of_swept hmem
    (mem_deadBindings_of_not_live hcandidate (isLive_origin_eq_false hd hi honly hlive)) rfl

end

/-! ## The second sweep -/

/-- A stub is a statement, so it stands where statements may stand. -/
theorem statementPlace_of_stub {t : Node} (hform : statementsFit t = true) {p : Position}
    (hp : p ∈ stubPlaces t) : statementPlace true t p = true := by
  obtain ⟨n, hn, -, hstub⟩ := mem_stubPlaces.mp hp
  obtain ⟨directive, hk⟩ := kind_of_isGuardStub hstub
  exact statementPlace_of_isStatement hform hn (by rw [hk]; rfl)

/-- **A second sweep does nothing**, where declarations and the other statements stand in their places
and the first sweep uncovers no stub. -/
theorem sweep_again {ε : Type} {t : Node} (hform : statementsFit t = true)
    (hplaced : declarationsPlaced t = true) :
    ∃ t' changed, (sweep t : Logged ε (Node × Bool)).outcome = .ok (t', changed) ∧
      (stubPlaces t' = [] → (sweep t' : Logged ε (Node × Bool)).outcome = .ok (t', false)) := by
  refine ⟨sweptTree t, _, rfl, fun hnone => ?_⟩
  have hdead : deadBindings (sweptTree t) = [] := by
    rw [deadBindings_eq_nil_iff, hnone]
    intro b hb
    obtain ⟨hbind, hrem, -⟩ := mem_deadCandidates.mp hb
    exact isLive_of_swept hplaced (fun _ => statementPlace_of_stub hform) hbind hrem
  have hsweep : (sweep (sweptTree t) : Logged ε (Node × Bool)).outcome =
      .ok (sweptTree (sweptTree t),
        !((deadBindings (sweptTree t)).isEmpty && (stubPlaces (sweptTree t)).isEmpty)) := rfl
  rw [hsweep, sweptTree_eq_self hdead hnone, hdead, hnone]
  rfl

/-- `(function () { while (true) {} })();` -/
def loopStub : Node := Node.statementOf (.callOf (Node.functionOf [] [endlessLoop]) [])

/-- `var x = function () { (function () { while (true) {} })(); }, y = 1; use(x);` -/
def stubInInitial : Node :=
  Node.programOf "script" [
    .mk (.variableDeclaration .var) [.many [
      some (.declarator (.ident "x") (some (Node.functionOf [] [loopStub]))),
      some (.declarator (.ident "y") (some (.lit (.number (.int 1)) "1")))]],
    Node.statementOf (.callOf (.ident "use") [some (.ident "x")])]

/-- The first sweep takes the stub and `y`, and the second one finds nothing. -/
theorem sweep_again_stubInInitial :
    statementsFit stubInInitial = true ∧ declarationsPlaced stubInInitial = true ∧
      ∃ t', (sweep stubInInitial : Logged Fault (Node × Bool)).outcome = .ok (t', true) ∧
        stubPlaces t' = [] ∧ (sweep t' : Logged Fault (Node × Bool)).outcome = .ok (t', false) := by
  have hform : statementsFit stubInInitial = true := by decide
  have hplaced : declarationsPlaced stubInInitial = true := by decide
  obtain ⟨t', changed, hsweep, hagain⟩ := sweep_again (ε := Fault) hform hplaced
  cases hsweep
  exact ⟨hform, hplaced, _, rfl, by decide, hagain (by decide)⟩

end Descramble

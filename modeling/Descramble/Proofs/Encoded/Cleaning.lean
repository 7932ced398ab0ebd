import Descramble.Proofs.DeadCode.Sweep
import Descramble.Proofs.Encoded.Chain

/-!
# Sweeping a script with a string table

The statements in front form a chain in which each one is used by the next, and the calls that are
left use some of them.  So a sweep takes the statements behind the last one that a call uses, and no
others.

* `EncodedScript.headPlace` — the place of the declaration of a statement in front.
* `EncodedScript.goes_head`, `EncodedScript.not_goes_head` — which declarations in front are dead.
* `EncodedScript.not_sweeps`, `EncodedScript.sweeps_statement` — what goes.
* `EncodedScript.sweptTree_tree` — the script without the statements that no argument needs.
-/

set_option autoImplicit false

namespace Descramble

namespace Node

variable {doomed : Position → Bool} {place : Position} {slot : Nat}

theorem pruneChildren_append : ∀ (xs ys : List (Option Node)) (index : Nat),
    pruneChildren doomed place slot index (xs ++ ys) =
      pruneChildren doomed place slot index xs ++
        pruneChildren doomed place slot (index + xs.length) ys
  | [], ys, index => by simp [pruneChildren]
  | none :: xs, ys, index => by
      simp [pruneChildren, pruneChildren_append xs ys (index + 1), Nat.add_right_comm, Nat.add_assoc]
  | some x :: xs, ys, index => by
      have hxs := pruneChildren_append xs ys (index + 1)
      have hindex : index + (some x :: xs).length = index + 1 + xs.length := by
        rw [List.length_cons]
        omega
      rw [hindex, List.cons_append, pruneChildren, hxs, pruneChildren]
      split <;> rfl

/-- Children that stay as they are. -/
theorem pruneChildren_map_of_stay : ∀ (xs : List Node) (index : Nat),
    (∀ i < xs.length, ∀ q, doomed (place ++ ⟨slot, some (index + i)⟩ :: q) = false) →
      pruneChildren doomed place slot index (xs.map some) = xs.map some
  | [], _, _ => rfl
  | x :: xs, index, h => by
      have hstay : ∀ q, doomed (place ++ [⟨slot, some index⟩] ++ q) = false := by
        intro q
        rw [List.append_assoc]
        exact h 0 (Nat.zero_lt_succ _) q
      have hx : pruneAt doomed (place ++ [⟨slot, some index⟩]) x = x := by
        refine pruneAt_eq_self x fun q hq _ => ?_
        obtain ⟨r, rfl⟩ := hq
        exact hstay r
      have hxs := pruneChildren_map_of_stay xs (index + 1) fun i hi q => by
        have := h (i + 1) (Nat.succ_lt_succ hi) q
        rwa [show index + (i + 1) = index + 1 + i by omega] at this
      have hhere := hstay []
      rw [List.append_nil] at hhere
      rw [List.map_cons, pruneChildren, hxs]
      simp only [hhere, Bool.false_eq_true, if_false, hx]

/-- Children that go. -/
theorem pruneChildren_map_of_gone : ∀ (xs : List Node) (index : Nat),
    (∀ i < xs.length, doomed (place ++ [⟨slot, some (index + i)⟩]) = true) →
      pruneChildren doomed place slot index (xs.map some) = []
  | [], _, _ => rfl
  | x :: xs, index, h => by
      have hhere := h 0 (Nat.zero_lt_succ _)
      have hxs := pruneChildren_map_of_gone xs (index + 1) fun i hi => by
        have := h (i + 1) (Nat.succ_lt_succ hi)
        rwa [show index + (i + 1) = index + 1 + i by omega] at this
      rw [Nat.add_zero] at hhere
      rw [List.map_cons, pruneChildren, hxs]
      simp only [hhere, if_true]

end Node

open EncodedScript in
/-- The variable that a decoder puts the looked-up text into. -/
def DecoderForm.result : DecoderForm → Declaration
  | direct _ _ entry => varAt [item 1] [item 1, third, item 1, item 0] entry
  | selfRedefining _ _ _ _ _ entry =>
    varAt redefinition (redefinition ++ [third, item 1, item 0]) entry

open EncodedScript in
/-- Where a decoder returns the looked-up text. -/
def DecoderForm.resultUse : DecoderForm → Position
  | direct _ _ _ => [item 1, third, item 2, first]
  | selfRedefining _ _ _ _ _ _ => redefinition ++ [third, item 2, first]

namespace EncodedScript

variable {s : EncodedScript} {args : List s.Argument}

/-! ## What the arguments need -/

theorem le_foldr_max {ns : List Nat} {n : Nat} (h : n ∈ ns) : n ≤ ns.foldr max 0 := by
  induction ns with
  | nil => cases h
  | cons m ns ih =>
      rw [List.foldr_cons]
      rcases List.mem_cons.mp h with rfl | h
      · exact Nat.le_max_left _ _
      · exact Nat.le_trans (ih h) (Nat.le_max_right _ _)

theorem foldr_max_mem : ∀ {ns : List Nat}, 0 < ns.foldr max 0 → ns.foldr max 0 ∈ ns
  | [], h => absurd h (Nat.lt_irrefl 0)
  | n :: ns, h => by
      rw [List.foldr_cons] at h ⊢
      rcases Nat.le_total (ns.foldr max 0) n with hle | hle
      · rw [Nat.max_eq_left hle]
        exact List.mem_cons_self
      · rw [Nat.max_eq_right hle] at h ⊢
        exact List.mem_cons_of_mem _ (foldr_max_mem h)

/-- A call needs the statements up to that of its own name. -/
theorem lt_needs {k : Nat} {c : s.Call} (hc : args[k]? = some (.call c)) :
    c.callee.val + 1 < needs args :=
  le_foldr_max (List.mem_map.mpr ⟨.call c, List.mem_of_getElem? hc, rfl⟩)

/-- The last statement that is needed has the name of some call. -/
theorem exists_call_of_needs (h : 0 < needs args) :
    ∃ (k : Nat) (c : s.Call), args[k]? = some (.call c) ∧ c.callee.val + 2 = needs args := by
  obtain ⟨arg, harg, he⟩ := List.mem_map.mp (foldr_max_mem h)
  obtain ⟨k, hk⟩ := List.mem_iff_getElem?.mp harg
  cases arg with
  | text entry => exact absurd h (Nat.not_lt.mpr (Nat.le_of_eq he.symm))
  | call c => exact ⟨k, c, hk, he⟩

theorem needs_le : needs args ≤ s.aliases.length + 2 := by
  rcases Nat.eq_zero_or_pos (needs args) with h | h
  · omega
  · obtain ⟨k, c, -, he⟩ := exists_call_of_needs h
    have hlt := c.callee.isLt
    simp only [callees, List.length_cons] at hlt
    omega

/-! ## What can be removed -/

/-- The place of the declaration of a statement in front. -/
def headPlace : Nat → Position
  | 0 => [item 0]
  | 1 => [item 1]
  | j + 2 => aliasPlace j

theorem place_headAt (i : Nat) (name : String) : (headAt i name).place = headPlace i := by
  match i with
  | 0 => rfl
  | 1 => rfl
  | _ + 2 => rfl

theorem headPlace_eq (i : Nat) : ∃ q, headPlace i = item i :: q := by
  match i with
  | 0 => exact ⟨[], rfl⟩
  | 1 => exact ⟨[], rfl⟩
  | _ + 2 => exact ⟨_, rfl⟩

theorem exists_head {i : Nat} (h : i < s.aliases.length + 2) : ∃ name, s.heads[i]? = some name := by
  have hlength : s.heads.length = s.aliases.length + 2 := by simp [heads, callees]
  exact ⟨_, List.getElem?_eq_getElem (by rw [hlength]; exact h)⟩

/-- The declaration of the variable that holds the table. -/
def arrayDeclaration (s : EncodedScript) : Declaration :=
  varAt [item 0] [item 0, third, item 0, item 0] s.array

/-- Where the table is returned. -/
def arrayUse : Position := [item 0, third, item 1, first, second, third, item 0, first]

/-- Of what a decoder declares, only itself and the looked-up text can be removed: the table is
fetched by a call, and the rest are parameters. -/
theorem removable_decoder {d : Declaration} (hd : d ∈ s.form.declared s.decoder) {b : Binding}
    (hkind : b.kind = d.kind) (hplace : b.place = d.place)
    (hrem : isRemovable (tree args) b = true) : d = functionAt 1 s.decoder ∨ d = s.form.result := by
  have hget : (tree args).get? b.place = (s.decoderNode).get? (d.place.drop 1) := by
    obtain ⟨q, hq⟩ : ∃ q, d.place = item 1 :: q := by
      cases hform : s.form <;> simp only [hform, DecoderForm.declared, List.mem_cons,
        List.not_mem_nil, or_false] at hd <;>
        rcases hd with rfl | rfl | rfl | rfl | rfl | rfl | rfl <;> exact ⟨_, rfl⟩
    rw [hplace, hq, get?_tree_cons .decoder]
    rfl
  rw [isRemovable, hget, hkind, decoderNode] at hrem
  cases hform : s.form with
  | direct param table entry =>
      simp only [hform, DecoderForm.declared, List.mem_cons, List.not_mem_nil, or_false] at hd
      rw [hform] at hrem
      rcases hd with rfl | rfl | rfl | rfl
      · exact Or.inl rfl
      · cases hrem
      · cases hrem
      · exact Or.inr rfl
  | selfRedefining param spare table index other entry =>
      simp only [hform, DecoderForm.declared, List.mem_cons, List.not_mem_nil, or_false] at hd
      rw [hform] at hrem
      rcases hd with rfl | rfl | rfl | rfl | rfl | rfl | rfl
      · exact Or.inl rfl
      · cases hrem
      · cases hrem
      · cases hrem
      · cases hrem
      · cases hrem
      · exact Or.inr rfl

/-- The declarations that can be removed: the statements in front, the table and the looked-up text. -/
inductive Removable (s : EncodedScript) : Declaration → Prop
  | head {i : Nat} {name : String} (h : s.heads[i]? = some name) : Removable s (headAt i name)
  | array : Removable s s.arrayDeclaration
  | result : Removable s s.form.result

/-- The sweep finds that nothing uses the declaration. -/
def Goes (args : List s.Argument) (d : Declaration) : Prop :=
  ∃ n, (declarations (tree args))[n]? = some d ∧
    bindingOf (declarations (tree args)) (analyze (tree args)).occurrences d n ∈
      deadBindings (tree args)

/-- **What is dead** is a declaration that can be removed. -/
theorem exists_goes {b : Binding} (h : b ∈ deadBindings (tree args)) :
    ∃ d, Goes args d ∧ Removable s d ∧ b.place = d.place := by
  obtain ⟨hb, hrem, -⟩ := mem_deadCandidates.mp ((roundInv_deadBindings _).candidate b h)
  obtain ⟨n, d, hd, rfl⟩ := (declaredOnce_tree args).mem_bindings_iff.mp hb
  refine ⟨d, ⟨n, hd, h⟩, ?_, rfl⟩
  rw [declarations_tree] at hd
  rcases mem_declared.mp (List.mem_of_getElem? hd) with rfl | rfl | hdecoder | ⟨j, name, hj, rfl⟩
  · exact .head (i := 0) rfl
  · exact .array
  · rcases removable_decoder hdecoder rfl rfl hrem with rfl | rfl
    · exact .head (i := 1) rfl
    · exact .result
  · exact .head (i := j + 2) hj

theorem stubPlaces_tree (args : List s.Argument) : stubPlaces (tree args) = [] := by
  refine List.eq_nil_iff_forall_not_mem.mpr fun p hp => ?_
  obtain ⟨n, hn, -, hguard⟩ := mem_stubPlaces.mp hp
  rw [(everywhere_tame args p n hn).stub] at hguard
  cases hguard

/-- **What is dead is only used inside what is dead.** -/
theorem Goes.exists_above {d : Declaration} (h : Goes args d) {u : Position}
    (hu : Mentions args u d.name.name) (hscope : d.scope.place <+: u) :
    ∃ e, Goes args e ∧ Removable s e ∧ e.place <+: u := by
  obtain ⟨n, hd, hdead⟩ := h
  have huse := ((declaredOnce_tree args).mem_uses_iff hd).mpr ⟨occurs_iff.mpr hu, hscope⟩
  rcases isLive_eq_false_iff.mp (not_live_of_mem_deadBindings hdead) u huse with hin | ⟨q, hq, hin⟩
  · obtain ⟨e, he, hrem, hplace⟩ := exists_goes hdead
    exact ⟨e, he, hrem, hplace ▸ (Position.isInside_iff.mp hin).1⟩
  · rw [discardedBy, stubPlaces_tree, List.nil_append] at hq
    obtain ⟨b, hb, rfl⟩ := List.mem_map.mp hq
    obtain ⟨e, he, hrem, hplace⟩ := exists_goes hb
    exact ⟨e, he, hrem, hplace ▸ (Position.isInside_iff.mp hin).1⟩

/-! ## What stays -/

/-- A declaration above a place in some statement stands in that statement. -/
theorem Removable.place_cases {d : Declaration} (h : Removable s d) {i : Nat} {q : Position}
    (hp : d.place <+: item i :: q) : (∃ name, s.heads[i]? = some name ∧ d = headAt i name) ∨
      (i = 0 ∧ d = s.arrayDeclaration) ∨ (i = 1 ∧ d = s.form.result) := by
  cases h with
  | @head j name h =>
      obtain ⟨r, hr⟩ := headPlace_eq j
      rw [place_headAt, hr, List.cons_prefix_cons] at hp
      cases hp.1
      exact Or.inl ⟨name, h, rfl⟩
  | array =>
      cases (List.cons_prefix_cons.mp hp).1
      exact Or.inr (Or.inl ⟨rfl, rfl⟩)
  | result =>
      have hone : i = 1 := by
        cases hform : s.form <;> rw [hform] at hp <;> cases (List.cons_prefix_cons.mp hp).1 <;> rfl
      exact Or.inr (Or.inr ⟨hone, rfl⟩)

theorem linkPlace_eq (i : Nat) : ∃ q, linkPlace i = item (i + 1) :: q := by
  match i with
  | 0 => exact ⟨_, rfl⟩
  | _ + 1 => exact ⟨_, rfl⟩

/-- The next statement mentions the name of a statement in front. -/
theorem mentions_linkPlace {i : Nat} {name : String} (h : s.heads[i]? = some name)
    (hi : i < s.aliases.length + 1) : Mentions args (linkPlace i) name := by
  match i with
  | 0 =>
      cases h
      refine .decoder ?_
      cases s.form <;> exact List.mem_cons_self
  | j + 1 => exact .aliased (by omega) h

theorem result_not_above_linkPlace (i : Nat) : ¬ s.form.result.place <+: linkPlace i := by
  intro h
  match i with
  | 0 => cases hform : s.form <;> simp [hform, DecoderForm.result, varAt, redefinition, linkPlace] at h
  | j + 1 =>
      cases hform : s.form <;> simp [hform, DecoderForm.result, varAt, redefinition, linkPlace] at h

/-- **The statements that an argument needs stay**: the last one is used by a call, and each other one
by the next. -/
theorem not_goes_head : ∀ (k : Nat) {i : Nat} {name : String}, i + k + 1 = needs args →
    s.heads[i]? = some name → ¬ Goes args (headAt i name)
  | k, i, name, hk, hname => by
      intro h
      have hscope : ∀ u, (headAt i name).scope.place <+: u := fun u => by
        rw [scope_headAt]
        exact List.nil_prefix
      have hlt : needs args ≤ s.aliases.length + 2 := needs_le
      match k with
      | 0 =>
          obtain ⟨m, c, hc, hcallee⟩ := exists_call_of_needs (show 0 < needs args by omega)
          have hmentions : Mentions args (s.argumentPlace m ++ [first]) (headAt i name).name.name := by
            obtain rfl : c.callee.val + 1 = i := by omega
            have hcname : s.heads[c.callee.val + 1]? = some c.name := c.callee_eq
            rw [hname] at hcname
            cases hcname
            rw [name_headAt]
            exact .callee hc
          obtain ⟨e, -, hrem, hplace⟩ := h.exists_above hmentions (hscope _)
          rcases hrem.place_cases hplace with ⟨_, he, -⟩ | ⟨he, -⟩ | ⟨he, -⟩
          · have := (List.getElem?_eq_some_iff.mp he).1
            simp [heads, callees] at this
          · omega
          · omega
      | k + 1 =>
          have hmentions : Mentions args (linkPlace i) (headAt i name).name.name := by
            rw [name_headAt]
            exact mentions_linkPlace hname (by omega)
          obtain ⟨e, he, hrem, hplace⟩ := h.exists_above hmentions (hscope _)
          obtain ⟨q, hq⟩ := linkPlace_eq i
          have hcases := hplace
          rw [hq] at hcases
          rcases hrem.place_cases hcases with ⟨next, hnext, rfl⟩ | ⟨hi, -⟩ | ⟨-, rfl⟩
          · exact not_goes_head k (by omega) hnext he
          · omega
          · exact result_not_above_linkPlace i hplace

/-- The table stays with the loader. -/
theorem not_goes_array (h : 0 < needs args) : ¬ Goes args s.arrayDeclaration := by
  intro hgoes
  have hmentions : Mentions args arrayUse s.array := by
    refine .loader ?_
    simp [loaderMentions]
  obtain ⟨e, he, hrem, hplace⟩ := hgoes.exists_above hmentions (by simp [arrayDeclaration, varAt, arrayUse])
  rcases hrem.place_cases hplace with ⟨name, hname, rfl⟩ | ⟨-, rfl⟩ | ⟨hi, -⟩
  · exact not_goes_head (needs args - 1) (by omega) hname he
  · simp [arrayDeclaration, varAt, arrayUse] at hplace
  · cases hi

/-- The looked-up text stays with the decoder. -/
theorem not_goes_result (h : 1 < needs args) : ¬ Goes args s.form.result := by
  intro hgoes
  have hmentions : Mentions args s.form.resultUse s.form.result.name.name := by
    cases hform : s.form <;> refine .decoder ?_ <;> simp [hform, DecoderForm.mentions, DecoderForm.result, varAt]
  have hscope : s.form.result.scope.place <+: s.form.resultUse := by
    cases s.form <;> simp [DecoderForm.result, DecoderForm.resultUse, varAt]
  have hbeside : ¬ s.form.result.place <+: s.form.resultUse := by
    cases s.form <;> simp [DecoderForm.result, DecoderForm.resultUse, varAt]
  obtain ⟨q, hq⟩ : ∃ q, s.form.resultUse = item 1 :: q := by
    cases s.form <;> exact ⟨_, rfl⟩
  obtain ⟨e, he, hrem, hplace⟩ := hgoes.exists_above hmentions hscope
  have hcases := hplace
  rw [hq] at hcases
  rcases hrem.place_cases hcases with ⟨name, hname, rfl⟩ | ⟨hi, -⟩ | ⟨-, rfl⟩
  · exact not_goes_head (needs args - 2) (by omega) hname he
  · cases hi
  · exact hbeside hplace

/-! ## What goes -/

theorem isRemovable_headAt {i : Nat} {name : String} (h : s.heads[i]? = some name)
    {b : Binding} (hkind : b.kind = (headAt i name).kind) (hplace : b.place = (headAt i name).place) :
    isRemovable (tree args) b = true := by
  rw [isRemovable, hkind, hplace]
  match i with
  | 0 =>
      have hget : (tree args).get? [item 0] = some s.loaderNode := get?_tree_cons .loader []
      simp only [headAt, functionAt, hget, loaderNode]
      rfl
  | 1 =>
      have hget : (tree args).get? [item 1] = some s.decoderNode := get?_tree_cons .decoder []
      simp only [headAt, functionAt, hget, decoderNode]
      cases s.form <;> rfl
  | j + 2 =>
      obtain ⟨target, htarget⟩ := exists_callee (s := s) (j := j) (by
        have := (List.getElem?_eq_some_iff.mp h).1
        simp only [heads, callees, List.length_cons] at this
        omega)
      have hget := get?_aliasPlace args h htarget
      have hdeclaration : (tree args).get? [item (j + 2)] = some (.varOf name (.ident target)) :=
        get?_tree_cons (.aliased h htarget) []
      simp only [headAt, varAt, hget]
      simp [canLoseDeclarator, hdeclaration, inList, BindingKind.isVariable, isPure, Node.mentions,
        Node.slotsMention, isImpure]

/-- A mention of a function in the function itself stands inside its declaration. -/
theorem inside_of_mentions_own {i : Nat} {q : Position} {name : String} (hi : i ≤ 1)
    (h : Mentions args (item i :: q) name) : Position.isInside (item i :: q) (headPlace i) = true := by
  have hget := h.get
  have hcases : i = 0 ∨ i = 1 := by omega
  have hplace : headPlace i = [item i] := by rcases hcases with rfl | rfl <;> rfl
  have hne : q ≠ [] := by
    rintro rfl
    rcases hcases with rfl | rfl
    · rw [get?_tree_cons .loader] at hget
      cases hget
    · rw [get?_tree_cons .decoder, decoderNode] at hget
      cases hform : s.form <;> rw [hform] at hget <;> cases hget
  rw [hplace]
  exact Position.isInside_iff.mpr ⟨List.cons_prefix_cons.mpr ⟨rfl, List.nil_prefix⟩, by
    simpa using hne.symm⟩

/-- The mention of a name in the next statement stands inside it. -/
theorem inside_linkPlace (i : Nat) : (linkPlace i).isInside (headPlace (i + 1)) = true := by
  cases i with
  | zero => rfl
  | succ j =>
      refine Position.isInside_iff.mpr ⟨List.prefix_append _ _, ?_⟩
      simp [headPlace, linkPlace]

/-- A statement that no argument needs goes if the next one goes. -/
theorem goes_head_of_next {i : Nat} {name : String} (hneeds : needs args ≤ i)
    (hname : s.heads[i]? = some name)
    (hnext : ∀ next, i < s.aliases.length + 1 → s.heads[i + 1]? = some next →
      Goes args (headAt (i + 1) next)) : Goes args (headAt i name) := by
  obtain ⟨n, hn⟩ := List.mem_iff_getElem?.mp (headAt_mem hname)
  rw [← declarations_tree args] at hn
  have hbinding := (declaredOnce_tree args).mem_bindings_iff.mpr ⟨n, _, hn, rfl⟩
  refine ⟨n, hn, mem_deadBindings_of_not_live
    (mem_deadCandidates.mpr ⟨hbinding, isRemovable_headAt hname rfl rfl, by simp [stubPlaces_tree]⟩)
    (isLive_eq_false_iff.mpr fun u hu => ?_)⟩
  obtain ⟨hocc, -⟩ := ((declaredOnce_tree args).mem_uses_iff hn).mp hu
  rw [name_headAt, occurs_iff] at hocc
  rcases hocc.of_head hname with ⟨hi, q, rfl⟩ | ⟨hi, rfl⟩ | ⟨m, c, hc, rfl, rfl⟩
  · left
    show Position.isInside (item i :: q) (headAt i name).place = true
    rw [place_headAt]
    exact inside_of_mentions_own hi hocc
  · right
    obtain ⟨next, hhead⟩ := exists_head (s := s) (i := i + 1) (by omega)
    obtain ⟨m, hm, hdead⟩ := hnext next hi hhead
    exact ⟨headPlace (i + 1),
      List.mem_append_right _ (List.mem_map.mpr ⟨_, hdead, place_headAt _ _⟩), inside_linkPlace i⟩
  · have := lt_needs hc
    omega

/-- **The statements that no argument needs go**, the last one first. -/
theorem goes_head (k : Nat) {i : Nat} {name : String} (hk : i + k = s.aliases.length + 1)
    (hneeds : needs args ≤ i) (hname : s.heads[i]? = some name) : Goes args (headAt i name) := by
  induction k generalizing i name with
  | zero => exact goes_head_of_next hneeds hname fun next hi => by omega
  | succ k ih =>
      exact goes_head_of_next hneeds hname fun next _ hnext => ih (by omega) (by omega) hnext

/-! ## The sweep -/

theorem losesAll_first {dead : List Position} {site : Site} (h : losesAll dead site = true) :
    site.place ++ [item 0] ∈ dead := by
  unfold losesAll at h
  split at h
  · have := List.all_eq_true.mp h 0 (List.mem_range.mpr (Nat.zero_lt_succ _))
    exact List.contains_iff_mem.mp this
  · cases h

/-- **A statement that stays is not touched.** -/
theorem not_sweeps {i : Nat} (hi : i < needs args ∨ s.aliases.length + 2 ≤ i) (q : Position) :
    sweeps (tree args) (item i :: q) = false := by
  have hnone : ∀ b ∈ deadBindings (tree args), ∀ r, b.place <+: item i :: r → False := by
    intro b hb r hr
    obtain ⟨d, hd, hrem, hplace⟩ := exists_goes hb
    rw [hplace] at hr
    rcases hrem.place_cases hr with ⟨name, hname, rfl⟩ | ⟨rfl, rfl⟩ | ⟨rfl, rfl⟩
    · have hlt := (List.getElem?_eq_some_iff.mp hname).1
      simp only [heads, callees, List.length_cons] at hlt
      exact not_goes_head (needs args - 1 - i) (by omega) hname hd
    · exact not_goes_array (by omega) hd
    · exact not_goes_result (by omega) hd
  rw [← Bool.not_eq_true, sweeps_iff, mem_doomedPlaces, stubPlaces_tree]
  rintro (⟨b, hb, hplace⟩ | ⟨n, -, hall⟩ | hstub)
  · exact hnone b hb q (hplace ▸ List.prefix_refl _)
  · obtain ⟨b, hb, hplace⟩ := List.mem_map.mp (losesAll_first hall)
    exact hnone b hb (q ++ [item 0]) (hplace ▸ List.prefix_refl _)
  · cases hstub

/-- **A statement that no argument needs goes.** -/
theorem sweeps_statement {i : Nat} (hneeds : needs args ≤ i) (hi : i < s.aliases.length + 2) :
    sweeps (tree args) [item i] = true := by
  obtain ⟨name, hname⟩ := exists_head hi
  obtain ⟨n, -, hdead⟩ := goes_head (s.aliases.length + 1 - i) (by omega) hneeds hname
  rw [sweeps_iff, mem_doomedPlaces]
  match i with
  | 0 => exact Or.inl ⟨_, hdead, rfl⟩
  | 1 => exact Or.inl ⟨_, hdead, rfl⟩
  | j + 2 =>
      obtain ⟨target, htarget⟩ := exists_callee (s := s) (j := j) (by omega)
      refine Or.inr (Or.inl ⟨.varOf name (.ident target), get?_tree_cons (.aliased hname htarget) [], ?_⟩)
      have hmem : aliasPlace j ∈ (deadBindings (tree args)).map Binding.place :=
        List.mem_map.mpr ⟨_, hdead, rfl⟩
      simpa [losesAll] using hmem

theorem length_prelude : s.prelude.length = s.aliases.length + 2 := by
  simp [prelude, length_aliasNodes]

/-- **A sweep leaves the statements that the arguments need.** -/
theorem sweptTree_tree (args : List s.Argument) : sweptTree (tree args) = cleaned args := by
  have hle : needs args ≤ s.aliases.length + 2 := needs_le
  have hsplit : s.prelude ++ [useNode args] = s.prelude.take (needs args) ++
      (s.prelude.drop (needs args) ++ [useNode args]) := by
    rw [← List.append_assoc, List.take_append_drop]
  have hkept : Node.pruneChildren (sweeps (tree args)) [] 0 0 ((s.prelude.take (needs args)).map some) =
      (s.prelude.take (needs args)).map some := by
    refine Node.pruneChildren_map_of_stay _ 0 fun i hi q => ?_
    rw [List.length_take, length_prelude] at hi
    rw [Nat.zero_add]
    exact not_sweeps (Or.inl (by omega)) q
  have hgone : Node.pruneChildren (sweeps (tree args)) [] 0 (needs args)
      ((s.prelude.drop (needs args)).map some) = [] := by
    refine Node.pruneChildren_map_of_gone _ _ fun i hi => ?_
    rw [List.length_drop, length_prelude] at hi
    exact sweeps_statement (by omega) (by omega)
  have huse : Node.pruneChildren (sweeps (tree args)) [] 0 (s.aliases.length + 2)
      ([useNode args].map some) = [useNode args].map some := by
    refine Node.pruneChildren_map_of_stay _ _ fun i hi q => ?_
    exact not_sweeps (Or.inr (by omega)) q
  have hlength : 0 + (List.map some (s.prelude.take (needs args))).length = needs args := by
    rw [List.length_map, List.length_take, length_prelude]
    omega
  have hlength' : needs args + (List.map some (s.prelude.drop (needs args))).length =
      s.aliases.length + 2 := by
    rw [List.length_map, List.length_drop, length_prelude]
    omega
  rw [sweptTree_eq, tree, cleaned, Node.prune, Node.pruneAt, Node.pruneSlots, Node.pruneSlots, ← tree,
    hsplit, List.map_append, List.map_append, Node.pruneChildren_append, Node.pruneChildren_append,
    hlength, hlength', hkept, hgone, huse, List.nil_append, ← List.map_append]

end EncodedScript

end Descramble

import Descramble.Proofs.Encoded.Passes

/-!
# The chain of names in a script with a string table

Each statement in front declares a name that the next one starts from: the decoder calls the loader,
the first alias stands for the decoder, and every further alias stands for the one before it.

* `EncodedScript.linkPlace` — where the statement behind mentions the name of a statement.
* `EncodedScript.Mentions.of_head` — all places that can mention such a name.
* `EncodedScript.isAlias_callee` — all callees are names of the decoder.
* `EncodedScript.isAlias_user` — the function that is used is none.
-/

set_option autoImplicit false

namespace Descramble

namespace EncodedScript

variable {s : EncodedScript}

/-! ## Heads -/

/-- The names in front and the local names are all different. -/
theorem heads_locals_nodup : (s.heads ++ (s.array :: s.form.locals)).Nodup := by
  have hperm : (s.heads ++ (s.array :: s.form.locals)).Perm s.names := by
    simp only [heads, callees, names, List.cons_append]
    refine List.Perm.cons _ ?_
    calc s.decoder :: (s.aliases ++ s.array :: s.form.locals)
        = s.decoder :: s.aliases ++ (s.array :: s.form.locals) := rfl
      List.Perm _ ((s.array :: s.form.locals) ++ (s.decoder :: s.aliases)) := List.perm_append_comm
      List.Perm _ (s.array :: s.decoder :: (s.form.locals ++ s.aliases)) :=
        List.Perm.cons _ List.perm_middle
  exact hperm.nodup_iff.mpr names_nodup

theorem heads_index {i j : Nat} {name : String} (hi : s.heads[i]? = some name)
    (hj : s.heads[j]? = some name) : i = j := by
  have hnodup := (List.nodup_append.mp (heads_locals_nodup (s := s))).1
  exact (List.getElem?_inj (List.getElem?_eq_some_iff.mp hi).1 hnodup).mp (hi.trans hj.symm)

theorem not_head {i : Nat} {name : String} (h : name ∈ s.array :: s.form.locals) :
    s.heads[i]? ≠ some name := fun hi =>
  (List.nodup_append.mp (heads_locals_nodup (s := s))).2.2 name (List.mem_of_getElem? hi) name h rfl

/-- The decoder mentions the loader once, and else itself and what is local to it. -/
theorem decoderMentions_cases : ∀ x ∈ s.form.mentions s.loader s.decoder,
    (x.name = s.loader ∧ x.place = [third, item 0, item 0, second, first]) ∨ x.name = s.decoder ∨
      x.name ∈ s.form.locals := by
  cases s.form with
  | direct param table entry => simp [DecoderForm.mentions, DecoderForm.locals]
  | selfRedefining param spare table index other entry =>
      simp [DecoderForm.mentions, DecoderForm.locals]

/-- Where the statement behind mentions the name of a statement in front. -/
def linkPlace : Nat → Position
  | 0 => [item 1, third, item 0, item 0, second, first]
  | j + 1 => aliasPlace j ++ [second]

/-- **Where a name in front is mentioned**: in the function that has it, in the next statement, and
by the calls that use it. -/
theorem Mentions.of_head {args : List s.Argument} {p : Position} {i : Nat} {name : String}
    (h : Mentions args p name) (hi : s.heads[i]? = some name) :
    (i ≤ 1 ∧ ∃ q, p = item i :: q) ∨ (i < s.aliases.length + 1 ∧ p = linkPlace i) ∨
      ∃ k c, args[k]? = some (.call c) ∧ c.callee.val + 1 = i ∧ p = s.argumentPlace k ++ [first] := by
  cases h with
  | @loader q _ h =>
      simp only [loaderMentions, List.mem_cons, List.not_mem_nil, or_false, Name.mk.injEq] at h
      have hname : name = s.loader ∨ name = s.array := by
        rcases h with ⟨-, h⟩ | ⟨-, h⟩ | ⟨-, h⟩
        · exact Or.inl h
        · exact Or.inr h
        · exact Or.inl h
      rcases hname with rfl | rfl
      · obtain rfl := heads_index hi (j := 0) rfl
        exact Or.inl ⟨by omega, q, rfl⟩
      · exact absurd hi (not_head List.mem_cons_self)
  | @decoder q _ h =>
      rcases decoderMentions_cases _ h with ⟨rfl, rfl⟩ | rfl | hlocal
      · obtain rfl := heads_index hi (j := 0) rfl
        exact Or.inr (Or.inl ⟨by omega, rfl⟩)
      · obtain rfl := heads_index hi (j := 1) rfl
        exact Or.inl ⟨Nat.le_refl _, q, rfl⟩
      · exact absurd hi (not_head (List.mem_cons_of_mem _ hlocal))
  | @aliased j _ hj htarget =>
      obtain rfl := heads_index hi (j := j + 1) htarget
      exact Or.inr (Or.inl ⟨by omega, rfl⟩)
  | user =>
      cases i with
      | zero => exact absurd (Option.some.inj hi) (ne_user List.mem_cons_self)
      | succ j => exact absurd rfl (ne_user (mem_names_of_callee (j := j) hi))
  | @callee k c hc =>
      obtain rfl := heads_index hi (j := c.callee.val + 1) c.callee_eq
      exact Or.inr (Or.inr ⟨k, c, hc, rfl, rfl⟩)

/-! ## Names of the decoder -/

theorem get?_aliasPlace (args : List s.Argument) {j : Nat} {name target : String}
    (hname : s.aliases[j]? = some name) (htarget : s.callees[j]? = some target) :
    (tree args).get? (aliasPlace j) = some (.declarator (.ident name) (some (.ident target))) :=
  get?_tree_cons (.aliased hname htarget) [item 0]

theorem exists_callee {j : Nat} (h : j < s.aliases.length + 1) :
    ∃ name, s.callees[j]? = some name :=
  ⟨_, List.getElem?_eq_getElem (by simpa [callees] using h)⟩

/-- Nothing writes to an alias. -/
theorem constant_alias {args : List s.Argument} {j n : Nat} {name : String}
    (hname : s.aliases[j]? = some name)
    (hn : (declarations (tree args))[n]? = some (headAt (j + 2) name)) :
    (bindingOf (declarations (tree args)) (analyze (tree args)).occurrences
      (headAt (j + 2) name) n).constant = true := by
  refine (declaredOnce_tree args).constant_of_reads hn fun p hocc => ?_
  rcases (occurs_iff.mp hocc).of_head (i := j + 2) hname with ⟨hle, -⟩ | ⟨hlt, rfl⟩ | ⟨k, c, hc, -, rfl⟩
  · omega
  · obtain ⟨target, htarget⟩ := exists_callee (s := s) (j := j + 1) (by omega)
    have hlink := get?_aliasPlace args (List.getElem?_eq_getElem (by omega)) htarget
    rw [linkPlace, (ordinary_tree args).use_eq hlink]
    rfl
  · have hcall : (tree args).get? (s.argumentPlace k) = some (Argument.call c).node :=
      get?_argument hc []
    rw [(ordinary_tree args).use_eq hcall]
    rfl

/-- A callee is followed to the decoder, from alias to alias: the bindings that were passed belong to
later aliases. -/
theorem namesDecoder_callee (args args' : List s.Argument) : ∀ (j : Nat) {name : String}
    {p : Position} {fuel : Nat} {passed : List Nat}, s.callees[j]? = some name →
      Mentions args p name → (tree args').get? p = some (.ident name) → j < fuel →
      (∀ n ∈ passed, ∀ i ≤ j, ∀ d, s.declared[n]? = some d → s.callees[i]? ≠ some d.name.name) →
        namesDecoder (tree args') (analyze (tree args)) s.decoder fuel passed p = true
  | j, name, p, 0, passed, hname, hp, hget, hfuel, hpassed => by omega
  | 0, name, p, fuel + 1, passed, hname, hp, hget, hfuel, hpassed => by
      cases hname
      simp [namesDecoder, nodeAt?_of_get? hget]
  | j + 1, name, p, fuel + 1, passed, hname, hp, hget, hfuel, hpassed => by
      have hne : name ≠ s.decoder := by
        rintro rfl
        have := heads_index (s := s) (i := j + 2) (j := 1) hname rfl
        omega
      obtain ⟨n, hn⟩ := List.mem_iff_getElem?.mp (headAt_mem (s := s) (i := j + 2) hname)
      have hnot : passed.contains n = false := by
        refine Bool.eq_false_iff.mpr fun hmem => ?_
        exact hpassed n (List.contains_iff_mem.mp hmem) (j + 1) (Nat.le_refl _) _ hn hname
      have hj : j < s.aliases.length := by
        have hlt := (List.getElem?_eq_some_iff.mp hname).1
        simp only [callees, List.length_cons] at hlt
        omega
      obtain ⟨target, htarget⟩ := exists_callee (s := s) (j := j) (by omega)
      have hinit := get?_aliasPlace args' hname htarget
      have hnext : namesDecoder (tree args') (analyze (tree args)) s.decoder fuel (n :: passed)
          (aliasPlace j ++ [second]) = true := by
        refine namesDecoder_callee args args' j htarget (.aliased hj htarget) ?_ (by omega) ?_
        · rw [Node.get?_concat, hinit]
          rfl
        · intro i hi k hk d hd hcallee
          rcases List.mem_cons.mp hi with rfl | hi
          · rw [hn] at hd
            cases hd
            have := heads_index (s := s) (i := k + 1) (j := j + 2) hcallee hname
            omega
          · exact hpassed i hi k (by omega) d hd hcallee
      rw [← declarations_tree args] at hn
      have hbinding := (declaredOnce_tree args).bindingFor?_eq hn (occurs_iff.mpr hp) List.nil_prefix
      have hvalue : (bindingOf (declarations (tree args)) (analyze (tree args)).occurrences
          (headAt (j + 2) name) n).init? (tree args') = some (.ident target) := by
        unfold Binding.init?
        rw [show (bindingOf _ _ (headAt (j + 2) name) n).place = aliasPlace j from rfl, hinit]
      rw [namesDecoder, nodeAt?_of_get? hget]
      simp only [if_neg hne, hbinding, hnot, constant_alias hname hn, analysis_init?_of_init? hvalue,
        Option.isNone_some, Bool.not_true, Bool.or_false, Bool.false_eq_true, if_false]
      exact hnext

theorem length_bindings (args : List s.Argument) :
    s.aliases.length ≤ (analyze (tree args)).bindings.length := by
  have hfirsts := (declaredOnce_tree args).firsts
  have hlength : (analyze (tree args)).bindings.length = s.declared.length := by
    rw [declarations_tree] at hfirsts
    simp [analyze, declarations_tree, hfirsts]
  rw [hlength]
  simp only [declared, List.length_append, List.length_mapIdx]
  omega

/-- **Every callee is a name of the decoder**, also while arguments are being replaced. -/
theorem isAlias_callee (args args' : List s.Argument) {j : Nat} {name : String} {p : Position}
    (hname : s.callees[j]? = some name) (hp : Mentions args p name)
    (hget : (tree args').get? p = some (.ident name)) :
    isAlias (tree args') (analyze (tree args)) (some s.decoder) p = true := by
  have hdecoder : s.decoder ≠ "" := by
    intro hempty
    have hvalid := s.valid s.decoder (by simp)
    rw [hempty] at hvalid
    cases hvalid
  have hj := (List.getElem?_eq_some_iff.mp hname).1
  have hlength := length_bindings args
  simp only [callees, List.length_cons] at hj
  have hchain : namesDecoder (tree args') (analyze (tree args)) s.decoder
      ((analyze (tree args)).bindings.length + 1) [] p = true :=
    namesDecoder_callee args args' j hname hp hget (by omega) (by simp)
  simp [isAlias, hdecoder, hchain]

/-- The function that is used is no name of the decoder. -/
theorem isAlias_user (args args' : List s.Argument) {p : Position} (hp : Mentions args p s.user)
    (hget : (tree args').get? p = some (.ident s.user)) :
    isAlias (tree args') (analyze (tree args)) (some s.decoder) p = false := by
  have hne : s.user ≠ s.decoder := fun he =>
    ne_user (mem_names_of_callee (s := s) (j := 0) rfl) he.symm
  simp [isAlias, namesDecoder, nodeAt?_of_get? hget, hne, Analysis.bindingFor?, bindingNumber?_user hp]

end EncodedScript

end Descramble

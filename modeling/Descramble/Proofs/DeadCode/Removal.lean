import Descramble.Proofs.DeadCode.Least
import Descramble.Proofs.DeadCode.Slots

/-!
# Taking out the dead declarations one after the other

A declarator is taken out of the list of its declaration, and the last entry of a list takes the whole
declaration with it.  Which declarator is the last depends on the order, what is left does not.

* `Removed` — what goes with a set of bindings, said without an order.
* `Takeout`, `takeOut` — what is gone so far, and the removal of one binding.
* `TakeoutInv` — what holds while the bindings of a tree are taken out, kept by `TakeoutInv.takeOut`.
* `prune_takeoutOf` — every order leaves the same tree.
* `sweep_takes_least` — the sweep takes out the least closed set of bindings and the stubs.
-/

set_option autoImplicit false

namespace Descramble

/-- What goes with a set of bindings: their declarators and functions, the declarations that thereby
lose their last declarator, and the stubs. -/
inductive Removed (t : Node) (D : Binding → Prop) : Position → Prop where
  | declaration {b : Binding} : D b → Removed t D b.place
  | emptied {p : Position} {n : Node} : t.get? p = some n → 0 < declaratorCount n →
      (∀ i < declaratorCount n, ∃ b, D b ∧ b.place = p ++ [⟨0, some i⟩]) → Removed t D p
  | stub {p : Position} : p ∈ stubPlaces t → Removed t D p

/-- A sweep removes what goes with the dead bindings. -/
theorem sweeps_iff_removed {t : Node} {p : Position} :
    sweeps t p = true ↔ Removed t (· ∈ deadBindings t) p := by
  rw [sweeps_iff, mem_doomedPlaces]
  constructor
  · rintro (⟨b, hb, rfl⟩ | ⟨n, hn, hall⟩ | hstub)
    · exact .declaration hb
    · obtain ⟨hpos, hall⟩ := losesAll_iff.mp hall
      exact .emptied hn hpos fun i hi => List.mem_map.mp (hall i hi)
    · exact .stub hstub
  · rintro (hb | ⟨hn, hpos, hall⟩ | hstub)
    · exact Or.inl ⟨_, hb, rfl⟩
    · refine Or.inr (Or.inl ⟨_, hn, losesAll_iff.mpr ⟨hpos, fun i hi => ?_⟩⟩)
      exact List.mem_map.mpr (hall i hi)
    · exact Or.inr (Or.inr hstub)

/-! ## One binding after the other -/

/-- What is gone: declarators and functions taken out by themselves, and whole declarations. -/
structure Takeout where
  single : List Position
  whole : List Position

def Takeout.places (gone : Takeout) : List Position := gone.single ++ gone.whole

/-- The number of entries that the declaration at a place still has. -/
def entriesLeft (t : Node) (gone : List Position) (place : Position) : Nat :=
  (List.range (((t.get? place).map declaratorCount).getD 0)).countP fun i =>
    !gone.contains (place ++ [⟨0, some i⟩])

/-- Takes out a binding: the whole declaration if its declarator is the only entry left, else the
declarator or function itself. -/
def takeOut (t : Node) (gone : Takeout) (b : Binding) : Takeout :=
  if entriesLeft t gone.single b.place.dropLast = 1 then
    { gone with whole := gone.whole ++ [b.place.dropLast] }
  else { gone with single := gone.single ++ [b.place] }

/-- What is gone when some bindings have been taken out one after the other. -/
def takeoutOf (t : Node) (bs : List Binding) : Takeout := bs.foldl (takeOut t) ⟨[], []⟩

/-- All entries of the declaration at a place belong to some bindings. -/
def LosesAll (t : Node) (bs : List Binding) (p : Position) : Prop :=
  ∃ n, t.get? p = some n ∧ 0 < declaratorCount n ∧
    ∀ i < declaratorCount n, ∃ b ∈ bs, b.place = p ++ [⟨0, some i⟩]

/-- What holds when some bindings have been taken out. -/
structure TakeoutInv (t : Node) (done : List Binding) (gone : Takeout) : Prop where
  of_single : ∀ p ∈ gone.single, ∃ b ∈ done, b.place = p
  of_whole : ∀ p ∈ gone.whole, LosesAll t done p
  single_or_whole : ∀ b ∈ done, b.place ∈ gone.single ∨ b.place.dropLast ∈ gone.whole
  whole : ∀ p, LosesAll t done p → p ∈ gone.whole

theorem LosesAll.mono {t : Node} {bs cs : List Binding} {p : Position} (h : LosesAll t bs p)
    (hsub : ∀ b ∈ bs, b ∈ cs) : LosesAll t cs p := by
  obtain ⟨n, hn, hpos, hall⟩ := h
  refine ⟨n, hn, hpos, fun i hi => ?_⟩
  obtain ⟨b, hb, hplace⟩ := hall i hi
  exact ⟨b, hsub b hb, hplace⟩

theorem declaratorCount_of_program {n : Node} {sourceType : String}
    (h : n.kind = .program sourceType) : declaratorCount n = 0 := by
  obtain ⟨kind, slots⟩ := n
  cases h
  rfl

/-- A declaration with entries has all its children in the list. -/
theorem step_of_declaratorCount {n c : Node} {s : Step} (hpos : 0 < declaratorCount n)
    (hc : n.child? s = some c) : ∃ k, s = ⟨0, some k⟩ ∧ k < declaratorCount n := by
  unfold declaratorCount at hpos ⊢
  split at hpos
  · rename_i v entries
    obtain ⟨i, index⟩ := s
    rw [Node.child?_mk] at hc
    match i, index, hc with
    | 0, some k, hc =>
        rw [Node.childOfSlots_many, Node.join_eq_some] at hc
        exact ⟨k, rfl, (List.getElem?_eq_some_iff.mp hc).1⟩
    | 0, none, hc => cases hc
    | i + 1, index, hc => simp at hc
  · cases hpos

/-- One number of a range is the only one with a property. -/
theorem countP_range_eq_one {n k : Nat} {f : Nat → Bool} (hk : k < n) (hf : f k = true) :
    (List.range n).countP f = 1 ↔ ∀ i < n, i ≠ k → f i = false := by
  have hmem : k ∈ List.range n := List.mem_range.mpr hk
  rw [(List.perm_cons_erase hmem).countP_eq, List.countP_cons_of_pos hf, Nat.succ.injEq,
    List.countP_eq_zero]
  constructor
  · intro h i hi hne
    simpa using h i ((List.mem_erase_of_ne hne).mpr (List.mem_range.mpr hi))
  · intro h i hi
    rw [List.nodup_range.mem_erase_iff, List.mem_range] at hi
    simp [h i hi.2 hi.1]

section
variable {t : Node} {done : List Binding} {gone : Takeout}

/-- An entry of a declaration that is not gone as a whole is gone by itself if it is gone. -/
theorem TakeoutInv.mem_single_iff (h : TakeoutInv t done gone) {p : Position} {s : Step}
    (hp : p ∉ gone.whole) : p ++ [s] ∈ gone.single ↔ ∃ b ∈ done, b.place = p ++ [s] := by
  constructor
  · exact h.of_single _
  · rintro ⟨b, hb, hplace⟩
    rcases h.single_or_whole b hb with hmem | hmem
    · rwa [hplace] at hmem
    · rw [hplace, List.dropLast_concat] at hmem
      exact absurd hmem hp

/-- **A binding is the only entry left exactly if all others are gone**: with it the declaration loses
all its entries. -/
theorem TakeoutInv.entriesLeft_eq_one_iff (h : TakeoutInv t done gone) {b : Binding}
    (hget : ∃ n, t.get? b.place = some n) (hroot : b.place ≠ [])
    (hnew : ∀ c ∈ done, c.place ≠ b.place) :
    entriesLeft t gone.single b.place.dropLast = 1 ↔ LosesAll t (done ++ [b]) b.place.dropLast := by
  obtain ⟨n, hn⟩ := hget
  obtain ⟨p, s, hplace⟩ : ∃ p s, b.place = p ++ [s] :=
    ⟨_, _, (List.dropLast_concat_getLast hroot).symm⟩
  rw [hplace, Node.get?_concat] at hn
  obtain ⟨m, hm, hchild⟩ := Option.bind_eq_some_iff.mp hn
  rw [hplace, List.dropLast_concat]
  by_cases hpos : 0 < declaratorCount m
  · obtain ⟨k, rfl, hk⟩ := step_of_declaratorCount hpos hchild
    have hwhole : p ∉ gone.whole := by
      intro hp
      obtain ⟨m', hm', -, hall⟩ := h.of_whole p hp
      rw [hm] at hm'
      cases hm'
      obtain ⟨c, hc, hcp⟩ := hall k hk
      exact hnew c hc (hcp.trans hplace.symm)
    have hentry : ∀ i, (!gone.single.contains (p ++ [⟨0, some i⟩])) = false ↔
        ∃ c ∈ done, c.place = p ++ [⟨0, some i⟩] := by
      intro i
      rw [Bool.not_eq_false', List.contains_iff_mem, h.mem_single_iff hwhole]
    have hown : (!gone.single.contains (p ++ [⟨0, some k⟩])) = true := by
      rw [← Bool.not_eq_false, hentry]
      rintro ⟨c, hc, hcp⟩
      exact hnew c hc (hcp.trans hplace.symm)
    rw [entriesLeft, hm, Option.map_some, Option.getD_some, countP_range_eq_one hk hown]
    constructor
    · intro hall
      refine ⟨m, hm, hpos, fun i hi => ?_⟩
      by_cases hik : i = k
      · exact ⟨b, by simp, by rw [hplace, hik]⟩
      · obtain ⟨c, hc, hcp⟩ := (hentry i).mp (hall i hi hik)
        exact ⟨c, List.mem_append_left _ hc, hcp⟩
    · rintro ⟨m', hm', -, hall⟩ i hi hik
      rw [hm] at hm'
      cases hm'
      obtain ⟨c, hc, hcp⟩ := hall i hi
      refine (hentry i).mpr ⟨c, ?_, hcp⟩
      rcases List.mem_append.mp hc with hc | hc
      · exact hc
      · rw [List.mem_singleton.mp hc, hplace] at hcp
        simp only [List.append_cancel_left_eq, List.cons.injEq, Step.mk.injEq, Option.some.injEq,
          true_and, and_true] at hcp
        exact absurd hcp.symm hik
  · constructor
    · intro hone
      rw [entriesLeft, hm, Option.map_some, Option.getD_some, Nat.eq_zero_of_not_pos hpos] at hone
      cases hone
    · rintro ⟨m', hm', hpos', -⟩
      rw [hm] at hm'
      cases hm'
      exact absurd hpos' hpos

/-- **One removal keeps the invariant.** -/
theorem TakeoutInv.takeOut (h : TakeoutInv t done gone) {b : Binding}
    (hget : ∃ n, t.get? b.place = some n) (hroot : b.place ≠ [])
    (hnew : ∀ c ∈ done, c.place ≠ b.place) :
    TakeoutInv t (done ++ [b]) (takeOut t gone b) := by
  have hsub : ∀ c ∈ done, c ∈ done ++ [b] := fun c hc => List.mem_append_left _ hc
  have hlast := h.entriesLeft_eq_one_iff hget hroot hnew
  -- only the declaration of the binding can lose its last entry
  have honly : ∀ p, LosesAll t (done ++ [b]) p → p ∈ gone.whole ∨ p = b.place.dropLast := by
    rintro p ⟨n, hn, hpos, hall⟩
    by_cases hdone : ∀ i < declaratorCount n, ∃ c ∈ done, c.place = p ++ [⟨0, some i⟩]
    · exact Or.inl (h.whole p ⟨n, hn, hpos, hdone⟩)
    · obtain ⟨i, hi⟩ := Classical.not_forall.mp hdone
      obtain ⟨hlt, hi⟩ := Classical.not_imp.mp hi
      obtain ⟨c, hc, hcp⟩ := hall i hlt
      rcases List.mem_append.mp hc with hc | hc
      · exact absurd ⟨c, hc, hcp⟩ hi
      · rw [List.mem_singleton.mp hc] at hcp
        exact Or.inr (by rw [hcp, List.dropLast_concat])
  unfold Descramble.takeOut
  split
  · rename_i hone
    refine ⟨?_, ?_, ?_, ?_⟩
    · intro p hp
      obtain ⟨c, hc, hcp⟩ := h.of_single p hp
      exact ⟨c, hsub c hc, hcp⟩
    · intro p hp
      rcases List.mem_append.mp hp with hp | hp
      · exact (h.of_whole p hp).mono hsub
      · rw [List.mem_singleton.mp hp]
        exact hlast.mp hone
    · intro c hc
      rcases List.mem_append.mp hc with hc | hc
      · exact (h.single_or_whole c hc).imp_right fun hw => List.mem_append_left _ hw
      · rw [List.mem_singleton.mp hc]
        exact Or.inr (by simp)
    · intro p hp
      rcases honly p hp with hp | rfl
      · exact List.mem_append_left _ hp
      · simp
  · rename_i hone
    refine ⟨?_, ?_, ?_, ?_⟩
    · intro p hp
      rcases List.mem_append.mp hp with hp | hp
      · obtain ⟨c, hc, hcp⟩ := h.of_single p hp
        exact ⟨c, hsub c hc, hcp⟩
      · exact ⟨b, by simp, (List.mem_singleton.mp hp).symm⟩
    · intro p hp
      exact (h.of_whole p hp).mono hsub
    · intro c hc
      rcases List.mem_append.mp hc with hc | hc
      · exact (h.single_or_whole c hc).imp_left fun hs => List.mem_append_left _ hs
      · rw [List.mem_singleton.mp hc]
        exact Or.inl (by simp)
    · intro p hp
      rcases honly p hp with hmem | rfl
      · exact hmem
      · exact absurd (hlast.mpr hp) hone

/-- **Taking out bindings one after the other keeps the invariant**, if their places differ. -/
theorem TakeoutInv.foldl : ∀ {bs done : List Binding} {gone : Takeout}, TakeoutInv t done gone →
    (∀ b ∈ bs, (∃ n, t.get? b.place = some n) ∧ b.place ≠ []) →
      ((done ++ bs).map Binding.place).Nodup →
        TakeoutInv t (done ++ bs) (bs.foldl (Descramble.takeOut t) gone)
  | [], done, gone, h, _, _ => by simpa using h
  | b :: bs, done, gone, h, hbs, hnodup => by
      obtain ⟨hget, hroot⟩ := hbs b List.mem_cons_self
      have hnew : ∀ c ∈ done, c.place ≠ b.place := by
        rw [List.map_append, List.nodup_append] at hnodup
        intro c hc
        exact hnodup.2.2 _ (List.mem_map_of_mem hc) _ (by simp)
      rw [List.foldl_cons, List.append_cons]
      refine (h.takeOut hget hroot hnew).foldl (fun c hc => hbs c (List.mem_cons_of_mem _ hc)) ?_
      rwa [← List.append_cons]

theorem takeoutInv_takeoutOf {bs : List Binding}
    (hbs : ∀ b ∈ bs, (∃ n, t.get? b.place = some n) ∧ b.place ≠ [])
    (hnodup : (bs.map Binding.place).Nodup) : TakeoutInv t bs (takeoutOf t bs) := by
  have hstart : TakeoutInv t [] ⟨[], []⟩ := by
    refine ⟨by simp, by simp, by simp, ?_⟩
    rintro p ⟨n, -, hpos, hall⟩
    obtain ⟨b, hb, -⟩ := hall 0 hpos
    cases hb
  have h : TakeoutInv t ([] ++ bs) (takeoutOf t bs) := hstart.foldl hbs (by simpa using hnodup)
  rwa [List.nil_append] at h

end

/-! ## The dead bindings stand at different places -/

/-- A removable declaration belongs to a scope outside it. -/
theorem scope_place_ne_of_removable {t : Node} {b : Binding} (hb : b ∈ (analyze t).bindings)
    (hrem : isRemovable t b = true) : b.scope.place ≠ b.place := by
  obtain ⟨e, he, hkey, hplace, hkind⟩ := exists_declares_of_mem_bindings hb
  have hscope : e.scope.place = b.scope.place := congrArg Prod.fst hkey
  obtain ⟨above, last, parent, node, s, home, he⟩ := mem_declarations_iff.mp he
  have hinner : home ≠ .inner := by
    intro hhome
    rw [hhome] at he
    obtain ⟨hfunction, hdeclarator⟩ := ne_of_bindsBy_inner he.binds
    rcases isRemovable_cases hrem with ⟨hk, -⟩ | ⟨-, name, slots, init, hget⟩
    · exact hfunction (hkind.trans hk)
    · rw [← hplace, he.place_eq, he.get_node] at hget
      cases hget
      exact hdeclarator rfl
  have habove : e.scope.place <+: above := by
    have hpick := he.scope_eq
    refine prefix_of_mem_scopesAround he.get_parent _ ?_
    cases home with
    | inner => exact absurd rfl hinner
    | outer => exact List.mem_of_mem_head? hpick
    | function => exact List.mem_of_find?_eq_some hpick
  intro hsame
  rw [← hscope, ← hplace] at hsame
  rw [hsame, he.place_eq] at habove
  exact Position.not_append_prefix (List.cons_ne_nil last []) habove

/-- **Two dead bindings stand at different places.** -/
theorem eq_of_place_eq_of_dead {t : Node} {b c : Binding} (hb : b ∈ deadBindings t)
    (hc : c ∈ deadBindings t) (hplace : b.place = c.place) : b = c := by
  obtain ⟨hbind, hrem, -⟩ := mem_deadCandidates.mp ((roundInv_deadBindings t).candidate b hb)
  obtain ⟨hbind', hrem', -⟩ := mem_deadCandidates.mp ((roundInv_deadBindings t).candidate c hc)
  have hscope := scope_place_ne_of_removable hbind' hrem'
  obtain ⟨i, d, hd, rfl⟩ := mem_bindings_iff.mp hbind
  obtain ⟨j, e, he, rfl⟩ := mem_bindings_iff.mp hbind'
  have hkey := key_of_doomed_declaration hbind hrem
    (mem_of_mem_firstDeclarations (List.mem_of_getElem? he)).1 hplace.symm hscope
  obtain rfl := first_eq_of_key_eq he hd hkey
  rw [hd] at he
  cases he
  rfl

/-! ## The sweep -/

/-- **Every order leaves the same tree.** -/
theorem prune_takeoutOf {t : Node} {sourceType : String} (hroot : t.kind = .program sourceType)
    {order : List Binding} (horder : order.Perm (deadBindings t)) :
    t.prune (fun p => ((takeoutOf t order).places ++ stubPlaces t).contains p) = sweptTree t := by
  have hbind : ∀ b ∈ order, b ∈ (analyze t).bindings := fun b hb =>
    (mem_deadCandidates.mp ((roundInv_deadBindings t).candidate b (horder.mem_iff.mp hb))).1
  have hnodup : (order.map Binding.place).Nodup := by
    have hdistinct : order.Nodup := horder.nodup_iff.mpr (roundInv_deadBindings t).nodup
    refine List.pairwise_map.mpr (hdistinct.imp_of_mem fun {b c} hb hc hne hplace => hne ?_)
    exact eq_of_place_eq_of_dead (horder.mem_iff.mp hb) (horder.mem_iff.mp hc) hplace
  have hinv : TakeoutInv t order (takeoutOf t order) :=
    takeoutInv_takeoutOf (fun b hb =>
      ⟨exists_get?_of_mem_bindings (hbind b hb), place_ne_nil_of_mem_bindings (hbind b hb)⟩) hnodup
  rw [sweptTree_eq]
  refine Node.prune_congr t fun p s hsurvives => ?_
  rw [Bool.eq_iff_iff, sweeps_iff_removed, List.contains_iff_mem]
  simp only [Takeout.places, List.mem_append]
  constructor
  · rintro ((hsingle | hwhole) | hstub)
    · obtain ⟨b, hb, hplace⟩ := hinv.of_single _ hsingle
      rw [← hplace]
      exact .declaration (horder.mem_iff.mp hb)
    · obtain ⟨n, hn, hpos, hall⟩ := hinv.of_whole _ hwhole
      refine .emptied hn hpos fun i hi => ?_
      obtain ⟨b, hb, hplace⟩ := hall i hi
      exact ⟨b, horder.mem_iff.mp hb, hplace⟩
    · exact .stub hstub
  · intro hremoved
    generalize hq : p ++ [s] = q at hremoved ⊢
    cases hremoved with
    | @declaration b hb =>
        rcases hinv.single_or_whole b (horder.mem_iff.mpr hb) with hsingle | hwhole
        · exact Or.inl (Or.inl hsingle)
        · -- the whole declaration is gone, but its place survives
          rw [← hq, List.dropLast_concat] at hwhole
          have hne : p ≠ [] := by
            rintro rfl
            obtain ⟨n, hn, hpos, -⟩ := hinv.of_whole _ hwhole
            cases hn
            rw [declaratorCount_of_program hroot] at hpos
            cases hpos
          have hgone := hsurvives p (List.prefix_refl _) hne
          simp [Takeout.places, hwhole] at hgone
    | emptied hn hpos hall =>
        refine Or.inl (Or.inr (hinv.whole _ ⟨_, hn, hpos, fun i hi => ?_⟩))
        obtain ⟨b, hb, hplace⟩ := hall i hi
        exact ⟨b, horder.mem_iff.mpr hb, hplace⟩
    | stub hstub => exact Or.inr hstub

/-- **The sweep takes out the least closed set of candidates**, whatever the order in which they are
scanned, and with it the declarations that lose all their declarators and the stubs; taking out the
bindings one after the other, in any order, leaves the same tree. -/
theorem sweep_takes_least {ε : Type} (sourceType : String) (slots : List Slot) :
    let t := Node.mk (.program sourceType) slots
    let D := fun b => b ∈ deadBindings t
    (ClosedUnderUse (stubPlaces t) (deadCandidates t) D ∧
        ∀ D', ClosedUnderUse (stubPlaces t) (deadCandidates t) D' → ∀ b, D b → D' b) ∧
      (∀ scan : List Binding, (∀ b, b ∈ scan ↔ b ∈ deadCandidates t) →
        ∀ b, b ∈ deadRounds (stubPlaces t) scan scan.length [] ↔ D b) ∧
      ∃ t' changed, (sweep t : Logged ε (Node × Bool)).outcome = .ok (t', changed) ∧
        (∃ removed : Position → Bool, (∀ p, removed p = true ↔ Removed t D p) ∧
          t' = t.prune removed) ∧
        (∀ order : List Binding, order.Perm (deadBindings t) →
          t' = t.prune fun p => ((takeoutOf t order).places ++ stubPlaces t).contains p) ∧
        (changed = true ↔ (∃ b, D b) ∨ ∃ p, p ∈ stubPlaces t) := by
  intro t D
  have hrounds : ClosedUnderUse (stubPlaces t) (deadCandidates t) D :=
    closedUnderUse_deadRounds (stubPlaces t) (deadCandidates t)
  refine ⟨⟨hrounds, fun D' hD' => ?_⟩, fun scan hscan => mem_deadRounds_congr hscan,
    sweptTree t, _, rfl, ⟨sweeps t, fun p => sweeps_iff_removed, sweptTree_eq t⟩,
    fun order horder => (prune_takeoutOf rfl horder).symm, ?_⟩
  · exact mem_of_mem_deadRounds hD' (by simp)
  · simp only [Bool.not_eq_true', Bool.and_eq_false_iff, List.isEmpty_eq_false_iff_exists_mem]
    exact Iff.rfl

end Descramble

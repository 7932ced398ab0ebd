import Descramble.Proofs.Scope.Nearest
import Descramble.Proofs.Scope.Walk
import Descramble.Proofs.Tree.Order

/-!
# Use lists

Each binding lists the places that read it and the places that change it.  Passes replace and remove on
the strength of these lists, so no use may be missing and none may be filed twice.

* `Role`, `exists_role` — each identifier declares, only names, is unresolved or is resolved, and it is
  one of these only.
* `use_eq_both_iff` — an identifier is read and written at once where it is stepped up or down.
* `count_violations_le_one`, `sublist_references` — no use is listed twice, and uses are in walk order.
* `declaresAgain_iff` — what else changes a binding: further declarations of its name.
* `pairwise_bindings` — bindings are in the order of their first declarations.
-/

set_option autoImplicit false

namespace Descramble

variable {t n : Node} {p q : Position} {name source : String} {d : Declaration} {i : Nat} {b : Binding}

/-! ## Roles of identifiers -/

/-- What an identifier of a tree is. -/
inductive Role where
  | declaring
  | nameOnly
  /-- It stands for a value that no declaration binds. -/
  | unresolved
  | resolved
  deriving DecidableEq, Repr

/-- Does the identifier at a place have a role? -/
def HasRole (t : Node) (p : Position) : Role → Prop
  | .declaring => DeclaringName t p
  | .nameOnly => NameOnly t p
  | .unresolved => (analyze t).isGlobal p = true
  | .resolved => ∃ i b, (analyze t).bindingFor? p = some (i, b)

theorem onlyNames_of_continues {s : Step} (h : continuesPattern n.kind n.skeleton s = true) :
    n.onlyNames s = false := by
  unfold continuesPattern at h
  split at h
  · rename_i hk _ _ _
    simp [Node.onlyNames, hk, Kind.nameSlot?]
  · rename_i hk _ _ _
    simp [Node.onlyNames, hk, Kind.nameSlot?]
  · rename_i hk _ _ _
    simp [Node.onlyNames, hk, Kind.nameSlot?]
  · cases h

/-- An object pattern binds the values of its properties, not the keys. -/
theorem onlyNames_of_continuesObject {shape : List Bool} {s s' : Step}
    (h : continuesObject shape s n.kind n.skeleton s' = true) : n.onlyNames s' = false := by
  obtain ⟨slot, index⟩ := s'
  unfold continuesObject at h
  split at h
  · rename_i hk _ _ _ hslot _
    obtain ⟨computed, _, _, _, hk⟩ := boundSlot_eq_one hk
    obtain rfl : slot = 1 := hslot
    cases computed <;> rw [Node.onlyNames, Node.slotName?, hk] <;> rfl
  · rename_i hk _ _ _ _ _
    simp [Node.onlyNames, boundSlot_eq_zero hk, Kind.nameSlot?]
  · cases h

theorem onlyNames_of_binds {parent : Kind} {s : Step} {home : Home × BindingKind}
    (h : bindsBy parent n.kind n.skeleton s = some home) : n.onlyNames s = false := by
  have hnames : n.kind.nameSlot? = none ∧ n.kind ≠ .metaProperty := by
    rcases bindsBy_cases h with ⟨-, hk | hk⟩ | ⟨-, hk, -⟩ | ⟨hk, -⟩
    · unfold Kind.isFunction at hk
      split at hk <;> simp_all [Kind.nameSlot?]
    · simp [hk, Kind.nameSlot?]
    · unfold Kind.isDeclaration at hk
      split at hk <;> simp_all [Kind.nameSlot?]
    · simp [hk, Kind.nameSlot?]
  simp [Node.onlyNames, hnames.1, hnames.2]

/-- What a pattern binds is no name of a property, except perhaps the pattern as a whole. -/
theorem PatternPath.not_nameOnly {start : Position} (h : PatternPath t start p) (hne : p ≠ start) :
    ¬ NameOnly t p := by
  rintro ⟨r, s, n, rfl, hn, honly⟩
  generalize he : r ++ [s] = p at h hne
  cases h with
  | here => exact hne rfl
  | part _ hn' hs =>
      obtain ⟨rfl, hs'⟩ := List.append_inj' he rfl
      cases hs'
      cases hn.symm.trans hn'
      rw [onlyNames_of_continues hs] at honly
      cases honly
  | @object r' _ m s' s'' _ _ _ hm hs =>
      rw [show r' ++ [s', s''] = r' ++ [s'] ++ [s''] by simp] at he
      obtain ⟨rfl, hs'⟩ := List.append_inj' he rfl
      cases hs'
      cases hn.symm.trans hm
      rw [onlyNames_of_continuesObject hs] at honly
      cases honly

/-- **A declaring identifier is more than a name.** -/
theorem DeclaringName.not_nameOnly (hroot : t.kind = .program source) (hc : t.conforms = true)
    (h : DeclaringName t p) : ¬ NameOnly t p := by
  rcases h with ⟨r, q, name, h⟩ | ⟨r, n, hn, hk, rfl⟩
  · obtain ⟨d, hd, -, -, hname⟩ := (introduces_iff hroot hc).mp h
    obtain rfl : d.name.place = p := by rw [hname]
    obtain ⟨above, last, parent, node, s, home, hd⟩ := mem_declarations_iff.mp hd
    by_cases he : d.name.place = above ++ [last] ++ [s]
    · rintro ⟨r', s', m, he', hm, honly⟩
      obtain ⟨rfl, hs⟩ := List.append_inj' (he.symm.trans he') rfl
      cases hs
      cases hm.symm.trans hd.get_node
      rw [onlyNames_of_binds hd.binds] at honly
      cases honly
    · exact hd.path.not_nameOnly he
  · rintro ⟨r', s', m, he, hm, honly⟩
    obtain ⟨rfl, -⟩ := List.append_inj' he rfl
    cases hm.symm.trans hn
    simp [Node.onlyNames, hk, Kind.nameSlot?] at honly

/-- **Every identifier has one role.** -/
theorem exists_role (hroot : t.kind = .program source) (hc : t.conforms = true) {slots : List Slot}
    (hget : t.get? p = some (.mk (.identifier name) slots)) :
    ∃ role, HasRole t p role ∧ ∀ other, HasRole t p other → other = role := by
  have hoccurs : ∀ {name}, Occurs t p name → ¬ DeclaringName t p ∧ ¬ NameOnly t p :=
    fun hocc => ((occurs_iff_not_declaring hroot hc).mp hocc).2
  have hunresolved : (analyze t).isGlobal p = true → ¬ DeclaringName t p ∧ ¬ NameOnly t p := by
    intro h
    obtain ⟨name, hocc, -⟩ := isGlobal_eq_true.mp h
    exact hoccurs hocc
  have hresolved : (∃ i b, (analyze t).bindingFor? p = some (i, b)) →
      ¬ DeclaringName t p ∧ ¬ NameOnly t p := by
    rintro ⟨i, b, hb⟩
    obtain ⟨name, hocc, -⟩ := bindingNumber?_eq_some.mp (bindingFor?_eq_some.mp hb).1
    exact hoccurs hocc
  by_cases hdeclaring : DeclaringName t p
  · refine ⟨.declaring, hdeclaring, fun other h => ?_⟩
    cases other with
    | declaring => rfl
    | nameOnly => exact absurd h (hdeclaring.not_nameOnly hroot hc)
    | unresolved => exact absurd hdeclaring (hunresolved h).1
    | resolved => exact absurd hdeclaring (hresolved h).1
  by_cases honly : NameOnly t p
  · refine ⟨.nameOnly, honly, fun other h => ?_⟩
    cases other with
    | declaring => exact absurd h hdeclaring
    | nameOnly => rfl
    | unresolved => exact absurd honly (hunresolved h).2
    | resolved => exact absurd honly (hresolved h).2
  have hocc : Occurs t p name :=
    (occurs_iff_not_declaring hroot hc).mpr ⟨⟨slots, hget⟩, hdeclaring, honly⟩
  -- an identifier that is looked up is unresolved just if it has no binding
  have hglobal : (analyze t).isGlobal p = true ↔ (analyze t).bindingFor? p = none := by
    rw [bindingFor?_eq_none_iff, bindingNumber?_of_occurs hocc, isGlobal_eq_true]
    constructor
    · rintro ⟨name', hocc', h⟩
      rwa [hocc.name_eq hocc']
    · exact fun h => ⟨name, hocc, h⟩
  cases hb : (analyze t).bindingFor? p with
  | none =>
      refine ⟨.unresolved, hglobal.mpr hb, fun other h => ?_⟩
      cases other with
      | declaring => exact absurd h hdeclaring
      | nameOnly => exact absurd h honly
      | unresolved => rfl
      | resolved =>
          obtain ⟨i, b, h⟩ := h
          rw [hb] at h
          cases h
  | some ib =>
      refine ⟨.resolved, ⟨ib.1, ib.2, hb⟩, fun other h => ?_⟩
      cases other with
      | declaring => exact absurd h hdeclaring
      | nameOnly => exact absurd h honly
      | unresolved =>
          rw [hglobal.mp h] at hb
          cases hb
      | resolved => rfl

/-! ## Steps up and down -/

/-- The identifier is what an increment or a decrement changes. -/
def UpdateOperand (t : Node) (p : Position) : Prop :=
  ∃ r n op leading, t.get? r = some n ∧ n.kind = .update op leading ∧ p = r ++ [first]

/-- Only a step up or down reads and writes at once. -/
theorem useOf_eq_both {parent : Option Node} {step : Option Step} {assigned : Bool} :
    useOf parent step assigned = .both ↔
      assigned = false ∧ ∃ n op leading, parent = some n ∧ n.kind = .update op leading := by
  unfold useOf
  split
  · simp
  · simp
  · simp
  · rename_i op leading slots
    cases assigned with
    | true => simp
    | false => exact ⟨fun _ => ⟨rfl, _, op, leading, rfl, rfl⟩, fun _ => rfl⟩
  · rename_i hupdate _ _ _
    cases assigned with
    | true => simp
    | false =>
        simp only [Bool.false_eq_true, if_false, reduceCtorEq, true_and, false_iff]
        rintro ⟨⟨k, slots⟩, op, leading, rfl, hk⟩
        cases hk
        exact hupdate _ _ _ rfl

/-- The operand of a step up or down is no part of a pattern. -/
theorem not_assigned_of_update {r : Position} {s : Step} {op : String} {leading : Bool}
    (hn : t.get? r = some n) (hk : n.kind = .update op leading) :
    r ++ [s] ∉ assignedByPattern t := by
  intro h
  obtain ⟨r', m, op', target, -, hm, hmk, htarget, hident, hpath, name, slots, hname⟩ :=
    mem_assignedByPattern.mp h
  by_cases he : r' ++ [⟨0, none⟩] = r ++ [s]
  · obtain ⟨rfl, -⟩ := List.append_inj' he rfl
    cases hm.symm.trans hn
    rw [hmk] at hk
    cases hk
  · have hpattern := hpath.isPattern_of_between (Position.prefix_of_prefix_append hpath.isPrefix he)
      (List.prefix_append ..) (by simp) hn
    rw [hk] at hpattern
    cases hpattern

/-- **An identifier is read and written at once** where it is the operand of a step up or down. -/
theorem use_eq_both_iff (hc : t.conforms = true) (hocc : Occurs t p name) :
    (occurrenceAt t p name).use = .both ↔ UpdateOperand t p := by
  obtain ⟨slots, hget⟩ := hocc.get
  rcases List.eq_nil_or_concat p with rfl | ⟨r, s, rfl⟩
  · simp only [occurrenceAt, useOf_eq_both, UpdateOperand]
    simp [Position.parent?]
  · rw [List.concat_eq_append] at *
    obtain ⟨n, hn⟩ := Node.exists_get?_of_prefix hget (List.prefix_append r [s])
    rw [use_concat hn, useOf_eq_both]
    constructor
    · rintro ⟨-, m, op, leading, hm, hk⟩
      cases hm
      have hchild : n.child? s = some (.mk (.identifier name) slots) := by
        rwa [Node.get?_concat, hn] at hget
      have hfits := Node.conforms_iff.mp hc r n hn
      have hsingle : (n.kind.slotNames.all fun slot => !slot.isList) = true := by
        rw [hk]
        rfl
      obtain ⟨hindex, hslot⟩ := index_eq_none hfits hchild (by simpa using hsingle)
      rw [hk] at hslot
      exact ⟨r, n, op, leading, hn, hk, by
        rw [show s = first from Step.eq_one (Nat.lt_one_iff.mp hslot) (by rw [hindex]; rfl)]⟩
    · rintro ⟨r', m, op, leading, hm, hk, he⟩
      obtain ⟨rfl, -⟩ := List.append_inj' he rfl
      cases hm.symm.trans hn
      exact ⟨by simpa using not_assigned_of_update hn hk, n, op, leading, rfl, hk⟩

/-! ## Where an occurrence is listed -/

/-- An occurrence is among the references of its own binding, if it reads. -/
theorem mem_references_of_occurs (hocc : Occurs t p name) :
    p ∈ (bindingOf (declarations t) (analyze t).occurrences d i).references ↔
      (analyze t).bindingNumber? p = some i ∧ (occurrenceAt t p name).use.reads = true := by
  rw [mem_references_iff, bindingNumber?_of_occurs hocc]
  constructor
  · rintro ⟨name', hocc', h⟩
    rwa [hocc.name_eq hocc']
  · exact fun h => ⟨name, hocc, h⟩

/-- An occurrence is among the violations of its own binding, if it writes. -/
theorem mem_violations_of_occurs (hocc : Occurs t p name) :
    p ∈ (bindingOf (declarations t) (analyze t).occurrences d i).violations ↔
      (analyze t).bindingNumber? p = some i ∧ (occurrenceAt t p name).use.writes = true := by
  rw [mem_violations_iff, bindingNumber?_of_occurs hocc]
  constructor
  · rintro (⟨e, he, rfl⟩ | ⟨name', hocc', h⟩)
    · obtain ⟨slots, hget⟩ := hocc.get
      exact absurd hget
        (not_identifier_of_declares (List.mem_filter.mp (List.mem_of_mem_drop he)).1)
    · rwa [hocc.name_eq hocc']
  · exact fun h => Or.inr ⟨name, hocc, h⟩

theorem reads_and_writes_iff (u : Use) : u.reads = true ∧ u.writes = true ↔ u = .both := by
  cases u <;> simp [Use.reads, Use.writes]

/-- The places at which occurrences read a binding, in the order of the walk. -/
theorem sublist_references (hb : b ∈ (analyze t).bindings) : b.references.Sublist t.places := by
  obtain ⟨i, d, -, rfl⟩ := mem_bindings_iff.mp hb
  exact ((List.filter_sublist.trans List.filter_sublist).map _).trans (sublist_occurrence_places t)

/-- No occurrence changes a binding twice. -/
theorem count_violations_le_one (hb : b ∈ (analyze t).bindings) (hocc : Occurs t p name) :
    b.violations.count p ≤ 1 := by
  obtain ⟨i, d, -, rfl⟩ := mem_bindings_iff.mp hb
  have hagain : ((((declarations t).filter (sameKey d)).drop 1).map (·.place)).count p = 0 := by
    rw [List.count_eq_zero, List.mem_map]
    rintro ⟨e, he, rfl⟩
    obtain ⟨slots, hget⟩ := hocc.get
    exact not_identifier_of_declares (List.mem_filter.mp (List.mem_of_mem_drop he)).1 hget
  show (_ ++ _ : List Position).count p ≤ 1
  rw [List.count_append]
  refine Nat.le_trans (Nat.add_le_add_right (Nat.le_of_eq hagain) _) ?_
  rw [Nat.zero_add]
  refine List.nodup_iff_count.mp (List.Nodup.sublist ?_ (nodup_occurrence_places t)) p
  exact (List.filter_sublist.trans List.filter_sublist).map _

/-! ## Declarations in order -/

/-- Declarations are found in the order of the walk. -/
theorem pairwise_declarations (t : Node) :
    (declarations t).Pairwise fun d e => walkOrder t d.place ≤ walkOrder t e.place := by
  unfold declarations
  rw [List.pairwise_flatMap]
  constructor
  · -- all that one node declares has the place of the node
    rintro site -
    refine List.pairwise_iff_forall_sublist.mpr fun {d e} hde => ?_
    have hplace : ∀ f ∈ [d, e], f.place = site.place := fun f hf => place_of_mem_declaredAt (hde.mem hf)
    have hsame : d.place = e.place := (hplace d (by simp)).trans (hplace e (by simp)).symm
    exact Nat.le_of_eq (congrArg (walkOrder t) hsame)
  · refine List.Pairwise.imp ?_ (List.pairwise_map.mp (pairwise_walkOrder t))
    rintro site site' hlt d hd e he
    rw [place_of_mem_declaredAt hd, place_of_mem_declaredAt he]
    exact Nat.le_of_lt hlt

theorem firstDeclarations_sublist : ∀ (seen : List (Position × String)) (ds : List Declaration),
    (firstDeclarations seen ds).Sublist ds
  | _, [] => List.nil_sublist _
  | seen, d :: rest => by
      rw [firstDeclarations_cons]
      split
      · exact (firstDeclarations_sublist seen rest).cons d
      · exact (firstDeclarations_sublist _ rest).cons_cons d

/-- **Bindings are in the order of their first declarations.** -/
theorem pairwise_bindings (t : Node) :
    (analyze t).bindings.Pairwise fun b c => walkOrder t b.place ≤ walkOrder t c.place := by
  have hfirsts := (pairwise_declarations t).sublist (firstDeclarations_sublist [] (declarations t))
  rw [List.pairwise_iff_getElem] at hfirsts ⊢
  intro i j hi hj hij
  have hlength := length_bindings t
  have hplace : ∀ (k : Nat) (hk : k < (analyze t).bindings.length),
      (analyze t).bindings[k].place =
        ((firstDeclarations [] (declarations t)).get ⟨k, hlength ▸ hk⟩).place := by
    intro k hk
    have hget := getElem?_bindings t k
    rw [List.getElem?_eq_getElem hk, List.getElem?_eq_getElem (hlength ▸ hk), Option.map_some] at hget
    rw [Option.some.inj hget]
    rfl
  rw [hplace i hi, hplace j hj]
  exact hfirsts i j _ _ hij

/-- The first declaration of a name in a scope is where its binding is. -/
theorem walkOrder_first_le {e : Declaration} (hd : d ∈ firstDeclarations [] (declarations t))
    (he : e ∈ declarations t) (hkey : e.key = d.key) : walkOrder t d.place ≤ walkOrder t e.place := by
  obtain ⟨rest, hrest⟩ := filter_key_eq_cons hd
  have hsorted := (pairwise_declarations t).sublist
    (List.filter_sublist (p := sameKey d) (l := declarations t))
  rw [hrest, List.pairwise_cons] at hsorted
  have hmem : e ∈ (declarations t).filter (sameKey d) :=
    List.mem_filter.mpr ⟨he, sameKey_iff.mpr hkey⟩
  rw [hrest, List.mem_cons] at hmem
  rcases hmem with rfl | hmem
  · exact Nat.le_refl _
  · exact hsorted.1 e hmem

/-! ## Further declarations -/

theorem isPattern_of_binds {parent k : Kind} {shape : List Bool} {s : Step}
    {home : Home × BindingKind} (h : bindsBy parent k shape s = some home) : k.isPattern = false := by
  rcases bindsBy_cases h with ⟨-, hk | rfl⟩ | ⟨-, hk, -⟩ | ⟨rfl, -⟩
  · cases k <;> first | rfl | cases hk
  · rfl
  · cases k <;> first | rfl | cases hk
  · rfl

/-- The node that declares an identifier is the only one that does. -/
theorem place_eq_of_name_place {e : Declaration} (hd : d ∈ declarations t) (he : e ∈ declarations t)
    (hname : d.name.place = e.name.place) : d.place = e.place := by
  have habove : ∀ {d e : Declaration}, d ∈ declarations t → e ∈ declarations t →
      d.name.place = e.name.place → d.place <+: e.place := by
    intro d e hd he hname
    obtain ⟨above, last, parent, node, s, home, hd⟩ := mem_declarations_iff.mp hd
    obtain ⟨above', last', parent', node', s', home', he⟩ := mem_declarations_iff.mp he
    have hget := hd.place_eq ▸ hd.get_node
    have hbelow : d.place <+: d.name.place := by
      rw [hd.place_eq]
      exact (List.prefix_append ..).trans hd.path.isPrefix
    rcases he.below_of_name_below hget (isPattern_of_binds hd.binds) (hname ▸ hbelow) with h | h
    · exact h
    · have hpath := hd.path.isPrefix
      rw [hname, ← h, hd.place_eq] at hpath
      exact absurd hpath (Position.not_append_prefix (by simp))
  exact (habove hd he hname).eq_of_length_le (habove he hd hname.symm).length_le

/-- **No identifier declares twice.** -/
theorem nodup_declared_names (t : Node) : ((declarations t).map fun d => d.name.place).Nodup := by
  have hplaces := List.pairwise_map.mp (Node.places_nodup t)
  rw [List.Nodup, List.pairwise_map, declarations_eq, List.pairwise_flatMap]
  constructor
  · rintro site -
    unfold declaredAt
    split
    · exact .nil
    · exact List.pairwise_map.mp (nodup_declarationsAt _ _ _ site)
  · refine List.Pairwise.imp_of_mem ?_ hplaces
    intro site site' hsite hsite' hne d hd e he hname
    refine hne ?_
    rw [← place_of_mem_declaredAt hd, ← place_of_mem_declaredAt he]
    exact place_eq_of_name_place (List.mem_flatMap.mpr ⟨site, hsite, hd⟩)
      (List.mem_flatMap.mpr ⟨site', hsite', he⟩) hname

theorem eq_of_name_place {e : Declaration} (hd : d ∈ declarations t) (he : e ∈ declarations t)
    (hname : d.name.place = e.name.place) : d = e := by
  obtain ⟨i, hi⟩ := List.mem_iff_getElem?.mp hd
  obtain ⟨j, hj⟩ := List.mem_iff_getElem?.mp he
  have hlt := (List.getElem?_eq_some_iff.mp hi).1
  have hij : i = j := (List.getElem?_inj (by simpa using hlt) (nodup_declared_names t)).mp (by
    simp [hi, hj, hname])
  rw [hij, hj] at hi
  exact (Option.some.inj hi).symm

/-- The node at `p` declares the name of a binding in the scope of the binding, beside its first
declaration. -/
def DeclaresAgain (t : Node) (b : Binding) (p : Position) : Prop :=
  ∃ x y, x ≠ y ∧ x.name = b.name ∧ y.name = b.name ∧ Introduces t b.place b.scope.place x ∧
    Introduces t p b.scope.place y

/-- **What declares a name again** are the declarations behind the first one. -/
theorem declaresAgain_iff (hroot : t.kind = .program source) (hc : t.conforms = true)
    (hd : d ∈ firstDeclarations [] (declarations t)) :
    DeclaresAgain t (bindingOf (declarations t) (analyze t).occurrences d i) p ↔
      ∃ e ∈ ((declarations t).filter (sameKey d)).drop 1, e.place = p := by
  obtain ⟨rest, hrest⟩ := filter_key_eq_cons hd
  have hmem : ∀ {e}, e ∈ declarations t → e.scope.place = d.scope.place → e.name.name = d.name.name →
      e = d ∨ e ∈ rest := by
    intro e he hscope hname
    rw [← List.mem_cons, ← hrest]
    exact List.mem_filter.mpr ⟨he, sameKey_iff.mpr (Prod.ext hscope hname)⟩
  rw [hrest, List.drop_one, List.tail_cons, DeclaresAgain]
  simp only [introduces_iff hroot hc, bindingOf]
  constructor
  · rintro ⟨x, y, hne, hx, hy, ⟨e, he, heplace, hescope, rfl⟩, f, hf, rfl, hfscope, rfl⟩
    rcases hmem hf hfscope hy with rfl | hf
    · -- the first declaration stands at the same node as a further one
      rcases hmem he hescope hx with rfl | he
      · exact absurd rfl hne
      · exact ⟨e, he, heplace⟩
    · exact ⟨f, hf, rfl⟩
  · rintro ⟨e, he, rfl⟩
    have hmemd := (mem_of_mem_firstDeclarations hd).1
    have hfilter : e ∈ (declarations t).filter (sameKey d) := hrest ▸ List.mem_cons_of_mem d he
    obtain ⟨hmeme, hkey⟩ := List.mem_filter.mp hfilter
    obtain ⟨hscope, hname⟩ := Prod.mk.inj (sameKey_iff.mp hkey)
    refine ⟨d.name, e.name, fun heq => ?_, rfl, hname, ⟨d, hmemd, rfl, rfl, rfl⟩, e, hmeme, rfl,
      hscope, rfl⟩
    have hnodup := (nodup_declarations t).sublist
      (List.filter_sublist (p := sameKey d) (l := declarations t))
    rw [hrest, List.nodup_cons] at hnodup
    rw [eq_of_name_place hmemd hmeme (by rw [heq])] at hnodup
    exact hnodup.1 he

/-! ## The use lists -/

/-- **What a resolved identifier is listed by.**  It stands once among the references or the
violations of its binding, in both where it is stepped up or down, and in no list of another
binding. -/
theorem listed_of_bindingFor? (hc : t.conforms = true)
    (h : (analyze t).bindingFor? p = some (i, b)) :
    (analyze t).bindings[i]? = some b ∧ b.references.count p ≤ 1 ∧ b.violations.count p ≤ 1 ∧
      (p ∈ b.references ∨ p ∈ b.violations) ∧
      (p ∈ b.references ∧ p ∈ b.violations ↔ UpdateOperand t p) ∧
      ∀ j c, (analyze t).bindings[j]? = some c → j ≠ i → p ∉ c.references ∧ p ∉ c.violations := by
  obtain ⟨hnumber, hb⟩ := bindingFor?_eq_some.mp h
  obtain ⟨name, hocc, -⟩ := bindingNumber?_eq_some.mp hnumber
  have hmem := List.mem_of_getElem? hb
  have hlisted : ∀ {j c}, (analyze t).bindings[j]? = some c →
      (p ∈ c.references ↔ j = i ∧ (occurrenceAt t p name).use.reads = true) ∧
        (p ∈ c.violations ↔ j = i ∧ (occurrenceAt t p name).use.writes = true) := by
    intro j c hj
    rw [getElem?_bindings] at hj
    obtain ⟨d, -, rfl⟩ := Option.map_eq_some_iff.mp hj
    rw [mem_references_of_occurs hocc, mem_violations_of_occurs hocc, hnumber, Option.some.injEq,
      @eq_comm _ i j]
    exact ⟨.rfl, .rfl⟩
  obtain ⟨hreads, hwrites⟩ := hlisted hb
  refine ⟨hb, List.nodup_iff_count.mp (nodup_references hmem) p, count_violations_le_one hmem hocc,
    ?_, ?_, fun j c hj hne => ?_⟩
  · rw [hreads, hwrites]
    rcases reads_or_writes (occurrenceAt t p name).use with hu | hu
    · exact Or.inl ⟨rfl, hu⟩
    · exact Or.inr ⟨rfl, hu⟩
  · rw [hreads, hwrites, ← use_eq_both_iff hc hocc, ← reads_and_writes_iff]
    simp
  · obtain ⟨hreads, hwrites⟩ := hlisted hj
    exact ⟨fun hp => hne (hreads.mp hp).1, fun hp => hne (hwrites.mp hp).1⟩

theorem bindingFor?_of_occurs (hocc : Occurs t p name)
    (hbinding : (occurrenceAt t p name).binding = some i) (hb : (analyze t).bindings[i]? = some b) :
    (analyze t).bindingFor? p = some (i, b) :=
  bindingFor?_eq_some.mpr ⟨(bindingNumber?_of_occurs hocc).trans hbinding, hb⟩

/-- **What a binding lists.**  Its references are identifiers resolved to it, in the order of the walk.
Its violations are such identifiers, and the further declarations of its name. -/
theorem lists_of_mem_bindings (hroot : t.kind = .program source) (hc : t.conforms = true)
    (hb : b ∈ (analyze t).bindings) :
    b.references.Pairwise (fun p q => walkOrder t p < walkOrder t q) ∧
      (∀ p ∈ b.references, ∃ i, (analyze t).bindingFor? p = some (i, b)) ∧
      (∀ p ∈ b.violations, (∃ i, (analyze t).bindingFor? p = some (i, b)) ∨ DeclaresAgain t b p) ∧
      ∀ p, DeclaresAgain t b p → p ∈ b.violations := by
  have hsorted := (pairwise_walkOrder t).sublist (sublist_references hb)
  obtain ⟨i, hi⟩ := List.mem_iff_getElem?.mp hb
  have hget := hi
  rw [getElem?_bindings] at hget
  obtain ⟨d, hd, rfl⟩ := Option.map_eq_some_iff.mp hget
  have hfirst := List.mem_of_getElem? hd
  refine ⟨hsorted, fun p hp => ?_, fun p hp => ?_, fun p hp => ?_⟩
  · obtain ⟨name, hocc, hbinding, -⟩ := mem_references_iff.mp hp
    exact ⟨i, bindingFor?_of_occurs hocc hbinding hi⟩
  · rcases mem_violations_iff.mp hp with he | ⟨name, hocc, hbinding, -⟩
    · exact Or.inr ((declaresAgain_iff hroot hc hfirst).mpr he)
    · exact Or.inl ⟨i, bindingFor?_of_occurs hocc hbinding hi⟩
  · exact mem_violations_iff.mpr (Or.inl ((declaresAgain_iff hroot hc hfirst).mp hp))

/-- **A binding stands at the first declaration of its name** in its scope. -/
theorem first_of_mem_bindings (hroot : t.kind = .program source) (hc : t.conforms = true)
    (hb : b ∈ (analyze t).bindings) :
    (∃ x, x.name = b.name ∧ Introduces t b.place b.scope.place x) ∧
      ∀ p x, x.name = b.name → Introduces t p b.scope.place x →
        walkOrder t b.place ≤ walkOrder t p := by
  obtain ⟨i, d, hd, rfl⟩ := mem_bindings_iff.mp hb
  have hfirst := List.mem_of_getElem? hd
  refine ⟨⟨d.name, rfl, (introduces_iff hroot hc).mpr
    ⟨d, (mem_of_mem_firstDeclarations hfirst).1, rfl, rfl, rfl⟩⟩, ?_⟩
  intro p x hname hx
  obtain ⟨e, he, rfl, hscope, rfl⟩ := (introduces_iff hroot hc).mp hx
  exact walkOrder_first_le hfirst he (Prod.ext hscope hname)

/-- **Use lists are complete and exclusive.**  Each identifier of a program has one role.  What is
resolved to a binding is listed by this binding only, once where it is read and once where it is
written, in the order of the walk; the lists hold nothing else but further declarations.  Each name of
each scope has one binding, at its first declaration, and bindings come in the order of these. -/
theorem useLists_exact {t : Node} {source : String} (hroot : t.kind = .program source)
    (hc : t.conforms = true) :
    (∀ p name slots, t.get? p = some (.mk (.identifier name) slots) →
      ∃ role, HasRole t p role ∧ ∀ other, HasRole t p other → other = role) ∧
    (∀ p i b, (analyze t).bindingFor? p = some (i, b) →
      (analyze t).bindings[i]? = some b ∧ b.references.count p ≤ 1 ∧ b.violations.count p ≤ 1 ∧
      (p ∈ b.references ∨ p ∈ b.violations) ∧
      (p ∈ b.references ∧ p ∈ b.violations ↔ UpdateOperand t p) ∧
      ∀ j c, (analyze t).bindings[j]? = some c → j ≠ i → p ∉ c.references ∧ p ∉ c.violations) ∧
    (∀ b ∈ (analyze t).bindings,
      b.references.Pairwise (fun p q => walkOrder t p < walkOrder t q) ∧
      (∀ p ∈ b.references, ∃ i, (analyze t).bindingFor? p = some (i, b)) ∧
      (∀ p ∈ b.violations, (∃ i, (analyze t).bindingFor? p = some (i, b)) ∨ DeclaresAgain t b p) ∧
      ∀ p, DeclaresAgain t b p → p ∈ b.violations) ∧
    (∀ q name, (HoldsName t q name ↔ ∃ i, BoundAt t i q name) ∧
      ∀ i j, BoundAt t i q name → BoundAt t j q name → i = j) ∧
    (∀ b ∈ (analyze t).bindings, (∃ x, x.name = b.name ∧ Introduces t b.place b.scope.place x) ∧
      ∀ p x, x.name = b.name → Introduces t p b.scope.place x →
        walkOrder t b.place ≤ walkOrder t p) ∧
    (analyze t).bindings.Pairwise (fun b c => walkOrder t b.place ≤ walkOrder t c.place) := by
  refine ⟨fun p name slots => exists_role hroot hc, fun p i b => listed_of_bindingFor? hc,
    fun b => lists_of_mem_bindings hroot hc, fun q name => ⟨(exists_boundAt_iff hroot hc).symm,
      fun i j => BoundAt.unique⟩, fun b => first_of_mem_bindings hroot hc, pairwise_bindings t⟩

/-- `var x, x; x++; (function () { x = z; z.x; })();` -/
def usedTwice : Node :=
  .mk (.program "script") [.many [
    some (.mk (.variableDeclaration .var) [.many [
      some (.declarator (.ident "x") none), some (.declarator (.ident "x") none)]]),
    some (.mk (.expressionStatement none) [
      .one (some (.unary1 (.update "++" false) (.ident "x")))]),
    some (.mk (.expressionStatement none) [.one (some (.callOf
      (.mk (.functionExpression ⟨false, false, false⟩) [.one none, .many [],
        .one (some (.mk .block [.many [
          some (.mk (.expressionStatement none) [
            .one (some (.binary2 (.assignment "=") (.ident "x") (.ident "z")))]),
          some (.mk (.expressionStatement none) [
            .one (some (.memberOf false (.ident "z") (.ident "x")))])]]))]) []))])]]

/-- The one binding of the tree lists its second declarator, the step up twice and the assignment. -/
theorem useLists_exact_usedTwice :
    ∃ b, usedTwice.conforms = true ∧ (analyze usedTwice).bindings = [b] ∧
      b.references = [[⟨0, some 1⟩, first, first]] ∧
      b.violations = [[⟨0, some 0⟩, ⟨0, some 1⟩], [⟨0, some 1⟩, first, first],
        [⟨0, some 2⟩, first, first, ⟨2, none⟩, ⟨0, some 0⟩, first, first]] ∧
      UpdateOperand usedTwice [⟨0, some 1⟩, first, first] ∧
      DeclaresAgain usedTwice b [⟨0, some 0⟩, ⟨0, some 1⟩] := by
  have hc : usedTwice.conforms = true := by decide
  have h := useLists_exact (t := usedTwice) rfl hc
  refine ⟨_, hc, rfl, rfl, rfl, ?_, ?_⟩
  · exact (h.2.1 [⟨0, some 1⟩, first, first] 0 _ rfl).2.2.2.2.1.mp ⟨by decide, by decide⟩
  · refine ((h.2.2.1 _ (by decide)).2.2.1 [⟨0, some 0⟩, ⟨0, some 1⟩] (by decide)).resolve_left ?_
    rintro ⟨i, hi⟩
    cases hi

end Descramble

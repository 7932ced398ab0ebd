import Descramble.Proofs.Scope.Enclosing
import Descramble.Scope.Analysis

/-!
# Resolution of names

* `Declaration.key` — a binding is known by its scope and its name.
* `firstDeclarations` — one declaration for each key, the first: `exists_first_of_mem`,
  `nodup_keys_firstDeclarations`, `filter_key_eq_cons`.
* `resolve?_eq_none_iff`, `resolve?_eq_some` — an identifier refers to the binding of its name in
  the nearest enclosing scope that declares the name.
* `Occurs`, `mem_occurrences_iff`, `occurrence?_eq_some_iff` — the identifiers that refer at all.
* `getElem?_bindings`, `mem_uses_iff` — the bindings by number, and what counts as their uses.
-/

set_option autoImplicit false

namespace Descramble

/-- What identifies a binding: the place of its scope and its name. -/
def Declaration.key (d : Declaration) : Position × String := (d.scope.place, d.name.name)

/-! ## First declarations -/

theorem firstDeclarations_cons (seen : List (Position × String)) (d : Declaration)
    (rest : List Declaration) :
    firstDeclarations seen (d :: rest) =
      if d.key ∈ seen then firstDeclarations seen rest
      else d :: firstDeclarations (d.key :: seen) rest := by
  rw [firstDeclarations]
  simp only [List.contains_iff_mem]
  rfl

theorem mem_of_mem_firstDeclarations {d : Declaration} : ∀ {seen : List (Position × String)}
    {ds : List Declaration}, d ∈ firstDeclarations seen ds → d ∈ ds ∧ d.key ∉ seen
  | _, [], h => by simp [firstDeclarations] at h
  | seen, e :: rest, h => by
      rw [firstDeclarations_cons] at h
      split at h
      · obtain ⟨h1, h2⟩ := mem_of_mem_firstDeclarations h
        exact ⟨List.mem_cons_of_mem _ h1, h2⟩
      · rename_i hseen
        rcases List.mem_cons.mp h with rfl | h
        · exact ⟨List.mem_cons_self, hseen⟩
        · obtain ⟨h1, h2⟩ := mem_of_mem_firstDeclarations h
          exact ⟨List.mem_cons_of_mem _ h1, fun hm => h2 (List.mem_cons_of_mem _ hm)⟩

theorem exists_first_of_mem' {d : Declaration} : ∀ {seen : List (Position × String)}
    {ds : List Declaration}, d ∈ ds → d.key ∉ seen →
      ∃ e ∈ firstDeclarations seen ds, e.key = d.key
  | _, [], h, _ => by cases h
  | seen, e :: rest, h, hseen => by
      rw [firstDeclarations_cons]
      by_cases he : e.key = d.key
      · rw [if_neg (by rwa [he])]
        exact ⟨e, List.mem_cons_self, he⟩
      · have hd : d ∈ rest := by
          rcases List.mem_cons.mp h with rfl | h
          · exact absurd rfl he
          · exact h
        split
        · exact exists_first_of_mem' hd hseen
        · obtain ⟨f, hf, hk⟩ := @exists_first_of_mem' d (e.key :: seen) rest hd
            (fun hm => by
              rcases List.mem_cons.mp hm with hm | hm
              · exact he hm.symm
              · exact hseen hm)
          exact ⟨f, List.mem_cons_of_mem _ hf, hk⟩

/-- Every declaration has a first one with its key. -/
theorem exists_first_of_mem {d : Declaration} {ds : List Declaration} (h : d ∈ ds) :
    ∃ e ∈ firstDeclarations [] ds, e.key = d.key := exists_first_of_mem' h (by simp)

theorem nodup_keys_firstDeclarations : ∀ (seen : List (Position × String)) (ds : List Declaration),
    ((firstDeclarations seen ds).map Declaration.key).Nodup
  | _, [] => by simp [firstDeclarations]
  | seen, d :: rest => by
      rw [firstDeclarations_cons]
      split
      · exact nodup_keys_firstDeclarations seen rest
      · rw [List.map_cons, List.nodup_cons]
        refine ⟨?_, nodup_keys_firstDeclarations _ rest⟩
        intro hm
        obtain ⟨e, he, hk⟩ := List.mem_map.mp hm
        exact (mem_of_mem_firstDeclarations he).2 (by rw [hk]; exact List.mem_cons_self)

/-- The first declarations with equal keys are one. -/
theorem first_eq_of_key_eq {ds : List Declaration} {d e : Declaration} {i j : Nat}
    (hd : (firstDeclarations [] ds)[i]? = some d) (he : (firstDeclarations [] ds)[j]? = some e)
    (hk : d.key = e.key) : i = j := by
  have hnd := nodup_keys_firstDeclarations [] ds
  obtain ⟨hi, -⟩ := List.getElem?_eq_some_iff.mp hd
  refine (List.getElem?_inj (by simpa using hi) hnd).mp ?_
  rw [List.getElem?_map, List.getElem?_map, hd, he, Option.map_some, Option.map_some, hk]

/-- Does a declaration have the key of another? -/
def sameKey (first d : Declaration) : Bool :=
  d.scope.place == first.scope.place && d.name.name == first.name.name

theorem sameKey_iff {d e : Declaration} : sameKey d e = true ↔ e.key = d.key := by
  simp [sameKey, Declaration.key]

theorem filter_key_eq_cons' {d : Declaration} : ∀ {seen : List (Position × String)}
    {ds : List Declaration}, d ∈ firstDeclarations seen ds →
      ∃ rest, ds.filter (sameKey d) = d :: rest
  | _, [], h => by simp [firstDeclarations] at h
  | seen, e :: rest, h => by
      have hseen := (mem_of_mem_firstDeclarations h).2
      rw [firstDeclarations_cons] at h
      split at h
      · rename_i he
        have hne : ¬ sameKey d e = true := by
          rw [sameKey_iff]
          intro hk
          exact hseen (by rwa [← hk])
        rw [List.filter_cons_of_neg hne]
        exact filter_key_eq_cons' h
      · rcases List.mem_cons.mp h with rfl | h
        · rw [List.filter_cons_of_pos (sameKey_iff.mpr rfl)]
          exact ⟨_, rfl⟩
        · have hne : ¬ sameKey d e = true := by
            rw [sameKey_iff]
            intro hk
            exact (mem_of_mem_firstDeclarations h).2 (by rw [← hk]; exact List.mem_cons_self)
          rw [List.filter_cons_of_neg hne]
          exact filter_key_eq_cons' h

/-- A first declaration comes first among the declarations with its key. -/
theorem filter_key_eq_cons {d : Declaration} {ds : List Declaration}
    (h : d ∈ firstDeclarations [] ds) : ∃ rest, ds.filter (sameKey d) = d :: rest :=
  filter_key_eq_cons' h

/-- A name that is declared once has no further declarations. -/
theorem further_eq_nil {ds : List Declaration} (hnodup : ds.Nodup) {d : Declaration}
    (hd : d ∈ firstDeclarations [] ds) (honly : ∀ f ∈ ds, f.key = d.key → f = d) :
    (ds.filter (sameKey d)).drop 1 = [] := by
  obtain ⟨rest, hrest⟩ := filter_key_eq_cons hd
  have hfilter : (ds.filter (sameKey d)).Nodup := hnodup.filter _
  rw [hrest, List.nodup_cons] at hfilter
  rw [hrest, List.drop_one, List.tail_cons, List.eq_nil_iff_forall_not_mem]
  intro f hf
  obtain ⟨hmem, hkey⟩ := List.mem_filter.mp (hrest ▸ List.mem_cons_of_mem d hf)
  rw [honly f hmem (sameKey_iff.mp hkey)] at hf
  exact hfilter.1 hf

/-! ## Looking names up -/

/-- Does some declaration hold a name in a scope? -/
def declaresIn (ds : List Declaration) (scope : Scope) (name : String) : Prop :=
  ∃ d ∈ ds, d.key = (scope.place, name)

theorem findIdx?_key {firsts : List Declaration} {scope : Scope} {name : String} {i : Nat} :
    (firsts.findIdx? fun d => d.scope.place == scope.place && d.name.name == name) = some i →
      ∃ d, firsts[i]? = some d ∧ d.key = (scope.place, name) := by
  intro h
  obtain ⟨hi, hp, -⟩ := List.findIdx?_eq_some_iff_getElem.mp h
  refine ⟨firsts[i], List.getElem?_eq_getElem hi, ?_⟩
  simpa [Declaration.key] using hp

/-- A name is global where no enclosing scope declares it. -/
theorem resolve?_eq_none_iff {ds : List Declaration} {scopes : List Scope} {name : String} :
    resolve? (firstDeclarations [] ds) scopes name = none ↔
      ∀ scope ∈ scopes, ¬ declaresIn ds scope name := by
  unfold resolve?
  rw [List.findSome?_eq_none_iff]
  constructor
  · intro h scope hs hd
    obtain ⟨d, hd, hk⟩ := hd
    obtain ⟨e, he, hek⟩ := exists_first_of_mem hd
    have := List.findIdx?_eq_none_iff.mp (h scope hs) e he
    rw [hk] at hek
    simp only [Declaration.key, Prod.mk.injEq] at hek
    simp [hek.1, hek.2] at this
  · intro h scope hs
    rw [List.findIdx?_eq_none_iff]
    intro d hd
    by_cases hk : d.scope.place = scope.place ∧ d.name.name = name
    · exact absurd ⟨d, (mem_of_mem_firstDeclarations hd).1, by simp [Declaration.key, hk.1, hk.2]⟩
        (h scope hs)
    · simpa using hk

/-- A name that is not global refers to the first declaration in the nearest scope that declares
it. -/
theorem resolve?_eq_some {ds : List Declaration} {scopes : List Scope} {name : String} {i : Nat}
    (h : resolve? (firstDeclarations [] ds) scopes name = some i) :
    ∃ inner scope outer d, scopes = inner ++ scope :: outer ∧
      (firstDeclarations [] ds)[i]? = some d ∧ d.key = (scope.place, name) ∧
      ∀ s ∈ inner, ¬ declaresIn ds s name := by
  unfold resolve? at h
  obtain ⟨inner, scope, outer, hsplit, hfound, hinner⟩ := List.findSome?_eq_some_iff.mp h
  obtain ⟨d, hd, hk⟩ := findIdx?_key hfound
  refine ⟨inner, scope, outer, d, hsplit, hd, hk, ?_⟩
  intro s hs
  have hnone : resolve? (firstDeclarations [] ds) [s] name = none := by
    simp only [resolve?, List.findSome?_cons, hinner s hs, List.findSome?_nil]
  exact resolve?_eq_none_iff.mp hnone s (by simp)

/-- Resolution by a nearest scope that declares the name. -/
theorem resolve?_of_nearest {ds : List Declaration} {inner outer : List Scope} {scope : Scope}
    {name : String} {d : Declaration} {i : Nat} (hd : (firstDeclarations [] ds)[i]? = some d)
    (hk : d.key = (scope.place, name)) (hinner : ∀ s ∈ inner, ¬ declaresIn ds s name) :
    resolve? (firstDeclarations [] ds) (inner ++ scope :: outer) name = some i := by
  cases hr : resolve? (firstDeclarations [] ds) (inner ++ scope :: outer) name with
  | none =>
      refine absurd ⟨d, (mem_of_mem_firstDeclarations (List.mem_of_getElem? hd)).1, hk⟩
        (resolve?_eq_none_iff.mp hr scope (by simp))
  | some j =>
      obtain ⟨inner', scope', outer', e, hsplit, he, hek, hinner'⟩ := resolve?_eq_some hr
      have hdm := (mem_of_mem_firstDeclarations (List.mem_of_getElem? hd)).1
      have hem := (mem_of_mem_firstDeclarations (List.mem_of_getElem? he)).1
      -- two nearest scopes are one, or one of them would lie inside the other
      have hscope : scope' = scope := by
        rcases List.append_eq_append_iff.mp hsplit with ⟨as, has, hbs⟩ | ⟨as, has, hbs⟩
        · cases as with
          | nil => simp at hbs; exact hbs.1.symm
          | cons a as =>
              simp only [List.cons_append, List.cons.injEq] at hbs
              exact absurd ⟨d, hdm, hk⟩ (hinner' scope (by rw [has, hbs.1]; simp))
        · cases as with
          | nil => simp at hbs; exact hbs.1
          | cons a as =>
              simp only [List.cons_append, List.cons.injEq] at hbs
              exact absurd ⟨e, hem, hek⟩ (hinner scope' (by rw [has, hbs.1]; simp))
      rw [first_eq_of_key_eq he hd (by rw [hek, hk, hscope])]

/-- A name that is looked up among fewer declarations is found where it was found, if it is still
declared there. -/
theorem resolve?_of_subset {ds ds' : List Declaration} (hsub : ∀ f ∈ ds', f ∈ ds) {d e : Declaration}
    {i j : Nat} (hd : (firstDeclarations [] ds)[i]? = some d)
    (he : (firstDeclarations [] ds')[j]? = some e) (hkey : e.key = d.key) {scopes : List Scope}
    {name : String} (h : resolve? (firstDeclarations [] ds) scopes name = some i) :
    resolve? (firstDeclarations [] ds') scopes name = some j := by
  obtain ⟨inner, scope, outer, d', rfl, hd', hk, hinner⟩ := resolve?_eq_some h
  rw [hd] at hd'
  cases hd'
  exact resolve?_of_nearest he (hkey.trans hk) fun s hs ⟨f, hf, hfk⟩ => hinner s hs ⟨f, hsub f hf, hfk⟩

/-! ## Occurrences -/

theorem mem_selfNamePlaces {t : Node} {p : Position} :
    p ∈ selfNamePlaces t ↔ ∃ q n c, p = q ++ [⟨0, none⟩] ∧ q ≠ [] ∧ t.get? q = some n ∧
      n.kind = .classExpression ∧ n.child? ⟨0, none⟩ = some c := by
  unfold selfNamePlaces
  rw [List.mem_filterMap]
  constructor
  · rintro ⟨⟨place, node⟩, hsite, h⟩
    have hget := Node.mem_sites_iff.mp hsite
    simp only at h hget
    split at h
    · cases h
      exact ⟨_, _, _, rfl, by simp, hget, rfl, rfl⟩
    · cases h
  · rintro ⟨q, ⟨k, slots⟩, c, rfl, hq, hget, hk, hc⟩
    refine ⟨⟨q, .mk k slots⟩, Node.mem_sites_iff.mpr hget, ?_⟩
    simp only [Node.kind_mk] at hk
    subst hk
    obtain ⟨step, rest, rfl⟩ := List.exists_cons_of_ne_nil hq
    rw [Node.child?_mk] at hc
    match slots, hc with
    | .one (some _) :: _, _ => rfl

/-- What the analysis skips: identifiers that declare, and those that stand for no value. -/
theorem not_skipped_iff {t : Node} {p : Position} {stands : Bool} :
    ¬ ((((declarations t).map (·.name.place) ++ selfNamePlaces t).contains p || !stands) = true) ↔
      ((∀ d ∈ declarations t, d.name.place ≠ p) ∧ p ∉ selfNamePlaces t) ∧ stands = true := by
  simp only [Bool.or_eq_true, List.contains_iff_mem, List.mem_append, List.mem_map,
    Bool.not_eq_true', not_or, Bool.not_eq_false, not_exists, not_and]

/-- An identifier at a place stands for a value and declares nothing. -/
structure Occurs (t : Node) (p : Position) (name : String) : Prop where
  get : ∃ slots, t.get? p = some (.mk (.identifier name) slots)
  value : standsForValue (p.parent?.bind t.get?) p.getLast? = true
  not_declaring : ∀ d ∈ declarations t, d.name.place ≠ p
  not_self : p ∉ selfNamePlaces t

/-- The occurrence that an identifier at a place makes. -/
def occurrenceAt (t : Node) (p : Position) (name : String) : Occurrence where
  place := p
  name := name
  use := useOf (p.parent?.bind t.get?) p.getLast? ((assignedByPattern t).contains p)
  binding := resolve? (firstDeclarations [] (declarations t)) (scopesAround t p) name

theorem mem_occurrences_iff {t : Node} {o : Occurrence} :
    o ∈ (analyze t).occurrences ↔ ∃ p name, Occurs t p name ∧ o = occurrenceAt t p name := by
  show o ∈ occurrences t (declarations t) ↔ _
  unfold occurrences
  rw [List.mem_filterMap]
  constructor
  · rintro ⟨⟨p, ⟨k, slots⟩⟩, hsite, h⟩
    have hget := Node.mem_sites_iff.mp hsite
    simp only [Node.kind_mk] at h hget
    split at h
    · rename_i name
      split at h
      · cases h
      · rename_i hcond
        obtain ⟨⟨hdeclaring, hself⟩, hvalue⟩ := not_skipped_iff.mp hcond
        cases h
        exact ⟨p, name, ⟨⟨slots, hget⟩, hvalue, hdeclaring, hself⟩, rfl⟩
    · cases h
  · rintro ⟨p, name, hocc, rfl⟩
    obtain ⟨slots, hget⟩ := hocc.get
    refine ⟨⟨p, .mk (.identifier name) slots⟩, Node.mem_sites_iff.mpr hget, ?_⟩
    simp only [Node.kind_mk]
    rw [if_neg (not_skipped_iff.mpr ⟨⟨hocc.not_declaring, hocc.not_self⟩, hocc.value⟩)]
    rfl

theorem Occurs.name_eq {t : Node} {p : Position} {name name' : String} (h : Occurs t p name)
    (h' : Occurs t p name') : name = name' := by
  obtain ⟨slots, hget⟩ := h.get
  obtain ⟨slots', hget'⟩ := h'.get
  rw [hget] at hget'
  cases hget'
  rfl

/-- **The occurrence at a place** is the one that the identifier there makes. -/
theorem occurrence?_eq_some_iff {t : Node} {p : Position} {o : Occurrence} :
    (analyze t).occurrence? p = some o ↔ ∃ name, Occurs t p name ∧ o = occurrenceAt t p name := by
  unfold Analysis.occurrence?
  constructor
  · intro h
    have hp : o.place = p := by simpa using List.find?_some h
    obtain ⟨q, name, hocc, rfl⟩ := mem_occurrences_iff.mp (List.mem_of_find?_eq_some h)
    change q = p at hp
    subst hp
    exact ⟨name, hocc, rfl⟩
  · rintro ⟨name, hocc, rfl⟩
    cases hfind : (analyze t).occurrences.find? fun o => o.place == p with
    | none =>
        have := List.find?_eq_none.mp hfind _ (mem_occurrences_iff.mpr ⟨p, name, hocc, rfl⟩)
        simp [occurrenceAt] at this
    | some o =>
        have hp : o.place = p := by simpa using List.find?_some hfind
        obtain ⟨q, name', hocc', rfl⟩ := mem_occurrences_iff.mp (List.mem_of_find?_eq_some hfind)
        change q = p at hp
        subst hp
        rw [hocc.name_eq hocc']

theorem occurrence?_eq_none_iff {t : Node} {p : Position} :
    (analyze t).occurrence? p = none ↔ ∀ name, ¬ Occurs t p name := by
  constructor
  · intro h name hocc
    rw [occurrence?_eq_some_iff.mpr ⟨name, hocc, rfl⟩] at h
    cases h
  · intro h
    cases ho : (analyze t).occurrence? p with
    | none => rfl
    | some o =>
        obtain ⟨name, hocc, -⟩ := occurrence?_eq_some_iff.mp ho
        exact absurd hocc (h name)

/-! ## Bindings -/

/-- The bindings are those of the first declarations, in the same order. -/
theorem getElem?_bindings (t : Node) (i : Nat) :
    (analyze t).bindings[i]? = ((firstDeclarations [] (declarations t))[i]?).map fun d =>
      bindingOf (declarations t) (analyze t).occurrences d i := by
  simp only [analyze, List.getElem?_map, List.getElem?_zipIdx, Nat.zero_add, Option.map_map]
  rfl

theorem length_bindings (t : Node) :
    (analyze t).bindings.length = (firstDeclarations [] (declarations t)).length := by
  simp [analyze]

theorem mem_bindings_iff {t : Node} {b : Binding} :
    b ∈ (analyze t).bindings ↔ ∃ i d, (firstDeclarations [] (declarations t))[i]? = some d ∧
      b = bindingOf (declarations t) (analyze t).occurrences d i := by
  rw [List.mem_iff_getElem?]
  simp only [getElem?_bindings, Option.map_eq_some_iff, @eq_comm _ _ b]

/-- The references of a binding are the identifiers that refer to it and read it. -/
theorem mem_references_iff {t : Node} {d : Declaration} {i : Nat} {p : Position} :
    p ∈ (bindingOf (declarations t) (analyze t).occurrences d i).references ↔
      ∃ name, Occurs t p name ∧ (occurrenceAt t p name).binding = some i ∧
        (occurrenceAt t p name).use.reads = true := by
  simp only [bindingOf, List.mem_map, List.mem_filter, beq_iff_eq]
  constructor
  · rintro ⟨o, ⟨⟨ho, hb⟩, hu⟩, rfl⟩
    obtain ⟨q, name, hocc, rfl⟩ := mem_occurrences_iff.mp ho
    exact ⟨name, hocc, hb, hu⟩
  · rintro ⟨name, hocc, hb, hu⟩
    exact ⟨_, ⟨⟨mem_occurrences_iff.mpr ⟨p, name, hocc, rfl⟩, hb⟩, hu⟩, rfl⟩

/-- The references of a binding of a tree are identifiers that stand for values. -/
theorem occurs_of_mem_references {t : Node} {b : Binding} (hb : b ∈ (analyze t).bindings)
    {p : Position} (hp : p ∈ b.references) : ∃ name, Occurs t p name := by
  obtain ⟨i, d, -, rfl⟩ := mem_bindings_iff.mp hb
  obtain ⟨name, hocc, -⟩ := mem_references_iff.mp hp
  exact ⟨name, hocc⟩

/-- The violations of a binding are the further declarations of its name and the identifiers that
refer to it and write it. -/
theorem mem_violations_iff {t : Node} {d : Declaration} {i : Nat} {p : Position} :
    p ∈ (bindingOf (declarations t) (analyze t).occurrences d i).violations ↔
      (∃ e ∈ ((declarations t).filter (sameKey d)).drop 1, e.place = p) ∨
        ∃ name, Occurs t p name ∧ (occurrenceAt t p name).binding = some i ∧
          (occurrenceAt t p name).use.writes = true := by
  simp only [bindingOf, List.mem_append, List.mem_map, List.mem_filter, beq_iff_eq]
  constructor
  · rintro (⟨e, he, rfl⟩ | ⟨o, ⟨⟨ho, hb⟩, hu⟩, rfl⟩)
    · exact Or.inl ⟨e, he, rfl⟩
    · obtain ⟨q, name, hocc, rfl⟩ := mem_occurrences_iff.mp ho
      exact Or.inr ⟨name, hocc, hb, hu⟩
  · rintro (⟨e, he, rfl⟩ | ⟨name, hocc, hb, hu⟩)
    · exact Or.inl ⟨e, he, rfl⟩
    · exact Or.inr ⟨_, ⟨⟨mem_occurrences_iff.mpr ⟨p, name, hocc, rfl⟩, hb⟩, hu⟩, rfl⟩

/-- A further declaration of a name violates its binding. -/
theorem eq_first_or_mem_violations {t : Node} {d f : Declaration}
    (hd : d ∈ firstDeclarations [] (declarations t)) (hf : f ∈ declarations t) (hkey : f.key = d.key)
    (i : Nat) : f = d ∨
      f.place ∈ (bindingOf (declarations t) (analyze t).occurrences d i).violations := by
  obtain ⟨rest, hrest⟩ := filter_key_eq_cons hd
  have hmem : f ∈ (declarations t).filter (sameKey d) :=
    List.mem_filter.mpr ⟨hf, sameKey_iff.mpr hkey⟩
  rw [hrest, List.mem_cons] at hmem
  refine hmem.imp_right fun hmem => mem_violations_iff.mpr (Or.inl ⟨f, ?_, rfl⟩)
  rw [hrest]
  exact hmem

theorem Binding.not_mem_violations {b : Binding} (h : b.constant = true) (p : Position) :
    p ∉ b.violations := by
  rw [List.isEmpty_iff.mp h]
  exact List.not_mem_nil

/-- A constant binding declares its name alone. -/
theorem eq_first_of_constant {t : Node} {d f : Declaration} {i : Nat}
    (hd : d ∈ firstDeclarations [] (declarations t))
    (hconst : (bindingOf (declarations t) (analyze t).occurrences d i).constant = true)
    (hf : f ∈ declarations t) (hkey : f.key = d.key) : f = d :=
  (eq_first_or_mem_violations hd hf hkey i).resolve_right (Binding.not_mem_violations hconst _)

theorem reads_or_writes (u : Use) : u.reads = true ∨ u.writes = true := by
  cases u <;> simp [Use.reads, Use.writes]

/-- **What uses a binding**: the further declarations of its name, and the identifiers that refer to
it. -/
theorem mem_uses_iff {t : Node} {d : Declaration} {i : Nat} {p : Position} :
    p ∈ (bindingOf (declarations t) (analyze t).occurrences d i).references ++
        (bindingOf (declarations t) (analyze t).occurrences d i).violations ↔
      (∃ e ∈ ((declarations t).filter (sameKey d)).drop 1, e.place = p) ∨
        ∃ name, Occurs t p name ∧ (occurrenceAt t p name).binding = some i := by
  rw [List.mem_append, mem_references_iff, mem_violations_iff]
  constructor
  · rintro (⟨name, hocc, hb, -⟩ | he | ⟨name, hocc, hb, -⟩)
    · exact Or.inr ⟨name, hocc, hb⟩
    · exact Or.inl he
    · exact Or.inr ⟨name, hocc, hb⟩
  · rintro (he | ⟨name, hocc, hb⟩)
    · exact Or.inr (Or.inl he)
    · rcases reads_or_writes (occurrenceAt t p name).use with hu | hu
      · exact Or.inl ⟨name, hocc, hb, hu⟩
      · exact Or.inr (Or.inr ⟨name, hocc, hb, hu⟩)

/-- Occurrences are found in the order of the walk. -/
theorem sublist_occurrence_places (t : Node) :
    ((analyze t).occurrences.map Occurrence.place).Sublist t.places := by
  show List.Sublist ((occurrences t (declarations t)).map Occurrence.place) t.places
  unfold occurrences Node.places
  generalize t.sites = sites
  induction sites with
  | nil => exact List.nil_sublist _
  | cons site rest ih =>
      rw [List.filterMap_cons, List.map_cons]
      split
      · exact ih.cons _
      · rename_i o ho
        have hplace : o.place = site.place := by
          split at ho
          · dsimp only at ho
            split at ho
            · cases ho
            · cases ho
              rfl
          · cases ho
        rw [List.map_cons, hplace]
        exact ih.cons_cons _

/-- No two occurrences share a place. -/
theorem nodup_occurrence_places (t : Node) :
    ((analyze t).occurrences.map Occurrence.place).Nodup :=
  (sublist_occurrence_places t).nodup (Node.places_nodup t)

theorem nodup_references {t : Node} {b : Binding} (h : b ∈ (analyze t).bindings) :
    b.references.Nodup := by
  obtain ⟨i, d, -, rfl⟩ := mem_bindings_iff.mp h
  refine List.Nodup.sublist ?_ (nodup_occurrence_places t)
  exact (List.filter_sublist.trans List.filter_sublist).map _

/-- No identifier refers to two bindings. -/
theorem pairwise_references (t : Node) :
    (analyze t).bindings.Pairwise fun b c => ∀ p ∈ b.references, p ∉ c.references := by
  rw [List.pairwise_iff_getElem]
  intro i j hi hj hij p hp hp'
  obtain ⟨d, -, hb⟩ := Option.map_eq_some_iff.mp
    ((getElem?_bindings t i).symm.trans (List.getElem?_eq_getElem hi))
  obtain ⟨e, -, hc⟩ := Option.map_eq_some_iff.mp
    ((getElem?_bindings t j).symm.trans (List.getElem?_eq_getElem hj))
  rw [← hb] at hp
  rw [← hc] at hp'
  obtain ⟨name, hocc, hbind, -⟩ := mem_references_iff.mp hp
  obtain ⟨name', hocc', hbind', -⟩ := mem_references_iff.mp hp'
  cases hocc.name_eq hocc'
  rw [hbind] at hbind'
  cases hbind'
  omega

/-! ## The binding of a name -/

theorem bindingNumber?_of_occurs {t : Node} {p : Position} {name : String} (h : Occurs t p name) :
    (analyze t).bindingNumber? p = (occurrenceAt t p name).binding := by
  unfold Analysis.bindingNumber?
  rw [occurrence?_eq_some_iff.mpr ⟨name, h, rfl⟩, Option.bind_some]

theorem bindingNumber?_eq_some {t : Node} {p : Position} {i : Nat} :
    (analyze t).bindingNumber? p = some i ↔
      ∃ name, Occurs t p name ∧ (occurrenceAt t p name).binding = some i := by
  unfold Analysis.bindingNumber?
  rw [Option.bind_eq_some_iff]
  constructor
  · rintro ⟨o, ho, hb⟩
    obtain ⟨name, hocc, rfl⟩ := occurrence?_eq_some_iff.mp ho
    exact ⟨name, hocc, hb⟩
  · rintro ⟨name, hocc, hb⟩
    exact ⟨_, occurrence?_eq_some_iff.mpr ⟨name, hocc, rfl⟩, hb⟩

theorem isGlobal_eq_true {t : Node} {p : Position} :
    (analyze t).isGlobal p = true ↔
      ∃ name, Occurs t p name ∧ (occurrenceAt t p name).binding = none := by
  unfold Analysis.isGlobal
  cases ho : (analyze t).occurrence? p with
  | none =>
      have hnone := occurrence?_eq_none_iff.mp ho
      constructor
      · intro h
        cases h
      · rintro ⟨name, hocc, -⟩
        exact absurd hocc (hnone name)
  | some o =>
      obtain ⟨name, hocc, rfl⟩ := occurrence?_eq_some_iff.mp ho
      simp only [Option.isNone_iff_eq_none]
      constructor
      · intro h
        exact ⟨name, hocc, h⟩
      · rintro ⟨name', hocc', h⟩
        rw [hocc.name_eq hocc']
        exact h

/-! ## Unresolved names -/

/-- The name of some identifier that no enclosing scope declares. -/
def Unresolved (t : Node) (name : String) : Prop :=
  ∃ p, Occurs t p name ∧ ∀ scope ∈ scopesAround t p, ¬ declaresIn (declarations t) scope name

end Descramble

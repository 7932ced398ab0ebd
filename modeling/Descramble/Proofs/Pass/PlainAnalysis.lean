import Mathlib.Data.List.Basic
import Descramble.Proofs.Pass.PlainNames
import Descramble.Proofs.Scope.Nearest
import Descramble.Proofs.Scope.Walk

/-!
# Plain member names and the analysis of names

A plain member name is an identifier, and the analysis looks at all identifiers.  It is none that
declares and none that is looked up, and at every other place nothing changes that the analysis
looks at.

* `patternNames_withPlainNames`, `declarationsAt_withPlainNames` — what a pattern binds and a node
  declares.
* `flatMap_sites_congr` — what is collected over a walk, place by place.
* `declarations_withPlainNames`, `occurrences_withPlainNames` — the declarations and the occurrences of
  a tree.
* `bindings_withPlainNames` — so the analysis finds the same bindings.
-/

set_option autoImplicit false

namespace Descramble

/-- A node that is no access in plain names is none without. -/
theorem Node.eq_of_withPlainNames {n : Node} {k : Kind} {slots : List Slot}
    (hk : ∀ computed, k ≠ .member computed) (h : n.withPlainNames = .mk k slots) :
    ∃ slots₀, n = .mk k slots₀ ∧ slots₀.map Slot.withPlainNames = slots := by
  obtain ⟨k₀, slots₀⟩ := n
  have hkind := kind_withPlainNames (.mk k₀ slots₀)
  rw [h] at hkind
  obtain rfl : k = k₀ := hkind.resolve_right fun hmember => hk _ hmember.2
  rw [withPlainNames_of_kind (hk true)] at h
  exact ⟨slots₀, rfl, (Node.mk.inj h).2⟩

theorem scopeForm_withPlainNames (n : Node) : n.withPlainNames.kind.scopeForm = n.kind.scopeForm := by
  rcases kind_withPlainNames n with h | ⟨h, h'⟩
  · rw [h]
  · rw [h, h']
    rfl

/-! ## Patterns -/

theorem propertyTarget?_withPlainNames (n : Node) :
    propertyTarget? n.withPlainNames =
      (propertyTarget? n).map fun target => (target.1, target.2.withPlainNames) := by
  generalize hm : n.withPlainNames = m
  unfold propertyTarget?
  split
  · obtain ⟨slots, rfl, hslots⟩ := Node.eq_of_withPlainNames (by simp) hm
    simp only [slots_eq_one_iff, List.map_eq_nil_iff, Option.map_eq_some_iff] at hslots
    obtain ⟨_, _, rfl, ⟨target, rfl, rfl⟩, rfl⟩ := hslots
    rfl
  · obtain ⟨slots, rfl, hslots⟩ := Node.eq_of_withPlainNames (by simp) hm
    obtain ⟨_, _, rfl, -, hvalue⟩ := List.map_eq_cons_iff.mp hslots
    simp only [slots_eq_one_iff, List.map_eq_nil_iff, Option.map_eq_some_iff] at hvalue
    obtain ⟨_, _, rfl, ⟨value, rfl, rfl⟩, rfl⟩ := hvalue
    rfl
  · -- no part of an object pattern in plain names, so none without
    rename_i hrest hproperty
    split
    · rw [withPlainNames_of_kind (by simp)] at hm
      exact (hrest _ hm.symm).elim
    · rw [withPlainNames_of_kind (by simp)] at hm
      exact (hproperty _ _ _ _ _ _ hm.symm).elim
    · rfl

theorem elementNames_withPlainNames {place : Position} : ∀ {elements : List (Option Node)} {i : Nat},
    (∀ c, some c ∈ elements → ∀ q, patternNames q c.withPlainNames = patternNames q c) →
      elementNames place i (elements.map fun c => c.map Node.withPlainNames) =
        elementNames place i elements
  | [], _, _ => rfl
  | none :: rest, i, h => by
      rw [List.map_cons, Option.map_none, elementNames, elementNames,
        elementNames_withPlainNames fun c hc => h c (List.mem_cons_of_mem _ hc)]
  | some c :: rest, i, h => by
      rw [List.map_cons, Option.map_some, elementNames, elementNames, h c List.mem_cons_self,
        elementNames_withPlainNames fun c hc => h c (List.mem_cons_of_mem _ hc)]

theorem propertyNames_withPlainNames {place : Position} :
    ∀ {properties : List (Option Node)} {i : Nat},
      (∀ m s c, some m ∈ properties → propertyTarget? m = some (s, c) →
        ∀ q, patternNames q c.withPlainNames = patternNames q c) →
      propertyNames place i (properties.map fun c => c.map Node.withPlainNames) =
        propertyNames place i properties
  | [], _, _ => rfl
  | property :: rest, i, h => by
      rw [List.map_cons, propertyNames_cons, propertyNames_cons,
        propertyNames_withPlainNames fun m s c hm => h m s c (List.mem_cons_of_mem _ hm)]
      cases property with
      | none => rfl
      | some m =>
          rw [Option.map_some, Option.bind_some, Option.bind_some, propertyTarget?_withPlainNames]
          cases htarget : propertyTarget? m with
          | none => rfl
          | some target =>
              obtain ⟨s, c⟩ := target
              rw [Option.map_some]
              exact congrArg (· ++ _) (h m s c List.mem_cons_self htarget _)

/-- **Patterns bind what they bind**: the names of members are not among it. -/
theorem patternNames_withPlainNames (n : Node) :
    ∀ place, patternNames place n.withPlainNames = patternNames place n := by
  induction n using Node.belowInduction with
  | h n ih =>
      intro place
      generalize hm : n.withPlainNames = m
      rw [patternNames.eq_def place m]
      split
      · obtain ⟨slots, rfl, -⟩ := Node.eq_of_withPlainNames (by simp) hm
        rw [patternNames]
      · obtain ⟨slots, rfl, hslots⟩ := Node.eq_of_withPlainNames (by simp) hm
        simp only [slots_eq_many_iff, List.map_eq_nil_iff] at hslots
        obtain ⟨elements, _, rfl, rfl, rfl⟩ := hslots
        rw [patternNames]
        refine elementNames_withPlainNames fun c hc => ?_
        obtain ⟨j, hj⟩ := List.mem_iff_getElem?.mp hc
        refine ih ⟨0, some j⟩ [] c ?_
        rw [Node.get?_cons, Node.child?_mk, Node.childOfSlots_many, hj]
        rfl
      · obtain ⟨slots, rfl, hslots⟩ := Node.eq_of_withPlainNames (by simp) hm
        simp only [slots_eq_many_iff, List.map_eq_nil_iff] at hslots
        obtain ⟨properties, _, rfl, rfl, rfl⟩ := hslots
        rw [patternNames]
        refine propertyNames_withPlainNames fun m s c hc htarget => ?_
        obtain ⟨j, hj⟩ := List.mem_iff_getElem?.mp hc
        refine ih ⟨0, some j⟩ [s] c ?_
        rw [Node.get?_cons, Node.child?_mk, Node.childOfSlots_many, hj]
        show (m.child? s).bind _ = _
        rw [(continues_of_propertyTarget? 0 htarget).1]
        rfl
      · obtain ⟨slots, rfl, hslots⟩ := Node.eq_of_withPlainNames (by simp) hm
        simp only [slots_eq_one_iff, List.map_eq_singleton_iff, Option.map_eq_some_iff] at hslots
        obtain ⟨_, _, rfl, ⟨target, rfl, rfl⟩, _, rfl, -⟩ := hslots
        rw [patternNames]
        exact ih first [] target rfl _
      · obtain ⟨slots, rfl, hslots⟩ := Node.eq_of_withPlainNames (by simp) hm
        simp only [slots_eq_one_iff, List.map_eq_nil_iff, Option.map_eq_some_iff] at hslots
        obtain ⟨_, _, rfl, ⟨target, rfl, rfl⟩, rfl⟩ := hslots
        rw [patternNames]
        exact ih first [] target rfl _
      · -- no pattern in plain names, so none without
        rename_i hname harray hobject hassign hrest
        rw [patternNames.eq_def]
        split
        · rw [withPlainNames_of_kind (by simp)] at hm
          exact (hname _ _ hm.symm).elim
        · rw [withPlainNames_of_kind (by simp)] at hm
          exact (harray _ hm.symm).elim
        · rw [withPlainNames_of_kind (by simp)] at hm
          exact (hobject _ hm.symm).elim
        · rw [withPlainNames_of_kind (by simp)] at hm
          exact (hassign _ _ hm.symm).elim
        · rw [withPlainNames_of_kind (by simp)] at hm
          exact (hrest _ hm.symm).elim
        · rfl

/-! ## Declarations -/

theorem ownName_withPlainNames (place : Position) (id : Option Node) :
    ownName place (id.map Node.withPlainNames) = ownName place id := by
  cases id with
  | none => rfl
  | some n =>
      rw [Option.map_some]
      generalize hm : n.withPlainNames = m
      unfold ownName
      split
      · rename_i heq
        cases heq
        obtain ⟨slots, rfl, -⟩ := Node.eq_of_withPlainNames (by simp) hm
        rfl
      · rename_i hname
        split
        · rename_i heq
          cases heq
          rw [withPlainNames_of_kind (by simp)] at hm
          exact (hname _ _ (congrArg some hm.symm)).elim
        · rfl

theorem parameterNames_withPlainNames (place : Position) (slot : Nat) (params : List (Option Node)) :
    parameterNames place slot (params.map fun c => c.map Node.withPlainNames) =
      parameterNames place slot params := by
  unfold parameterNames
  rw [List.zipIdx_map, List.flatMap_map]
  refine congrArg (fun f => List.flatMap f params.zipIdx) (funext fun ⟨param, i⟩ => ?_)
  cases param with
  | none => rfl
  | some c => exact patternNames_withPlainNames c _

/-- **Nodes declare what they declare.** -/
theorem declarationsAt_withPlainNames (inner outer : List Scope) (parent n : Node)
    (place : Position) :
    declarationsAt inner outer (some parent.withPlainNames) ⟨place, n.withPlainNames⟩ =
      declarationsAt inner outer (some parent) ⟨place, n⟩ := by
  generalize hm : n.withPlainNames = m
  rw [declarationsAt.eq_def inner outer _ ⟨place, m⟩]
  dsimp only
  split
  · rename_i heq
    cases heq
  · obtain ⟨slots, rfl, hslots⟩ := Node.eq_of_withPlainNames (by simp) hm
    simp only [slots_eq_one_iff, slots_eq_many_iff, List.map_eq_singleton_iff] at hslots
    obtain ⟨id, _, rfl, rfl, params, _, rfl, rfl, _, rfl, -⟩ := hslots
    rw [ownName_withPlainNames, parameterNames_withPlainNames]
    rfl
  · obtain ⟨slots, rfl, hslots⟩ := Node.eq_of_withPlainNames (by simp) hm
    simp only [slots_eq_one_iff, slots_eq_many_iff, List.map_eq_singleton_iff] at hslots
    obtain ⟨id, _, rfl, rfl, params, _, rfl, rfl, _, rfl, -⟩ := hslots
    rw [ownName_withPlainNames, parameterNames_withPlainNames]
    rfl
  · obtain ⟨slots, rfl, hslots⟩ := Node.eq_of_withPlainNames (by simp) hm
    simp only [slots_eq_many_iff, List.map_eq_singleton_iff] at hslots
    obtain ⟨params, _, rfl, rfl, _, rfl, -⟩ := hslots
    rw [parameterNames_withPlainNames]
    rfl
  · obtain ⟨slots, rfl, hslots⟩ := Node.eq_of_withPlainNames (by simp) hm
    simp only [slots_eq_one_iff, List.map_eq_singleton_iff, Option.map_eq_some_iff] at hslots
    obtain ⟨_, _, rfl, ⟨param, rfl, rfl⟩, _, rfl, -⟩ := hslots
    rw [patternNames_withPlainNames]
    rfl
  · obtain ⟨slots, rfl, hslots⟩ := Node.eq_of_withPlainNames (by simp) hm
    simp only [slots_eq_one_iff] at hslots
    obtain ⟨id, _, rfl, rfl, -⟩ := hslots
    rw [ownName_withPlainNames]
    rfl
  · rename_i hparent
    obtain ⟨slots', rfl, -⟩ := Node.eq_of_withPlainNames (by simp) (Option.some.inj hparent)
    obtain ⟨slots, rfl, hslots⟩ := Node.eq_of_withPlainNames (by simp) hm
    simp only [slots_eq_one_iff, List.map_eq_singleton_iff, Option.map_eq_some_iff] at hslots
    obtain ⟨_, _, rfl, ⟨target, rfl, rfl⟩, _, rfl, -⟩ := hslots
    rw [patternNames_withPlainNames]
    rfl
  · -- no node that declares in plain names, so none without
    rename_i hparent hdeclaration hexpression harrow hcatch hclass hvariable
    cases hparent
    rw [declarationsAt.eq_def]
    dsimp only
    split
    · rfl
    · rw [withPlainNames_of_kind (by simp)] at hm
      exact (hdeclaration _ _ _ _ hm.symm).elim
    · rw [withPlainNames_of_kind (by simp)] at hm
      exact (hexpression _ _ _ _ hm.symm).elim
    · rw [withPlainNames_of_kind (by simp)] at hm
      exact (harrow _ _ _ hm.symm).elim
    · rw [withPlainNames_of_kind (by simp)] at hm
      exact (hcatch _ _ hm.symm).elim
    · rw [withPlainNames_of_kind (by simp)] at hm
      exact (hclass _ _ hm.symm).elim
    · rename_i heq
      cases heq
      rw [withPlainNames_of_kind (by simp)] at hm
      exact (hvariable _ _ _ _ hm.symm (withPlainNames_of_kind (by simp) _)).elim
    · rfl

/-! ## Uses -/

theorem useOf_congr_slots (k : Kind) (slots slots' : List Slot) (step : Option Step) (assigned : Bool) :
    useOf (some (.mk k slots)) step assigned = useOf (some (.mk k slots')) step assigned := by
  cases k <;> first | rfl | (rcases step with _ | ⟨_ | _, _⟩ <;> rfl)

/-- How a name is used depends on the kind of its parent only; accesses read. -/
theorem useOf_withPlainNames (m : Node) (step : Option Step) (assigned : Bool) :
    useOf (some m.withPlainNames) step assigned = useOf (some m) step assigned := by
  obtain ⟨k, slots⟩ := m
  cases hplain : plainMember? (.mk k slots) with
  | none =>
      rw [withPlainNames_of_none hplain]
      exact useOf_congr_slots k _ _ step assigned
  | some name =>
      obtain ⟨hname, object, raw, regex, slots', he⟩ := plainMember?_eq_some_iff.mp hplain
      rw [he, withPlainNames_plain hname]
      rfl

/-! ## Walks -/

/-- What is collected over the walks of two trees with the same places is the same if it is the same
at each place. -/
theorem flatMap_sites_congr {α : Type} {t t' : Node} {f f' : Site → List α}
    (hplaces : t'.places = t.places)
    (h : ∀ p n n', t.get? p = some n → t'.get? p = some n' → f' ⟨p, n'⟩ = f ⟨p, n⟩) :
    t'.sites.flatMap f' = t.sites.flatMap f := by
  have hsites : ∀ (sites sites' : List Site), sites'.map Site.place = sites.map Site.place →
      (∀ site ∈ sites, t.get? site.place = some site.node) →
      (∀ site ∈ sites', t'.get? site.place = some site.node) →
        sites'.flatMap f' = sites.flatMap f := by
    intro sites
    induction sites with
    | nil =>
        intro sites' hmap _ _
        rw [List.map_eq_nil_iff.mp hmap]
        rfl
    | cons site sites ih =>
        intro sites' hmap hget hget'
        obtain ⟨site', sites', rfl, hplace, hmap⟩ := List.map_eq_cons_iff.mp hmap
        rw [List.flatMap_cons, List.flatMap_cons, ih sites' hmap
          (fun s hs => hget s (List.mem_cons_of_mem _ hs))
          (fun s hs => hget' s (List.mem_cons_of_mem _ hs))]
        have hnode' := hget' site' List.mem_cons_self
        obtain ⟨p, n⟩ := site
        obtain ⟨p', n'⟩ := site'
        cases hplace
        rw [h p n n' (hget _ List.mem_cons_self) hnode']
  exact hsites t.sites t'.sites hplaces (fun _ hs => Node.mem_sites_iff.mp hs)
    (fun _ hs => Node.mem_sites_iff.mp hs)

section
variable {t : Node} (hc : t.conforms = true)
include hc

/-- A node of the tree in plain names: the new name in an access, or what the map makes of the old
node. -/
theorem node_cases {p : Position} {n n' : Node} (hget : t.get? p = some n)
    (hget' : t.withPlainNames.get? p = some n') :
    (∃ name raw regex slots, IsPlainKey t p name ∧ n' = .ident name ∧
        n = .mk (.literal (.text name) raw regex) slots) ∨
      (∀ name, ¬ IsPlainKey t p name) ∧ n' = n.withPlainNames := by
  rcases get?_withPlainNames_cases hc p with ⟨name, hkey, hident⟩ | ⟨hkey, hmap⟩
  · obtain ⟨raw, regex, slots, hliteral⟩ := hkey.get?
    rw [hliteral] at hget
    rw [hident] at hget'
    cases hget
    cases hget'
    exact Or.inl ⟨name, raw, regex, slots, hkey, rfl, rfl⟩
  · rw [hmap, hget] at hget'
    cases hget'
    exact Or.inr ⟨hkey, rfl⟩

/-- A node with a child is no key. -/
theorem get?_parent {p : Position} {s : Step} {c : Node} (hget : t.get? (p ++ [s]) = some c) :
    ∃ m, t.get? p = some m ∧ t.withPlainNames.get? p = some m.withPlainNames := by
  obtain ⟨m, hm⟩ := Node.exists_get?_of_prefix hget (List.prefix_append p [s])
  refine ⟨m, hm, ?_⟩
  rw [get?_withPlainNames hc, hm, Option.map_some]
  intro name hkey
  obtain ⟨raw, regex, slots, hliteral⟩ := hkey.get?
  rw [Node.get?_concat, hliteral, Option.bind_some, child?_literal hc hliteral] at hget
  cases hget

theorem scopesAround_withPlainNames : ∀ (p : Position) (n : Node), t.get? p = some n →
    scopesAround t.withPlainNames p = scopesAround t p := by
  refine Node.placeInduction rfl ?_
  intro p s m c hm hchild ih
  have hget : t.get? (p ++ [s]) = some c := by rw [Node.get?_concat, hm, Option.bind_some, hchild]
  obtain ⟨m', hm', hget'⟩ := get?_parent hc hget
  cases hm.symm.trans hm'
  have hsome := isSome_get?_withPlainNames hc (p ++ [s])
  rw [hget, Option.isSome_some, Option.isSome_iff_exists] at hsome
  obtain ⟨c', hgetc⟩ := hsome
  have hchild' : m.withPlainNames.child? s = some c' := by
    rwa [Node.get?_concat, hget', Option.bind_some] at hgetc
  rw [scopesAround_concat hget' hchild', scopesAround_concat hm hchild, ih, enterScope, enterScope]
  have hopens : opensScope? (some m.withPlainNames) c' = opensScope? (some m) c := by
    rcases node_cases hc hget hgetc with ⟨name, raw, regex, slots, -, rfl, rfl⟩ | ⟨-, rfl⟩
    · rfl
    · exact opensScope?_congr (scopeForm_withPlainNames m) (scopeForm_withPlainNames c)
  rw [hopens]

/-- **The declarations of a tree stay.** -/
theorem declarations_withPlainNames : declarations t.withPlainNames = declarations t := by
  rw [declarations_eq, declarations_eq]
  refine flatMap_sites_congr (places_withPlainNames hc) fun p n n' hget hget' => ?_
  unfold declaredAt
  dsimp only
  cases hp : p.parent? with
  | none => rfl
  | some above =>
      obtain ⟨s, rfl⟩ := Position.parent?_eq_some.mp hp
      obtain ⟨m, hm, hm'⟩ := get?_parent hc hget
      dsimp only
      rw [scopesAround_withPlainNames hc _ _ hget, scopesAround_withPlainNames hc _ _ hm, hm, hm']
      rcases node_cases hc hget hget' with ⟨name, raw, regex, slots, -, rfl, rfl⟩ | ⟨-, rfl⟩
      · rfl
      · exact declarationsAt_withPlainNames _ _ _ _ _

/-! ## Occurrences -/

theorem selfNamePlaces_withPlainNames : selfNamePlaces t.withPlainNames = selfNamePlaces t := by
  rw [selfNamePlaces, selfNamePlaces, List.filterMap_eq_flatMap_toList,
    List.filterMap_eq_flatMap_toList]
  refine flatMap_sites_congr (places_withPlainNames hc) fun p n n' hget hget' => ?_
  cases p with
  | nil => rfl
  | cons s p =>
      rcases node_cases hc hget hget' with ⟨name, raw, regex, slots, -, rfl, rfl⟩ | ⟨-, rfl⟩
      · rfl
      · refine congrArg Option.toList ?_
        dsimp only
        generalize hm : n.withPlainNames = m
        split
        · rename_i hplace hclass
          cases hclass
          obtain ⟨slots, rfl, hslots⟩ := Node.eq_of_withPlainNames (by simp) hm
          simp only [slots_eq_one_iff, Option.map_eq_some_iff] at hslots
          obtain ⟨_, _, rfl, ⟨name, rfl, rfl⟩, -⟩ := hslots
          rfl
        · rename_i hnone
          split
          · rw [withPlainNames_of_kind (by simp)] at hm
            exact (hnone _ _ _ _ rfl hm.symm).elim
          · rfl

theorem assignedByPattern_withPlainNames : assignedByPattern t.withPlainNames = assignedByPattern t := by
  refine flatMap_sites_congr (places_withPlainNames hc) fun p n n' hget hget' => ?_
  cases p with
  | nil => rfl
  | cons s p =>
      rcases node_cases hc hget hget' with ⟨name, raw, regex, slots, -, rfl, rfl⟩ | ⟨-, rfl⟩
      · rfl
      · dsimp only
        generalize hm : n.withPlainNames = m
        split
        · obtain ⟨slots, rfl, hslots⟩ := Node.eq_of_withPlainNames (by simp) hm
          simp only [slots_eq_one_iff, Option.map_eq_some_iff] at hslots
          obtain ⟨_, _, rfl, ⟨target, rfl, rfl⟩, -⟩ := hslots
          dsimp only
          rw [patternNames_withPlainNames]
          rcases kind_withPlainNames target with h | ⟨h, h'⟩
          · rw [h]
          · rw [h, h']
        · rename_i hnone
          split
          · rw [withPlainNames_of_kind (by simp)] at hm
            exact (hnone _ _ _ _ _ rfl hm.symm).elim
          · rfl

/-- Identifiers that stand for values do so; the new names are not among them. -/
theorem standsForValue_withPlainNames {p : Position} {n : Node} (hget : t.get? p = some n)
    (hkey : ∀ name, ¬ IsPlainKey t p name) :
    standsForValue (p.parent?.bind t.withPlainNames.get?) p.getLast? =
      standsForValue (p.parent?.bind t.get?) p.getLast? := by
  rcases List.eq_nil_or_concat p with rfl | ⟨q, s, rfl⟩
  · rfl
  · rw [List.concat_eq_append] at *
    obtain ⟨m, hm, hm'⟩ := get?_parent hc hget
    rw [Position.parent?_concat, Option.bind_some, Option.bind_some, hm, hm', List.getLast?_concat]
    cases hplain : plainMember? m with
    | none =>
        obtain ⟨k, slots⟩ := m
        rw [withPlainNames_of_none hplain, standsForValue_eq_not_onlyNames,
          standsForValue_eq_not_onlyNames]
        rfl
    | some name =>
        -- what is not the key is the object, which stands for a value in both accesses
        have hs : s ≠ second := by
          rintro rfl
          exact hkey name ⟨q, m, rfl, hm, hplain⟩
        obtain ⟨hname, object, raw, regex, slots, rfl⟩ := plainMember?_eq_some_iff.mp hplain
        rw [Node.get?_concat, hm, Option.bind_some, Node.child?_mk] at hget
        rw [withPlainNames_plain hname]
        obtain ⟨i, index⟩ := s
        match i, index with
        | 0, _ => rfl
        | 1, none => exact absurd rfl hs
        | 1, some _ => cases hget
        | _ + 2, _ => simp at hget

theorem use_withPlainNames {p : Position} {n : Node} (hget : t.get? p = some n) (assigned : Bool) :
    useOf (p.parent?.bind t.withPlainNames.get?) p.getLast? assigned =
      useOf (p.parent?.bind t.get?) p.getLast? assigned := by
  rcases List.eq_nil_or_concat p with rfl | ⟨q, s, rfl⟩
  · rfl
  · rw [List.concat_eq_append] at *
    obtain ⟨m, hm, hm'⟩ := get?_parent hc hget
    rw [Position.parent?_concat, Option.bind_some, Option.bind_some, hm, hm', useOf_withPlainNames]

/-- **The occurrences of a tree stay.** -/
theorem occurrences_withPlainNames :
    (analyze t.withPlainNames).occurrences = (analyze t).occurrences := by
  show occurrences t.withPlainNames (declarations t.withPlainNames) = occurrences t (declarations t)
  rw [declarations_withPlainNames hc, occurrences, occurrences, List.filterMap_eq_flatMap_toList,
    List.filterMap_eq_flatMap_toList, selfNamePlaces_withPlainNames hc,
    assignedByPattern_withPlainNames hc]
  refine flatMap_sites_congr (places_withPlainNames hc) fun p n n' hget hget' => ?_
  refine congrArg Option.toList ?_
  dsimp only
  rcases node_cases hc hget hget' with ⟨name, raw, regex, slots, hkey, rfl, rfl⟩ | ⟨hkey, rfl⟩
  · -- a new name stands for no value
    obtain ⟨q, m, rfl, hm, hplain⟩ := hkey
    obtain ⟨m', hm', hget'⟩ := get?_parent hc hget
    cases hm.symm.trans hm'
    obtain ⟨hname, object, raw', regex', slots', rfl⟩ := plainMember?_eq_some_iff.mp hplain
    rw [withPlainNames_plain hname] at hget'
    have hvalue : standsForValue ((q ++ [second]).parent?.bind t.withPlainNames.get?)
        (q ++ [second]).getLast? = false := by
      rw [Position.parent?_concat, Option.bind_some, hget', List.getLast?_concat]
      rfl
    simp only [Node.kind_mk, hvalue, Bool.not_false, Bool.or_true, if_true]
  · rw [standsForValue_withPlainNames hc hget hkey, use_withPlainNames hc hget,
      scopesAround_withPlainNames hc _ _ hget]
    rcases kind_withPlainNames n with h | ⟨h, h'⟩
    · rw [h]
    · rw [h, h']

/-- **The analysis finds the same bindings.** -/
theorem bindings_withPlainNames : (analyze t.withPlainNames).bindings = (analyze t).bindings := by
  have huses := occurrences_withPlainNames hc
  simp only [analyze] at huses ⊢
  rw [huses, declarations_withPlainNames hc]

end

end Descramble

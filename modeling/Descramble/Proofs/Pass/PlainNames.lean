import Descramble.Proofs.Run.Outcome
import Descramble.Proofs.Tree.Below
import Descramble.Proofs.Tree.Layout

/-!
# Plain member names as a map on trees

The pass goes through the places of a tree one after the other.  What it makes of the tree can be said
by recursion on the tree as well: each computed access whose key is a name becomes a plain one.

* `Node.withPlainNames` — the map on trees.
* `normalizedRevision_tree` — the pass gives a tree in the tree format what the map gives it.
* `IsPlainKey` — the places of the keys that become names; `get?_withPlainNames_of_key`,
  `get?_withPlainNames` — what stands there and elsewhere.
* `places_withPlainNames` — all places stay.
* `plainMember?_of_get?_withPlainNames` — no access is left that could have a plain name.
-/

set_option autoImplicit false

namespace Descramble

/-! ## The map -/

/-- The node with a plain name, if it is an access that can have one. -/
def Node.plainHere (n : Node) : Node :=
  match plainMember? n with
  | some name => withPlainName name n
  | none => n

mutual

/-- The tree in which all accesses have plain names that can have them. -/
def Node.withPlainNames : Node → Node
  | .mk kind slots => (Node.mk kind (slotsWithPlainNames slots)).plainHere

def slotsWithPlainNames : List Slot → List Slot
  | [] => []
  | .one none :: rest => .one none :: slotsWithPlainNames rest
  | .one (some child) :: rest => .one (some child.withPlainNames) :: slotsWithPlainNames rest
  | .many children :: rest => .many (childrenWithPlainNames children) :: slotsWithPlainNames rest

def childrenWithPlainNames : List (Option Node) → List (Option Node)
  | [] => []
  | none :: rest => none :: childrenWithPlainNames rest
  | some child :: rest => some child.withPlainNames :: childrenWithPlainNames rest

end

theorem childrenWithPlainNames_eq_map (children : List (Option Node)) :
    childrenWithPlainNames children = children.map fun child => child.map Node.withPlainNames := by
  induction children with
  | nil => rfl
  | cons child rest ih => cases child <;> rw [childrenWithPlainNames, ih] <;> rfl

/-- The slot with its trees in plain names. -/
def Slot.withPlainNames : Slot → Slot
  | .one child => .one (child.map Node.withPlainNames)
  | .many children => .many (children.map fun child => child.map Node.withPlainNames)

theorem slotsWithPlainNames_eq_map (slots : List Slot) :
    slotsWithPlainNames slots = slots.map Slot.withPlainNames := by
  induction slots with
  | nil => rfl
  | cons slot rest ih =>
      cases slot with
      | one child => cases child <;> rw [slotsWithPlainNames, ih] <;> rfl
      | many children =>
          rw [slotsWithPlainNames, ih, childrenWithPlainNames_eq_map]
          rfl

/-- Slots that begin with one tree in plain names began with one. -/
theorem slots_eq_one_iff {slots rest : List Slot} {child : Option Node} :
    slots.map Slot.withPlainNames = .one child :: rest ↔
      ∃ child₀ rest₀, slots = .one child₀ :: rest₀ ∧ child₀.map Node.withPlainNames = child ∧
        rest₀.map Slot.withPlainNames = rest := by
  constructor
  · intro h
    obtain ⟨slot, rest₀, rfl, hslot, hrest⟩ := List.map_eq_cons_iff.mp h
    cases slot <;> cases hslot
    exact ⟨_, rest₀, rfl, rfl, hrest⟩
  · rintro ⟨_, _, rfl, rfl, rfl⟩
    rfl

theorem slots_eq_many_iff {slots rest : List Slot} {children : List (Option Node)} :
    slots.map Slot.withPlainNames = .many children :: rest ↔
      ∃ children₀ rest₀, slots = .many children₀ :: rest₀ ∧
        (children₀.map fun child => child.map Node.withPlainNames) = children ∧
        rest₀.map Slot.withPlainNames = rest := by
  constructor
  · intro h
    obtain ⟨slot, rest₀, rfl, hslot, hrest⟩ := List.map_eq_cons_iff.mp h
    cases slot <;> cases hslot
    exact ⟨_, rest₀, rfl, rfl, hrest⟩
  · rintro ⟨_, _, rfl, rfl, rfl⟩
    rfl

theorem withPlainNames_mk (k : Kind) (slots : List Slot) :
    (Node.mk k slots).withPlainNames = (Node.mk k (slots.map Slot.withPlainNames)).plainHere := by
  rw [Node.withPlainNames, slotsWithPlainNames_eq_map]

theorem plainHere_of_none {n : Node} (h : plainMember? n = none) : n.plainHere = n := by
  rw [Node.plainHere, h]

/-- Only computed accesses to a text become plain. -/
theorem plainMember?_of_kind {k : Kind} (h : k ≠ .member true) (slots : List Slot) :
    plainMember? (.mk k slots) = none := by
  unfold plainMember?
  split
  · rename_i heq
    cases heq
    exact absurd rfl h
  · rfl

theorem withPlainNames_of_kind {k : Kind} (h : k ≠ .member true) (slots : List Slot) :
    (Node.mk k slots).withPlainNames = .mk k (slots.map Slot.withPlainNames) := by
  rw [withPlainNames_mk, plainHere_of_none (plainMember?_of_kind h _)]

/-- **The accesses that can have a plain name**: computed ones, whose key is a text that is a name. -/
theorem plainMember?_eq_some_iff {n : Node} {name : String} :
    plainMember? n = some name ↔ isPlainName name = true ∧ ∃ object raw regex slots,
      n = .memberOf true object (.mk (.literal (.text name) raw regex) slots) := by
  constructor
  · intro h
    unfold plainMember? at h
    split at h
    · split at h <;> cases h
      rename_i hplain
      exact ⟨hplain, _, _, _, _, rfl⟩
    · cases h
  · rintro ⟨hplain, object, raw, regex, slots, rfl⟩
    exact if_pos hplain

/-- The kind stays, unless a computed access becomes plain. -/
theorem kind_withPlainNames (n : Node) :
    n.withPlainNames.kind = n.kind ∨
      n.kind = .member true ∧ n.withPlainNames.kind = .member false := by
  obtain ⟨k, slots⟩ := n
  rw [withPlainNames_mk, Node.plainHere]
  split
  · rename_i name h
    obtain ⟨-, object, raw, regex, slots', he⟩ := plainMember?_eq_some_iff.mp h
    rw [he]
    exact Or.inr ⟨(Node.mk.inj he).1, rfl⟩
  · exact Or.inl rfl

/-- Inside the slots the map changes nothing that decides about the access itself. -/
theorem plainMember?_map (k : Kind) (slots : List Slot) :
    plainMember? (.mk k (slots.map Slot.withPlainNames)) = plainMember? (.mk k slots) := by
  refine Option.ext fun name => ?_
  rw [plainMember?_eq_some_iff, plainMember?_eq_some_iff]
  refine and_congr_right fun _ => ?_
  constructor
  · rintro ⟨object, raw, regex, slots', he⟩
    obtain ⟨rfl, hslots⟩ := Node.mk.inj he
    simp only [slots_eq_one_iff, List.map_eq_nil_iff, Option.map_eq_some_iff] at hslots
    obtain ⟨_, _, rfl, ⟨object, rfl, -⟩, _, _, rfl, ⟨⟨k, slots⟩, rfl, hkey⟩, rfl⟩ := hslots
    -- a literal comes from a literal
    have hk := kind_withPlainNames (.mk k slots)
    rw [hkey] at hk
    rcases hk with hk | ⟨-, hk⟩
    · cases (show _ = k from hk)
      exact ⟨object, raw, regex, slots, rfl⟩
    · cases hk
  · rintro ⟨object, raw, regex, slots', he⟩
    obtain ⟨rfl, rfl⟩ := Node.mk.inj he
    exact ⟨object.withPlainNames, raw, regex, slots'.map Slot.withPlainNames, by
      rw [List.map_cons, List.map_cons, List.map_nil, Slot.withPlainNames, Slot.withPlainNames,
        Option.map_some, Option.map_some, withPlainNames_of_kind (by simp)]⟩

theorem withPlainNames_of_none {k : Kind} {slots : List Slot}
    (h : plainMember? (.mk k slots) = none) :
    (Node.mk k slots).withPlainNames = .mk k (slots.map Slot.withPlainNames) := by
  rw [withPlainNames_mk, plainHere_of_none (by rw [plainMember?_map, h])]

theorem withPlainNames_plain {name : String} (hplain : isPlainName name = true) (object : Node)
    (raw : String) (regex : Option Pattern) (slots : List Slot) :
    (Node.memberOf true object (.mk (.literal (.text name) raw regex) slots)).withPlainNames =
      .memberOf false object.withPlainNames (.ident name) := by
  have hname : plainMember? (.memberOf true object (.mk (.literal (.text name) raw regex) slots)) =
      some name := if_pos hplain
  rw [withPlainNames_mk, Node.plainHere, plainMember?_map, hname]
  rfl

/-! ## Places -/

/-- The place of the key of an access that gets a plain name. -/
def IsPlainKey (t : Node) (p : Position) (name : String) : Prop :=
  ∃ q m, p = q ++ [second] ∧ t.get? q = some m ∧ plainMember? m = some name

theorem child?_map (k : Kind) (slots : List Slot) (s : Step) :
    (Node.mk k (slots.map Slot.withPlainNames)).child? s =
      ((Node.mk k slots).child? s).map Node.withPlainNames := by
  simp only [Node.child?_mk, Node.childOfSlots, List.getElem?_map]
  cases slots[s.slot]? with
  | none => simp
  | some slot =>
      cases slot with
      | one child => cases s.index <;> simp [Slot.withPlainNames]
      | many children =>
          cases s.index with
          | none => simp [Slot.withPlainNames]
          | some j =>
              simp only [Option.map_some, Slot.withPlainNames, List.getElem?_map]
              cases children[j]? with
              | none => rfl
              | some child => rfl

/-- The children of a node in plain names, the key of the node's own access apart. -/
theorem child?_withPlainNames {n : Node} {s : Step} (h : plainMember? n = none ∨ s ≠ second) :
    n.withPlainNames.child? s = (n.child? s).map Node.withPlainNames := by
  obtain ⟨k, slots⟩ := n
  cases hplain : plainMember? (.mk k slots) with
  | none => rw [withPlainNames_of_none hplain, child?_map]
  | some name =>
      have hs : s ≠ second := h.resolve_left (by rw [hplain]; simp)
      obtain ⟨hname, object, raw, regex, slots', he⟩ := plainMember?_eq_some_iff.mp hplain
      rw [he, withPlainNames_plain hname]
      obtain ⟨i, index⟩ := s
      simp only [Node.child?_mk]
      match i, index with
      | 0, none => rfl
      | 0, some _ => rfl
      | 1, none => exact absurd rfl hs
      | 1, some _ => rfl
      | _ + 2, _ => simp

theorem child?_key {n : Node} {name : String} (h : plainMember? n = some name) :
    n.withPlainNames.child? second = some (.ident name) := by
  obtain ⟨hname, object, raw, regex, slots, rfl⟩ := plainMember?_eq_some_iff.mp h
  rw [withPlainNames_plain hname]
  rfl

/-- Below a literal there is nothing. -/
theorem child?_literal {t : Node} (hc : t.conforms = true) {p : Position} {value : Constant}
    {raw : String} {regex : Option Pattern} {slots : List Slot}
    (hget : t.get? p = some (.mk (.literal value raw regex) slots)) (s : Step) :
    (Node.mk (.literal value raw regex) slots).child? s = none := by
  have hfits := Node.conforms_iff.mp hc p _ hget
  obtain rfl : slots = [] := by simpa [Kind.slotNames] using Node.skeleton_of_fits hfits
  rw [Node.child?_mk, Node.childOfSlots_nil]

theorem IsPlainKey.get? {t : Node} {p : Position} {name : String} (h : IsPlainKey t p name) :
    ∃ raw regex slots, t.get? p = some (.mk (.literal (.text name) raw regex) slots) := by
  obtain ⟨q, m, rfl, hm, hplain⟩ := h
  obtain ⟨-, object, raw, regex, slots, rfl⟩ := plainMember?_eq_some_iff.mp hplain
  exact ⟨raw, regex, slots, by rw [Node.get?_concat, hm]; rfl⟩

/-- The two cases at a place: it is the key of an access, or the map goes on. -/
theorem get?_withPlainNames_cases {t : Node} (hc : t.conforms = true) (p : Position) :
    (∃ name, IsPlainKey t p name ∧ t.withPlainNames.get? p = some (.ident name)) ∨
      (∀ name, ¬ IsPlainKey t p name) ∧
        t.withPlainNames.get? p = (t.get? p).map Node.withPlainNames := by
  induction p using Position.stepInduction with
  | root =>
      refine Or.inr ⟨?_, rfl⟩
      rintro name ⟨q, m, hq, -⟩
      exact absurd (congrArg List.length hq) (by simp)
  | step p s ih =>
      rw [Node.get?_concat, Node.get?_concat]
      rcases ih with ⟨name, hkey, hget⟩ | ⟨hkey, hget⟩
      · -- below a key there is nothing, before and after
        obtain ⟨raw, regex, slots, hliteral⟩ := hkey.get?
        refine Or.inr ⟨?_, ?_⟩
        · rintro name' ⟨q, m, hq, hm, hplain⟩
          obtain ⟨rfl, -⟩ := List.append_inj' hq rfl
          rw [hliteral] at hm
          cases hm
          rw [plainMember?_of_kind (by simp)] at hplain
          cases hplain
        · rw [hget, hliteral, Option.bind_some, Option.bind_some, child?_literal hc hliteral,
            Node.child?_mk, Node.childOfSlots_nil]
          rfl
      · cases hm : t.get? p with
        | none =>
            refine Or.inr ⟨?_, by rw [hget, hm]; rfl⟩
            rintro name ⟨q, m, hq, hq', -⟩
            obtain ⟨rfl, -⟩ := List.append_inj' hq rfl
            rw [hm] at hq'
            cases hq'
        | some m =>
            rw [hget, hm, Option.map_some, Option.bind_some, Option.bind_some]
            by_cases hplain : plainMember? m = none ∨ s ≠ second
            · refine Or.inr ⟨?_, child?_withPlainNames hplain⟩
              rintro name ⟨q, m', hq, hq', hname⟩
              obtain ⟨rfl, hs⟩ := List.append_inj' hq rfl
              rw [hm] at hq'
              cases hq'
              cases hs
              rcases hplain with hplain | hplain
              · rw [hplain] at hname
                cases hname
              · exact hplain rfl
            · simp only [not_or, Decidable.not_not] at hplain
              obtain ⟨hplain, rfl⟩ := hplain
              obtain ⟨name, hname⟩ := Option.ne_none_iff_exists'.mp hplain
              exact Or.inl ⟨name, ⟨p, m, rfl, hm, hname⟩, child?_key hname⟩

theorem get?_withPlainNames_of_key {t : Node} (hc : t.conforms = true) {p : Position} {name : String}
    (h : IsPlainKey t p name) : t.withPlainNames.get? p = some (.ident name) := by
  rcases get?_withPlainNames_cases hc p with ⟨name', hkey, hget⟩ | ⟨hkey, -⟩
  · obtain ⟨raw, regex, slots, hliteral⟩ := h.get?
    obtain ⟨raw', regex', slots', hliteral'⟩ := hkey.get?
    cases hliteral.symm.trans hliteral'
    exact hget
  · exact absurd h (hkey name)

theorem get?_withPlainNames {t : Node} (hc : t.conforms = true) {p : Position}
    (h : ∀ name, ¬ IsPlainKey t p name) :
    t.withPlainNames.get? p = (t.get? p).map Node.withPlainNames := by
  rcases get?_withPlainNames_cases hc p with ⟨name, hkey, -⟩ | ⟨-, hget⟩
  · exact absurd hkey (h name)
  · exact hget

/-- Where one tree has a node, so has the other. -/
theorem isSome_get?_withPlainNames {t : Node} (hc : t.conforms = true) (p : Position) :
    (t.withPlainNames.get? p).isSome = (t.get? p).isSome := by
  rcases get?_withPlainNames_cases hc p with ⟨name, hkey, hget⟩ | ⟨-, hget⟩
  · obtain ⟨raw, regex, slots, hliteral⟩ := hkey.get?
    rw [hget, hliteral]
    rfl
  · rw [hget, Option.isSome_map]

/-- **All places stay**, and the walk goes through them in the same order. -/
theorem places_withPlainNames {t : Node} (hc : t.conforms = true) :
    t.withPlainNames.places = t.places := by
  have hmem : ∀ p, p ∈ t.withPlainNames.places ↔ p ∈ t.places := by
    intro p
    rw [Node.mem_places_iff, Node.mem_places_iff, ← Option.isSome_iff_exists,
      ← Option.isSome_iff_exists, isSome_get?_withPlainNames hc]
  have hperm := (List.perm_ext_iff_of_nodup t.withPlainNames.places_nodup t.places_nodup).mpr hmem
  refine hperm.eq_of_pairwise (fun p q _ _ hpq hqp => ?_) t.withPlainNames.pairwise_places
    t.pairwise_places
  rw [Position.before_asymm hpq] at hqp
  cases hqp

/-! ## The pass -/

namespace Node

/-- The tree with the accesses at some places made plain, one after the other. -/
def plainAt (places : List Position) (t : Node) : Node :=
  places.foldl (fun n p => n.modifyAt plainHere p) t

@[simp] theorem plainAt_nil (t : Node) : plainAt [] t = t := rfl

theorem plainAt_cons (p : Position) (places : List Position) (t : Node) :
    plainAt (p :: places) t = plainAt places (t.modifyAt plainHere p) := rfl

theorem plainAt_append (places places' : List Position) (t : Node) :
    plainAt (places ++ places') t = plainAt places' (plainAt places t) := List.foldl_append

/-- What is made plain below a step changes the child there. -/
theorem plainAt_below (s : Step) : ∀ (places : List Position) (n : Node),
    plainAt (places.map (s :: ·)) n = n.modifyChild (plainAt places) s
  | [], n => (modifyChild_id fun _ _ => rfl).symm
  | q :: places, n => by
      rw [List.map_cons, plainAt_cons, modifyAt_cons, plainAt_below s places,
        modifyChild_modifyChild]
      rfl

end Node

/-- A visit makes the access at the place plain. -/
theorem normalizeAt_tree (r : Revision) (p : Position) :
    (normalizeAt r p).tree = r.tree.modifyAt Node.plainHere p := by
  unfold normalizeAt
  split
  · rename_i n hn
    split
    · rename_i name hname
      refine Node.modifyAt_congr fun m hm => ?_
      rw [hn] at hm
      cases hm
      rw [Node.plainHere, hname]
    · rename_i hname
      refine (Node.modifyAt_id fun m hm => ?_).symm
      rw [hn] at hm
      cases hm
      exact plainHere_of_none hname
  · rename_i hn
    exact (Node.modifyAt_of_get?_none _ _ _ hn).symm

theorem foldl_normalizeAt_tree : ∀ (places : List Position) (r : Revision),
    (places.foldl normalizeAt r).tree = Node.plainAt places r.tree
  | [], _ => rfl
  | p :: places, r => by
      rw [List.foldl_cons, foldl_normalizeAt_tree places, normalizeAt_tree, Node.plainAt_cons]

namespace Node

theorem plainAt_childSites (k : Kind) (done rest : List Slot) : ∀ (children seen : List (Option Node)),
    (∀ c, some c ∈ children → plainAt c.places c = c.withPlainNames) →
      plainAt ((childSites [] done.length seen.length children).map Site.place)
          (.mk k (done ++ .many (seen ++ children) :: rest)) =
        .mk k (done ++ .many (seen ++ children.map fun c => c.map withPlainNames) :: rest)
  | [], seen, _ => by rw [childSites, List.map_nil, plainAt_nil, List.map_nil]
  | none :: children, seen, h => by
      have hrest := plainAt_childSites k done rest children (seen ++ [none]) fun c hc =>
        h c (List.mem_cons_of_mem _ hc)
      simp only [List.append_assoc, List.singleton_append, List.length_append,
        List.length_singleton] at hrest
      rw [childSites, hrest, List.map_cons, Option.map_none]
  | some c :: children, seen, h => by
      have hrest := plainAt_childSites k done rest children (seen ++ [some c.withPlainNames])
        fun c hc => h c (List.mem_cons_of_mem _ hc)
      simp only [List.append_assoc, List.singleton_append, List.length_append,
        List.length_singleton] at hrest
      have hchild : childOfSlots [.many (seen ++ some c :: children)] 0 (some seen.length) = some c := by
        simp
      rw [childSites, List.map_append, plainAt_append, List.nil_append, places_child, plainAt_below,
        modifyChild_append _ _ _ _ hchild, h c List.mem_cons_self, Slot.setAt]
      simp only [List.set_append_right _ _ (Nat.le_refl _), Nat.sub_self, List.set_cons_zero]
      rw [hrest, List.map_cons, Option.map_some]

/-- Visiting the places below some slots makes the trees in them plain. -/
theorem plainAt_slotSites (k : Kind) : ∀ (rest done : List Slot),
    (∀ i index c, childOfSlots rest i index = some c → plainAt c.places c = c.withPlainNames) →
      plainAt ((slotSites [] done.length rest).map Site.place) (.mk k (done ++ rest)) =
        .mk k (done ++ rest.map Slot.withPlainNames)
  | [], done, _ => by rw [slotSites, List.map_nil, plainAt_nil, List.map_nil]
  | slot :: rest, done, h => by
      have hrest := plainAt_slotSites k rest (done ++ [slot.withPlainNames]) fun i index c hc =>
        h (i + 1) index c (by rwa [childOfSlots_cons_succ])
      simp only [List.append_assoc, List.singleton_append, List.length_append,
        List.length_singleton] at hrest
      rw [List.map_cons, ← hrest]
      cases slot with
      | one child =>
          cases child with
          | none => rw [slotSites]; rfl
          | some c =>
              rw [slotSites, List.map_append, plainAt_append, List.nil_append, places_child,
                plainAt_below, modifyChild_append _ _ _ _ (childOfSlots_one (some c) []),
                h 0 none c rfl]
              rfl
      | many children =>
          have hchildren := plainAt_childSites k done rest children [] fun c hc => by
            obtain ⟨j, hj⟩ := List.mem_iff_getElem?.mp hc
            exact h 0 (some j) c (by rw [childOfSlots_many, hj]; rfl)
          simp only [List.nil_append, List.length_nil] at hchildren
          rw [slotSites, List.map_append, plainAt_append, hchildren]
          rfl

/-- The children of an access are its object and its key. -/
theorem childOfSlots_pair {object key c : Node} {i : Nat} {index : Option Nat}
    (h : childOfSlots [.one (some object), .one (some key)] i index = some c) :
    (i = 0 ∧ index = none ∧ c = object) ∨ c = key := by
  rcases i with _ | _ | i <;> cases index <;> cases h
  · exact Or.inl ⟨rfl, rfl, rfl⟩
  · exact Or.inr rfl

/-- **Visiting all places gives the tree in plain names.** -/
theorem plainAt_places (t : Node) (hc : t.conforms = true) :
    plainAt t.places t = t.withPlainNames := by
  induction t using childInduction with
  | h t ih =>
      obtain ⟨k, slots⟩ := t
      have hchild : ∀ i index c, childOfSlots slots i index = some c →
          plainAt c.places c = c.withPlainNames := fun i index c hget =>
        ih ⟨i, index⟩ c hget (conforms_of_get? (p := [⟨i, index⟩]) hc (by
          rw [get?_cons, child?_mk, hget]
          rfl))
      rw [places_mk, plainAt_cons, modifyAt_nil]
      cases hplain : plainMember? (.mk k slots) with
      | none =>
          rw [plainHere_of_none hplain, withPlainNames_of_none hplain]
          exact plainAt_slotSites k slots [] hchild
      | some name =>
          obtain ⟨hname, object, raw, regex, slots', he⟩ := plainMember?_eq_some_iff.mp hplain
          obtain ⟨rfl, rfl⟩ := Node.mk.inj he
          have hhere : plainHere (.memberOf true object (.mk (.literal (.text name) raw regex) slots')) =
              .memberOf false object (.ident name) := by
            rw [plainHere, hplain]
            rfl
          -- the key and the name that replaces it have the same places below them: none
          have hfits := conforms_iff.mp hc [second] _ rfl
          obtain rfl : slots' = [] := by simpa [Kind.slotNames] using skeleton_of_fits hfits
          have hbelow : (slotSites [] 0 [.one (some object),
              .one (some (.mk (.literal (.text name) raw regex) []))]).map Site.place =
              (slotSites [] 0 [.one (some object), .one (some (.ident name))]).map Site.place := by
            simp [slotSites, sitesAt]
          rw [hhere, withPlainNames_plain hname, hbelow]
          refine (plainAt_slotSites (.member false) [.one (some object), .one (some (.ident name))] []
            ?_).trans ?_
          · intro i index c hget
            rcases childOfSlots_pair hget with ⟨rfl, rfl, -⟩ | rfl
            · exact hchild 0 none c hget
            · rfl
          · rfl

end Node

/-- **The pass gives a tree in the tree format what the map gives it.** -/
theorem normalizedRevision_tree {t : Node} (hc : t.conforms = true) :
    (normalizedRevision t).tree = t.withPlainNames := by
  rw [normalizedRevision, foldl_normalizeAt_tree, Node.plainAt_places t hc]

/-- No access is left that could have a plain name. -/
theorem plainMember?_withPlainNames (n : Node) : plainMember? n.withPlainNames = none := by
  obtain ⟨k, slots⟩ := n
  cases h : plainMember? (.mk k slots) with
  | none => rw [withPlainNames_of_none h, plainMember?_map, h]
  | some name =>
      obtain ⟨hname, object, raw, regex, slots', he⟩ := plainMember?_eq_some_iff.mp h
      rw [he, withPlainNames_plain hname]
      rfl

theorem plainMember?_of_get?_withPlainNames {t n : Node} (hc : t.conforms = true) {p : Position}
    (hget : t.withPlainNames.get? p = some n) : plainMember? n = none := by
  rcases get?_withPlainNames_cases hc p with ⟨name, -, hkey⟩ | ⟨-, hmap⟩
  · rw [hkey] at hget
    cases hget
    rfl
  · rw [hmap] at hget
    obtain ⟨m, -, rfl⟩ := Option.map_eq_some_iff.mp hget
    exact plainMember?_withPlainNames m

end Descramble

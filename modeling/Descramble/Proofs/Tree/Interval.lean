import Descramble.Proofs.Tree.Below
import Descramble.Proofs.Tree.Walk
import Descramble.Proofs.Tree.Weight

/-!
# Subtrees are intervals of the walk

The sites of a subtree stand side by side in the walk.  So an edit at a place exchanges an interval of
the walk, and of all other nodes it changes only those above the place.

* `Site.edited` — what an edit at a place makes of a site.
* `Node.exists_interval` — the walk in front of a subtree, the subtree and the rest, before and after
  an edit.
* `Node.nodes_removeAt` — the nodes that the removal of a subtree leaves, in their order.
* `Node.prefix_iff_order` — the numbers of the visits of a subtree.
* `Node.walk_and_edits` — the walk of a tree, and the walks of the trees that edits make of it.
-/

set_option autoImplicit false

namespace Descramble

/-! ## The walk beside a child -/

namespace Node

theorem slotSites_append (place : Position) (slot : Nat) (xs ys : List Slot) :
    slotSites place slot (xs ++ ys) =
      slotSites place slot xs ++ slotSites place (slot + xs.length) ys := by
  rw [slotSites_eq, slotSites_eq, slotSites_eq, List.zipIdx_append, List.flatMap_append,
    List.flatMap_append]

theorem childSites_append (place : Position) (slot index : Nat) (xs ys : List (Option Node)) :
    childSites place slot index (xs ++ ys) =
      childSites place slot index xs ++ childSites place slot (index + xs.length) ys := by
  rw [childSites_eq, childSites_eq, childSites_eq, List.zipIdx_append, List.flatMap_append,
    List.flatMap_append]

/-- The walk of a slot goes through what stands beside a child in the same way whatever the child. -/
theorem exists_beside_slot {slot : Slot} {index : Option Nat} {c : Node}
    (h : childOfSlots [slot] 0 index = some c) (place : Position) (i : Nat) :
    ∃ before after, ∀ x, slotSites place i [slot.setAt index (some x)] =
      before ++ sitesAt (place ++ [⟨i, index⟩]) x ++ after := by
  cases slot with
  | one child =>
      cases index with
      | some j => cases h
      | none => exact ⟨[], [], fun x => by simp [Slot.setAt, slotSites]⟩
  | many children =>
      cases index with
      | none => cases h
      | some j =>
          rw [childOfSlots_many, join_eq_some] at h
          obtain ⟨hj, hget⟩ := List.getElem?_eq_some_iff.mp h
          refine ⟨childSites place i 0 (children.take j),
            childSites place i (j + 1) (children.drop (j + 1)), fun x => ?_⟩
          have hlength : (children.take j).length = j := List.length_take_of_le (Nat.le_of_lt hj)
          rw [Slot.setAt, List.set_eq_take_append_cons_drop, if_pos hj, slotSites, childSites_append,
            childSites, hlength, Nat.zero_add, slotSites, List.append_nil, List.append_assoc]

/-- The walk of a node goes through what stands beside a child in the same way whatever the child. -/
theorem exists_beside {n c : Node} {s : Step} (h : n.child? s = some c) (place : Position) :
    ∃ before after, ∀ f : Node → Node, sitesAt place (n.modifyChild f s) =
      ⟨place, n.modifyChild f s⟩ :: before ++ sitesAt (place ++ [s]) (f c) ++ after := by
  obtain ⟨k, slots⟩ := n
  obtain ⟨i, index⟩ := s
  have hi : i < slots.length := by
    have := (List.getElem?_eq_some_iff.mp (skeleton_of_child? h)).1
    rwa [skeleton_mk, List.length_map] at this
  have hslots : slots = slots.take i ++ slots[i] :: slots.drop (i + 1) :=
    (List.take_append_drop i slots).symm.trans (congrArg _ (List.drop_eq_getElem_cons hi))
  have hlength : (slots.take i).length = i := List.length_take_of_le (Nat.le_of_lt hi)
  have hslot : childOfSlots [slots[i]] 0 index = some c := by
    rw [← h, child?_mk]
    simp [childOfSlots, List.getElem?_eq_getElem hi]
  obtain ⟨before, after, hbeside⟩ := exists_beside_slot hslot place i
  refine ⟨slotSites place 0 (slots.take i) ++ before,
    after ++ slotSites place (i + 1) (slots.drop (i + 1)), fun f => ?_⟩
  have hmodify := modifyChild_append f k (slots.take i) (slots.drop (i + 1)) hslot
  rw [hlength, ← hslots] at hmodify
  have hcons : ∀ slot rest, slotSites place i (slot :: rest) =
      slotSites place i [slot] ++ slotSites place (i + 1) rest :=
    fun slot rest => slotSites_append place i [slot] rest
  rw [hmodify, sitesAt, slotSites_append, hlength, Nat.zero_add, hcons, hbeside]
  simp only [List.cons_append, List.append_assoc]

end Node

/-! ## Edits -/

/-- The site after an edit at a place: what stands above the place has the edit below itself. -/
def Site.edited (edit : Node → Position → Node) (p : Position) (site : Site) : Site :=
  ⟨site.place, if site.place <+: p then edit site.node (p.drop site.place.length) else site.node⟩

theorem Site.edited_of_not_above {edit : Node → Position → Node} {p : Position} {site : Site}
    (h : ¬ site.place <+: p) : site.edited edit p = site := by
  rw [edited, if_neg h]

/-- An edit that keeps the kind of the root keeps the kinds of all that stands above its place. -/
theorem Site.kind_edited {edit : Node → Position → Node}
    (hedit : ∀ n s q, (edit n (s :: q)).kind = n.kind) {p : Position} {site : Site}
    (h : ¬ p <+: site.place) : (site.edited edit p).node.kind = site.node.kind := by
  unfold edited
  split
  · rename_i habove
    obtain ⟨q, rfl⟩ := habove
    cases q with
    | nil => exact absurd (by simp) h
    | cons s q =>
        rw [List.drop_left]
        exact hedit site.node s q
  · rfl

namespace Node

/-- **An edit exchanges an interval of the walk**, and of the sites in front of it, it changes those
above its place. -/
theorem exists_interval {t n : Node} {p : Position} (h : t.get? p = some n) (place : Position) :
    ∃ before after, sitesAt place t = before ++ sitesAt (place ++ p) n ++ after ∧
      ∀ f : Node → Node, sitesAt place (t.modifyAt f p) =
        before.map (Site.edited (fun m q => m.modifyAt f q) (place ++ p)) ++
          sitesAt (place ++ p) (f n) ++ after := by
  induction p generalizing t place with
  | nil =>
      cases h
      exact ⟨[], [], by simp, fun f => by simp⟩
  | cons s p ih =>
      rw [get?_cons] at h
      obtain ⟨c, hc, hn⟩ := Option.bind_eq_some_iff.mp h
      obtain ⟨beside, rest, hbeside⟩ := exists_beside hc place
      obtain ⟨before, after, hsites, hedit⟩ := ih hn (place ++ [s])
      have hplace : place ++ [s] ++ p = place ++ s :: p := by simp
      rw [hplace] at hsites
      simp only [hplace] at hedit
      have hself : sitesAt place t = ⟨place, t⟩ :: beside ++ sitesAt (place ++ [s]) c ++ rest := by
        have hid : t.modifyChild id s = t := modifyChild_id fun _ _ => rfl
        have := hbeside id
        rwa [hid] at this
      -- no site beside the child stands above the place: it would be the node itself or in the child
      have hapart : ∀ site ∈ beside, ¬ site.place <+: place ++ s :: p := by
        intro site hs habove
        have hforward := forward_sitesAt t place
        rw [Forward, hself, List.append_assoc, List.cons_append, List.pairwise_cons,
          List.pairwise_append] at hforward
        have hmem : site ∈ sitesAt place t := by
          rw [hself]
          simp [hs]
        obtain ⟨q, hq, hget⟩ := mem_sitesAt_iff.mp hmem
        rw [hq, List.prefix_append_right_inj] at habove
        cases q with
        | nil =>
            have := hforward.1 site (List.mem_append_left _ hs)
            rw [hq, List.append_nil, Position.before_irrefl] at this
            cases this
        | cons s' q =>
            obtain ⟨rfl, -⟩ := List.cons_prefix_cons.mp habove
            rw [get?_cons, hc, Option.bind_some] at hget
            have hchild : (⟨site.place, site.node⟩ : Site) ∈ sitesAt (place ++ [s']) c :=
              mem_sitesAt_iff.mpr ⟨q, by rw [hq, List.append_assoc, List.singleton_append], hget⟩
            have := hforward.2.2.2 site hs _ (List.mem_append_left _ hchild)
            rw [Position.before_irrefl] at this
            cases this
      refine ⟨⟨place, t⟩ :: beside ++ before, after ++ rest, ?_, fun f => ?_⟩
      · rw [hself, hsites]
        simp only [List.cons_append, List.append_assoc]
      · have hbeside' : beside.map (Site.edited (fun m q => m.modifyAt f q) (place ++ s :: p)) =
            beside :=
          (List.map_congr_left fun site hs => Site.edited_of_not_above (hapart site hs)).trans
            (List.map_id' _)
        have hroot : Site.edited (fun m q => m.modifyAt f q) (place ++ s :: p) ⟨place, t⟩ =
            ⟨place, t.modifyAt f (s :: p)⟩ := by
          rw [Site.edited, if_pos (List.prefix_append _ _), List.drop_left]
        rw [modifyAt_cons, hbeside, hedit, List.map_append, List.map_cons, hbeside', hroot,
          modifyAt_cons]
        simp only [List.cons_append, List.append_assoc]

/-! ## Removals -/

/-- What the removal at a place leaves of the nodes at some sites. -/
def nodesLeft (p : Position) (sites : List Site) : List Node :=
  (sites.filter fun site => !p.isPrefixOf site.place).map fun site =>
    pruneAt (· == p) site.place site.node

theorem nodesLeft_append (p : Position) (xs ys : List Site) :
    nodesLeft p (xs ++ ys) = nodesLeft p xs ++ nodesLeft p ys := by
  rw [nodesLeft, List.filter_append, List.map_append]
  rfl

theorem nodesLeft_inside {p : Position} {sites : List Site}
    (h : ∀ site ∈ sites, p <+: site.place) : nodesLeft p sites = [] := by
  rw [nodesLeft, List.map_eq_nil_iff, List.filter_eq_nil_iff]
  intro site hs
  simp [h site hs]

theorem nodesLeft_outside {p : Position} {sites : List Site}
    (h : ∀ site ∈ sites, ¬ p <+: site.place) :
    nodesLeft p sites = sites.map fun site => pruneAt (· == p) site.place site.node := by
  rw [nodesLeft, List.filter_eq_self.mpr]
  intro site hs
  rw [Bool.not_eq_true', ← Bool.not_eq_true, List.isPrefixOf_iff_prefix]
  exact h site hs

section
variable {p : Position}

theorem not_prefix_step {place : Position} {s : Step} (h : ¬ p <+: place)
    (hp : (place ++ [s] == p) = false) : ¬ p <+: place ++ [s] :=
  fun hbelow => h (Position.prefix_of_prefix_append hbelow (Ne.symm (beq_eq_false_iff_ne.mp hp)))

mutual

/-- A removal takes the sites below its place out of the walk. -/
theorem nodes_pruneAt (q : Position) {place : Position} : ∀ n : Node, ¬ p <+: place →
    (sitesAt q (pruneAt (· == p) place n)).map Site.node = nodesLeft p (sitesAt place n)
  | .mk k slots, h => by
      have hroot : nodesLeft p [⟨place, .mk k slots⟩] = [pruneAt (· == p) place (.mk k slots)] :=
        nodesLeft_outside (by simpa using h)
      rw [sitesAt, ← List.singleton_append, nodesLeft_append, hroot, pruneAt, sitesAt, List.map_cons,
        nodes_pruneSlots q 0 slots h]
      rfl

theorem nodes_pruneSlots (q : Position) {place : Position} (slot : Nat) : ∀ slots : List Slot,
    ¬ p <+: place → (slotSites q slot (pruneSlots (· == p) place slot slots)).map Site.node =
      nodesLeft p (slotSites place slot slots)
  | [], _ => rfl
  | .one none :: rest, h => by
      rw [pruneSlots, slotSites, slotSites, nodes_pruneSlots q (slot + 1) rest h]
  | .one (some child) :: rest, h => by
      rw [pruneSlots, slotSites, nodesLeft_append, ← nodes_pruneSlots q (slot + 1) rest h]
      cases hp : place ++ [⟨slot, none⟩] == p with
      | true =>
          rw [nodesLeft_inside fun site hs => beq_iff_eq.mp hp ▸ prefix_of_mem_sitesAt hs]
          rfl
      | false =>
          rw [← nodes_pruneAt _ child (not_prefix_step h hp)]
          exact List.map_append
  | .many children :: rest, h => by
      rw [pruneSlots, slotSites, slotSites, List.map_append, nodesLeft_append,
        nodes_pruneSlots q (slot + 1) rest h, nodes_pruneChildren q slot 0 0 children h]

theorem nodes_pruneChildren (q : Position) {place : Position} (slot index index' : Nat) :
    ∀ children : List (Option Node), ¬ p <+: place →
      (childSites q slot index' (pruneChildren (· == p) place slot index children)).map Site.node =
        nodesLeft p (childSites place slot index children)
  | [], _ => rfl
  | none :: rest, h => by
      rw [pruneChildren, childSites, childSites,
        nodes_pruneChildren q slot (index + 1) (index' + 1) rest h]
  | some child :: rest, h => by
      rw [pruneChildren, childSites, nodesLeft_append]
      cases hp : place ++ [⟨slot, some index⟩] == p with
      | true =>
          -- the gap is closed, so the later children get lower indexes
          rw [nodesLeft_inside fun site hs => beq_iff_eq.mp hp ▸ prefix_of_mem_sitesAt hs]
          exact nodes_pruneChildren q slot (index + 1) index' rest h
      | false =>
          rw [← nodes_pruneChildren q slot (index + 1) (index' + 1) rest h,
            ← nodes_pruneAt _ child (not_prefix_step h hp)]
          exact List.map_append

end

end

section
variable (doomed : Position → Bool) (p : Position)

mutual

/-- Pruning goes by the places below the place of a tree. -/
theorem pruneAt_under (q : Position) : ∀ n : Node,
    pruneAt doomed (p ++ q) n = pruneAt (fun r => doomed (p ++ r)) q n
  | .mk _ slots => by rw [pruneAt, pruneAt, pruneSlots_under q 0 slots]

theorem pruneSlots_under (q : Position) (slot : Nat) : ∀ slots : List Slot,
    pruneSlots doomed (p ++ q) slot slots = pruneSlots (fun r => doomed (p ++ r)) q slot slots
  | [] => rfl
  | .one none :: rest => by rw [pruneSlots, pruneSlots, pruneSlots_under q (slot + 1) rest]
  | .one (some child) :: rest => by
      rw [pruneSlots, pruneSlots, pruneSlots_under q (slot + 1) rest, List.append_assoc,
        pruneAt_under _ child]
  | .many children :: rest => by
      rw [pruneSlots, pruneSlots, pruneSlots_under q (slot + 1) rest,
        pruneChildren_under q slot 0 children]

theorem pruneChildren_under (q : Position) (slot index : Nat) : ∀ children : List (Option Node),
    pruneChildren doomed (p ++ q) slot index children =
      pruneChildren (fun r => doomed (p ++ r)) q slot index children
  | [] => rfl
  | none :: rest => by
      rw [pruneChildren, pruneChildren, pruneChildren_under q slot (index + 1) rest]
  | some child :: rest => by
      rw [pruneChildren, pruneChildren, pruneChildren_under q slot (index + 1) rest,
        List.append_assoc, pruneAt_under _ child]

end

end

/-- A removal leaves a node as it is, or removes what stands below the node. -/
theorem pruneAt_eq_edited {p : Position} {site : Site} (h : ¬ p <+: site.place) :
    pruneAt (· == p) site.place site.node = (site.edited removeAt p).node := by
  unfold Site.edited
  split
  · rename_i habove
    obtain ⟨q, rfl⟩ := habove
    have := pruneAt_under (· == site.place ++ q) site.place [] site.node
    rw [List.append_nil] at this
    rw [this, List.drop_left, removeAt, prune]
    congr 1
    funext r
    rw [Bool.eq_iff_iff, beq_iff_eq, beq_iff_eq, List.append_cancel_left_eq]
  · rename_i hbeside
    refine pruneAt_eq_self _ fun q hq _ => beq_eq_false_iff_ne.mpr ?_
    rintro rfl
    exact hbeside hq

/-- **A removal takes an interval out of the walk.** -/
theorem nodes_removeAt {t : Node} {p : Position} {inner before after : List Site} (hp : p ≠ [])
    (h : t.sites = before ++ inner ++ after) (hin : ∀ site ∈ inner, p <+: site.place)
    (hout : ∀ site ∈ before ++ after, ¬ p <+: site.place) :
    (t.removeAt p).sites.map Site.node =
      (before ++ after).map fun site => (site.edited removeAt p).node := by
  have hroot : ¬ p <+: [] := fun hbelow => hp (List.prefix_nil.mp hbelow)
  rw [removeAt, prune, sites, nodes_pruneAt [] t hroot, ← sites, h, nodesLeft_append,
    nodesLeft_append, nodesLeft_inside hin, List.append_nil, ← nodesLeft_append,
    nodesLeft_outside hout]
  exact List.map_congr_left fun site hs => pruneAt_eq_edited (hout site hs)

/-! ## Visits -/

section
variable {t : Node} {v : Visit}

/-- The sites of a subtree stand side by side in the walk, and an edit exchanges them. -/
theorem sites_of_visit (hv : v ∈ t.walk) :
    t.sites = t.sites.take v.order ++ sitesAt v.site.place v.site.node ++
        t.sites.drop (v.order + v.site.node.size) ∧
      ∀ f : Node → Node, (t.modifyAt f v.site.place).sites =
        (t.sites.take v.order).map (Site.edited (fun m q => m.modifyAt f q) v.site.place) ++
          sitesAt v.site.place (f v.site.node) ++ t.sites.drop (v.order + v.site.node.size) := by
  obtain ⟨hget, horder⟩ := mem_walk_iff.mp hv
  obtain ⟨before, after, hsites, hedit⟩ := exists_interval hget []
  rw [List.nil_append] at hsites
  simp only [List.nil_append] at hedit
  have hlength : before.length = v.order := by
    rw [horder]
    refine (walkOrder_of_getElem? ?_).symm
    rw [sites, hsites, ← Site.below, v.site.below_eq, List.append_assoc,
      List.getElem?_append_right (Nat.le_refl _), Nat.sub_self]
    rfl
  have htake : t.sites.take v.order = before := by
    rw [sites, hsites, List.append_assoc, ← hlength, List.take_left]
  have hdrop : t.sites.drop (v.order + v.site.node.size) = after := by
    rw [sites, hsites, ← hlength, ← length_sitesAt v.site.place, ← List.length_append,
      List.drop_left]
  rw [htake, hdrop]
  exact ⟨hsites, hedit⟩

/-- What the walk has in front of the interval of a subtree comes before its root, and what it has
behind the interval comes after all of the subtree. -/
theorem before_of_visit (hv : v ∈ t.walk) :
    (∀ site ∈ t.sites.take v.order, site.place.before v.site.place = true) ∧
      ∀ site ∈ t.sites.drop (v.order + v.site.node.size),
        ∀ inner ∈ sitesAt v.site.place v.site.node, inner.place.before site.place = true := by
  have hforward := forward_sitesAt t []
  rw [Forward, ← sites, (sites_of_visit hv).1, List.pairwise_append, List.pairwise_append] at hforward
  obtain ⟨⟨-, -, hbefore⟩, -, hafter⟩ := hforward
  have hself : v.site ∈ sitesAt v.site.place v.site.node := mem_sitesAt_iff.mpr ⟨[], by simp⟩
  exact ⟨fun site hs => hbefore site hs v.site hself,
    fun site hs inner hin => hafter inner (List.mem_append_right _ hin) site hs⟩

/-- What stands beside the interval of a subtree stands beside the subtree. -/
theorem not_prefix_of_outside (hv : v ∈ t.walk) {site : Site}
    (hs : site ∈ t.sites.take v.order ++ t.sites.drop (v.order + v.site.node.size)) :
    ¬ v.site.place <+: site.place := by
  rcases List.mem_append.mp hs with hs | hs
  · exact Position.not_prefix_of_before ((before_of_visit hv).1 site hs)
  · rintro ⟨q, hq⟩
    have hget := mem_sites_iff.mp (List.mem_of_mem_drop hs)
    rw [← hq, get?_append, (mem_walk_iff.mp hv).1] at hget
    have hbelow : site ∈ sitesAt v.site.place v.site.node := mem_sitesAt_iff.mpr ⟨q, hq.symm, hget⟩
    have := (before_of_visit hv).2 site hs site hbelow
    rw [Position.before_irrefl] at this
    cases this

/-- What stands behind the interval of a subtree does not stand above the subtree. -/
theorem not_above_of_behind (hv : v ∈ t.walk) {site : Site}
    (hs : site ∈ t.sites.drop (v.order + v.site.node.size)) : ¬ site.place <+: v.site.place :=
  Position.not_prefix_of_before
    ((before_of_visit hv).2 site hs v.site (mem_sitesAt_iff.mpr ⟨[], by simp⟩))

/-- **The orders of a subtree form an interval.** -/
theorem prefix_iff_order (hv : v ∈ t.walk) {w : Visit} (hw : w ∈ t.walk) :
    v.site.place <+: w.site.place ↔ v.order ≤ w.order ∧ w.order < v.order + v.site.node.size := by
  have hget := mem_walk_iff_getElem?.mp hw
  constructor
  -- outside the interval, the visit would be in one of the lists beside it
  · refine fun hbelow => ⟨?_, ?_⟩ <;> refine Decidable.by_contra fun hnot => ?_
    · refine not_prefix_of_outside hv (List.mem_append_left _ ?_) hbelow
      refine List.mem_of_getElem? (i := w.order) ?_
      rwa [List.getElem?_take_of_lt (by omega)]
    · refine not_prefix_of_outside hv (List.mem_append_right _ ?_) hbelow
      refine List.mem_of_getElem? (i := w.order - (v.order + v.site.node.size)) ?_
      rwa [List.getElem?_drop, Nat.add_sub_cancel' (by omega)]
  · rintro ⟨hle, hlt⟩
    have hk : (t.sites.take v.order).length = v.order :=
      List.length_take_of_le (Nat.le_of_lt (List.getElem?_eq_some_iff.mp
        (mem_walk_iff_getElem?.mp hv)).1)
    rw [(sites_of_visit hv).1, List.append_assoc, List.getElem?_append_right (by omega), hk,
      List.getElem?_append_left (by rw [length_sitesAt]; omega)] at hget
    exact prefix_of_mem_sitesAt (List.mem_of_getElem? hget)

/-- The kinds of the nodes in the order of the walk. -/
def kinds (t : Node) : List Kind := t.sites.map fun site => site.node.kind

theorem map_kind_edited {edit : Node → Position → Node}
    (hedit : ∀ n s q, (edit n (s :: q)).kind = n.kind) {p : Position} {sites : List Site}
    (h : ∀ site ∈ sites, ¬ p <+: site.place) :
    (sites.map fun site => (site.edited edit p).node.kind) = sites.map fun site => site.node.kind :=
  List.map_congr_left fun site hs => Site.kind_edited hedit (h site hs)

/-- **A replacement exchanges the interval of a subtree** for the walk of what comes in its place. -/
theorem exists_replaceBelow (hv : v ∈ t.walk) (hpos : 0 < v.order) (m : Node) :
    ∃ t', t.replaceBelow v.site.place m = .ok t' ∧
      t'.sites = (t.sites.take v.order).map (Site.edited (fun n q => n.replaceAt q m) v.site.place) ++
        m.sites.map (Site.under v.site.place) ++ t.sites.drop (v.order + v.site.node.size) ∧
      t'.kinds = t.kinds.take v.order ++ m.kinds ++ t.kinds.drop (v.order + v.site.node.size) := by
  have hsites := (sites_of_visit hv).2 fun _ => m
  rw [sitesAt_eq] at hsites
  refine ⟨t.replaceAt v.site.place m, ?_, hsites, ?_⟩
  · rw [replaceBelow, if_neg (by simpa using place_ne_nil hv hpos)]
  · have hfront := @map_kind_edited (fun n q => n.replaceAt q m)
      (fun n s q => kind_modifyChild _ n s) _ _
      fun site hs => not_prefix_of_outside hv (List.mem_append_left _ hs)
    rw [kinds, kinds, kinds, replaceAt, hsites, ← List.map_take, ← List.map_drop, ← hfront]
    simp only [List.map_append, List.map_map]
    rfl

/-- **A removal takes the interval of a subtree out of the walk.** -/
theorem exists_removeBelow (hv : v ∈ t.walk) (hpos : 0 < v.order) :
    ∃ t', t.removeBelow v.site.place = .ok t' ∧
      t'.sites.map Site.node =
        ((t.sites.take v.order).map fun site => (site.edited removeAt v.site.place).node) ++
          (t.sites.drop (v.order + v.site.node.size)).map Site.node ∧
      t'.kinds = t.kinds.take v.order ++ t.kinds.drop (v.order + v.site.node.size) := by
  have hne := place_ne_nil hv hpos
  have hout : ∀ site ∈ t.sites.take v.order ++ t.sites.drop (v.order + v.site.node.size),
      ¬ v.site.place <+: site.place := fun _ => not_prefix_of_outside hv
  have hnodes := nodes_removeAt hne (sites_of_visit hv).1 (fun _ => prefix_of_mem_sitesAt) hout
  refine ⟨t.removeAt v.site.place, ?_, ?_, ?_⟩
  · rw [removeBelow, if_neg (by simpa using hne)]
  · rw [hnodes, List.map_append]
    congr 1
    exact List.map_congr_left fun site hs =>
      congrArg Site.node (Site.edited_of_not_above (not_above_of_behind hv hs))
  · have hkinds := congrArg (List.map kind) hnodes
    rw [List.map_map, List.map_map] at hkinds
    refine hkinds.trans ((map_kind_edited (fun n s q => kind_pruneAt _ _ n) hout).trans ?_)
    rw [kinds, List.map_append, List.map_take, List.map_drop]

end

/-- **The walk with a stack is the recursive one, and an edit exchanges an interval of it.**  The
visits are the nodes of the recursive walk, each one once, and numbered from zero; what a visit below
the root is at is held by a node that has been visited before, in a slot with a name.  The visits of a
subtree have the numbers of an interval.  In the sequence of nodes, a replacement puts the nodes of
what is new in place of that interval, and a removal deletes it; all other nodes keep their order, and
change only in having the edit somewhere below them. -/
theorem walk_and_edits (t : Node) :
    (t.walk.map Visit.site = t.sites ∧ t.walk.map Visit.order = List.range t.size ∧
      t.places.Nodup) ∧
    (∀ v ∈ t.walk, 0 < v.order → ∃ w ∈ t.walk, ∃ s, w.order < v.order ∧
      v.site.place = w.site.place ++ [s] ∧ w.site.node.child? s = some v.site.node ∧
      (t.conforms = true → ∃ key, w.site.node.slotName? s = some key ∧
        w.site.node.held? key s.index = some v.site.node)) ∧
    ∀ v ∈ t.walk,
      (∀ w ∈ t.walk, v.site.place <+: w.site.place ↔
        v.order ≤ w.order ∧ w.order < v.order + v.site.node.size) ∧
      (0 < v.order →
        (∀ m, ∃ t', t.replaceBelow v.site.place m = .ok t' ∧
          t'.sites =
            (t.sites.take v.order).map (Site.edited (fun n q => n.replaceAt q m) v.site.place) ++
              m.sites.map (Site.under v.site.place) ++ t.sites.drop (v.order + v.site.node.size) ∧
          t'.kinds = t.kinds.take v.order ++ m.kinds ++ t.kinds.drop (v.order + v.site.node.size)) ∧
        ∃ t', t.removeBelow v.site.place = .ok t' ∧
          t'.sites.map Site.node =
            ((t.sites.take v.order).map fun site => (site.edited removeAt v.site.place).node) ++
              (t.sites.drop (v.order + v.site.node.size)).map Site.node ∧
          t'.kinds = t.kinds.take v.order ++ t.kinds.drop (v.order + v.site.node.size)) := by
  refine ⟨⟨sites_walk t, orders_walk t, places_nodup t⟩, fun v hv hpos => ?_, fun v hv =>
    ⟨fun w hw => prefix_iff_order hv hw, fun hpos =>
      ⟨exists_replaceBelow hv hpos, exists_removeBelow hv hpos⟩⟩⟩
  obtain ⟨w, hw, s, hlt, hplace, hchild⟩ := exists_parent_visit hv hpos
  refine ⟨w, hw, s, hlt, hplace, hchild, fun hconforms => exists_slotName ?_ hchild⟩
  exact conforms_iff.mp hconforms _ _ (mem_walk_iff.mp hw).1

/-- The walk of a call, and edits of its first argument. -/
theorem walk_and_edits_call :
    let t := callOf (ident "f") [some (unary1 .spread (ident "a")), none, some (ident "b")]
    let v : Visit := ⟨2, ⟨[⟨1, some 0⟩], unary1 .spread (ident "a")⟩⟩
    v ∈ t.walk ∧ t.conforms = true ∧
      (∃ w ∈ t.walk, ∃ s key, v.site.place = w.site.place ++ [s] ∧
        w.site.node.held? key s.index = some v.site.node) ∧
      (∃ t', t.replaceBelow v.site.place (callOf (ident "g") []) = .ok t' ∧ t'.kinds =
        [.call, .identifier "f", .call, .identifier "g", .identifier "b"]) ∧
      ∃ t', t.removeBelow v.site.place = .ok t' ∧
        t'.kinds = [.call, .identifier "f", .identifier "b"] := by
  intro t v
  have hv : v ∈ t.walk := mem_walk_iff.mpr ⟨rfl, by decide⟩
  have hconforms : t.conforms = true := by decide
  obtain ⟨-, hheld, hedits⟩ := walk_and_edits t
  obtain ⟨w, hw, s, -, hplace, -, hname⟩ := hheld v hv (by decide)
  obtain ⟨-, hedit⟩ := hedits v hv
  obtain ⟨hreplace, t', hremove, -, hkinds⟩ := hedit (by decide)
  obtain ⟨t'', hreplaced, -, hkinds'⟩ := hreplace (callOf (ident "g") [])
  obtain ⟨key, -, hkey⟩ := hname hconforms
  exact ⟨hv, hconforms, ⟨w, hw, s, key, hplace, hkey⟩, ⟨t'', hreplaced, hkinds'⟩, t', hremove,
    hkinds⟩

end Node

end Descramble

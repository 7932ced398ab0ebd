import Descramble.Proofs.Tree.Layout
import Descramble.Proofs.Tree.Order
import Descramble.Tree.Walk

/-!
# The walk with a stack is the recursive one

What stands on the stack of a walk are the roots of the trees that are still to be walked, the next
one last.  So a walk goes through the sites of these trees, one tree after the other.

* `Site.below_eq` — a site comes before what stands below its children.
* `Walk.sites_visits`, `Walk.orders_visits` — the sites and the orders of the visits that are left.
* `Node.sites_walk`, `Node.orders_walk` — the visits of a tree are its sites, numbered from zero.
* `Node.exists_parent_visit` — who holds a site, and in which slot.
-/

set_option autoImplicit false

namespace Descramble

/-- The sites of the tree at a site. -/
def Site.below (site : Site) : List Site := Node.sitesAt site.place site.node

namespace Node

theorem childSites_eq (place : Position) (slot : Nat) :
    ∀ (index : Nat) (children : List (Option Node)), childSites place slot index children =
      ((children.zipIdx index).flatMap fun (child, index) =>
        child.toList.map fun c => (⟨place ++ [⟨slot, some index⟩], c⟩ : Site)).flatMap Site.below
  | _, [] => rfl
  | index, none :: rest => by
      rw [childSites, childSites_eq place slot (index + 1) rest, List.zipIdx_cons, List.flatMap_cons]
      rfl
  | index, some child :: rest => by
      rw [childSites, childSites_eq place slot (index + 1) rest, List.zipIdx_cons, List.flatMap_cons,
        List.flatMap_append]
      simp [Site.below]

theorem slotSites_eq (place : Position) (slot : Nat) (slots : List Slot) :
    slotSites place slot slots =
      ((slots.zipIdx slot).flatMap fun (s, i) => s.childrenAt place i).flatMap Site.below := by
  induction slots generalizing slot with
  | nil => rfl
  | cons s rest ih =>
      rw [List.zipIdx_cons, List.flatMap_cons, List.flatMap_append, ← ih (slot + 1)]
      rcases s with (_ | child) | children
      · rw [slotSites]
        rfl
      · simp [slotSites, Slot.childrenAt, Site.below]
      · rw [slotSites, childSites_eq]
        rfl

end Node

/-- **A site comes before its children**, and each child before all that stands below it. -/
theorem Site.below_eq (site : Site) : site.below = site :: site.children.flatMap Site.below := by
  obtain ⟨place, k, slots⟩ := site
  rw [Site.below, Node.sitesAt, Node.slotSites_eq]
  rfl

namespace Walk

theorem step?_eq_none {w : Walk} (h : w.step? = none) : w.stack = [] := by
  rwa [step?, Option.map_eq_none_iff, List.getLast?_eq_none_iff] at h

/-- A visit takes the last site off the stack and puts its children there. -/
theorem step?_eq_some {w next : Walk} {v : Visit} (h : w.step? = some (v, next)) :
    ∃ before, w.stack = before ++ [v.site] ∧ v.order = w.order ∧
      next.stack = before ++ v.site.children.reverse ∧ next.order = w.order + 1 := by
  obtain ⟨site, hsite, hstep⟩ := Option.map_eq_some_iff.mp h
  cases hstep
  obtain ⟨before, hstack⟩ := List.getLast?_eq_some_iff.mp hsite
  exact ⟨before, hstack, rfl, by rw [hstack, List.dropLast_concat], rfl⟩

theorem visits_of_none {w : Walk} (h : w.step? = none) : w.visits = [] := by
  rw [visits]
  split
  · rfl
  · rename_i hsome
    rw [h] at hsome
    cases hsome

theorem visits_of_some {w next : Walk} {v : Visit} (h : w.step? = some (v, next)) :
    w.visits = v :: next.visits := by
  rw [visits]
  split
  · rename_i hnone
    rw [h] at hnone
    cases hnone
  · rename_i hsome
    rw [h] at hsome
    cases hsome
    rfl

/-- **The trees on the stack are walked one after the other**, the last one first. -/
theorem sites_visits (w : Walk) :
    w.visits.map Visit.site = w.stack.reverse.flatMap Site.below := by
  induction w using visits.induct with
  | case1 w hstep =>
      rw [visits_of_none hstep, step?_eq_none hstep]
      rfl
  | case2 w v next hstep ih =>
      obtain ⟨before, hstack, -, hnext, -⟩ := step?_eq_some hstep
      rw [visits_of_some hstep, List.map_cons, ih, hstack, hnext, List.reverse_append,
        List.reverse_append, List.reverse_reverse, List.flatMap_append, List.flatMap_append,
        List.reverse_singleton, List.flatMap_singleton, v.site.below_eq, List.cons_append]

/-- The visits are numbered one after the other. -/
theorem orders_visits (w : Walk) :
    w.visits.map Visit.order = List.range' w.order w.visits.length := by
  induction w using visits.induct with
  | case1 w hstep =>
      rw [visits_of_none hstep]
      rfl
  | case2 w v next hstep ih =>
      obtain ⟨-, -, horder, -, hnext⟩ := step?_eq_some hstep
      rw [visits_of_some hstep, List.map_cons, ih, hnext, horder, List.length_cons,
        List.range'_succ]

end Walk

namespace Node

mutual

theorem length_sitesAt (place : Position) : ∀ n : Node, (sitesAt place n).length = n.size
  | .mk _ slots => by rw [sitesAt, size, List.length_cons, length_slotSites place 0 slots]

theorem length_slotSites (place : Position) : ∀ (slot : Nat) (slots : List Slot),
    (slotSites place slot slots).length = slotsSize slots
  | _, [] => rfl
  | slot, .one none :: rest => by rw [slotSites, slotsSize, length_slotSites place (slot + 1) rest]
  | slot, .one (some child) :: rest => by
      rw [slotSites, slotsSize, List.length_append, length_sitesAt _ child,
        length_slotSites place (slot + 1) rest]
  | slot, .many children :: rest => by
      rw [slotSites, slotsSize, List.length_append, length_childSites place slot 0 children,
        length_slotSites place (slot + 1) rest]

theorem length_childSites (place : Position) (slot : Nat) : ∀ (index : Nat)
    (children : List (Option Node)), (childSites place slot index children).length = childrenSize children
  | _, [] => rfl
  | index, none :: rest => by
      rw [childSites, childrenSize, length_childSites place slot (index + 1) rest]
  | index, some child :: rest => by
      rw [childSites, childrenSize, List.length_append, length_sitesAt _ child,
        length_childSites place slot (index + 1) rest]

end

/-- **The walk with a stack is the recursive one.** -/
theorem sites_walk (t : Node) : t.walk.map Visit.site = t.sites := by
  rw [walk, Walk.sites_visits]
  exact List.append_nil _

/-- **The visits are numbered from zero**, and there are as many as nodes. -/
theorem orders_walk (t : Node) : t.walk.map Visit.order = List.range t.size := by
  have hlength : t.walk.length = t.size := by
    rw [← List.length_map Visit.site, sites_walk, sites, length_sitesAt]
  rw [walk, Walk.orders_visits, ← walk, hlength]
  exact List.range_eq_range'.symm

/-- A visit is a site with the index at which the recursive walk has it. -/
theorem mem_walk_iff_getElem? {t : Node} {v : Visit} :
    v ∈ t.walk ↔ t.sites[v.order]? = some v.site := by
  have hvisit : ∀ (i : Nat) (w : Visit), t.walk[i]? = some w →
      w.order = i ∧ t.sites[i]? = some w.site := by
    intro i w hw
    have horders := congrArg (·[i]?) (orders_walk t)
    simp only [List.getElem?_map, hw, Option.map_some] at horders
    obtain ⟨hi, hget⟩ := List.getElem?_eq_some_iff.mp horders.symm
    rw [List.getElem_range] at hget
    exact ⟨hget.symm, by rw [← sites_walk, List.getElem?_map, hw, Option.map_some]⟩
  constructor
  · intro hv
    obtain ⟨i, hi⟩ := List.mem_iff_getElem?.mp hv
    rw [(hvisit i v hi).1]
    exact (hvisit i v hi).2
  · intro hv
    have hwalk := hv
    rw [← sites_walk, List.getElem?_map] at hwalk
    obtain ⟨w, hw, hws⟩ := Option.map_eq_some_iff.mp hwalk
    have horder : w.order = v.order := (hvisit _ _ hw).1
    have hwv : w = v := by
      cases v
      cases w
      cases hws
      cases horder
      rfl
    exact hwv ▸ List.mem_of_getElem? hw

theorem walkOrder_of_getElem? {t : Node} {i : Nat} {site : Site} (h : t.sites[i]? = some site) :
    walkOrder t site.place = i := by
  have hplaces : t.places[i]? = some site.place := by
    rw [places, List.getElem?_map, h, Option.map_some]
  obtain ⟨hi, hget⟩ := List.getElem?_eq_some_iff.mp hplaces
  rw [walkOrder, ← hget, (places_nodup t).idxOf_getElem]

theorem mem_walk_iff {t : Node} {v : Visit} :
    v ∈ t.walk ↔ t.get? v.site.place = some v.site.node ∧ v.order = walkOrder t v.site.place := by
  rw [mem_walk_iff_getElem?, ← mem_sites_iff]
  constructor
  · exact fun hv => ⟨List.mem_of_getElem? hv, (walkOrder_of_getElem? hv).symm⟩
  · rintro ⟨hsite, horder⟩
    obtain ⟨i, hi⟩ := List.mem_iff_getElem?.mp hsite
    rwa [horder, walkOrder_of_getElem? hi]

/-! ## Slots by name -/

/-- The child in the slot with a name. -/
def held? (n : Node) (name : String) (index : Option Nat) : Option Node :=
  (n.kind.slotNames.findIdx? fun slot => slot.name == name).bind fun i => n.child? ⟨i, index⟩

end Node

/-- No two slots of a node have the same name. -/
theorem Kind.nodup_slotNames (k : Kind) : (k.slotNames.map SlotName.name).Nodup := by
  cases k <;> simp only [slotNames] <;> decide

namespace Node

/-- The slot of a child is found by its name. -/
theorem exists_slotName {n c : Node} {s : Step} (hn : n.fits = true) (hc : n.child? s = some c) :
    ∃ name, n.slotName? s = some name ∧ n.held? name s.index = some c := by
  have hlength : s.slot < n.kind.slotNames.length := by
    replace hn := skeleton_of_fits hn
    rw [← List.length_map Kind.SlotName.isList, ← hn]
    exact (List.getElem?_eq_some_iff.mp (skeleton_of_child? hc)).1
  refine ⟨_, by rw [slotName?, List.getElem?_eq_getElem hlength, Option.map_some], ?_⟩
  have hfound : (n.kind.slotNames.findIdx? fun slot => slot.name == (n.kind.slotNames[s.slot]).name) =
      some s.slot := by
    rw [List.findIdx?_eq_some_iff_getElem]
    refine ⟨hlength, beq_self_eq_true _, fun j hj hsame => ?_⟩
    have hj' : j < n.kind.slotNames.length := Nat.lt_trans hj hlength
    have hne := List.pairwise_iff_getElem.mp n.kind.nodup_slotNames j s.slot
      (by rwa [List.length_map]) (by rwa [List.length_map]) hj
    rw [List.getElem_map, List.getElem_map] at hne
    exact hne (beq_iff_eq.mp hsame)
  rw [held?, hfound]
  exact hc

theorem walkOrder_nil (t : Node) : walkOrder t [] = 0 := by
  obtain ⟨k, slots⟩ := t
  rw [walkOrder, places, sites, sitesAt, List.map_cons, List.idxOf_cons_self]

/-- A visit behind the first one is below the root. -/
theorem place_ne_nil {t : Node} {v : Visit} (hv : v ∈ t.walk) (hpos : 0 < v.order) :
    v.site.place ≠ [] := by
  intro hroot
  rw [(mem_walk_iff.mp hv).2, hroot, walkOrder_nil] at hpos
  exact absurd hpos (Nat.lt_irrefl 0)

/-- **A site below the root is held by a site that has been visited before.** -/
theorem exists_parent_visit {t : Node} {v : Visit} (hv : v ∈ t.walk) (hpos : 0 < v.order) :
    ∃ w ∈ t.walk, ∃ s, w.order < v.order ∧ v.site.place = w.site.place ++ [s] ∧
      w.site.node.child? s = some v.site.node := by
  obtain ⟨hget, horder⟩ := mem_walk_iff.mp hv
  obtain ⟨p, s, hplace⟩ :=
    (List.eq_nil_or_concat v.site.place).resolve_left (place_ne_nil hv hpos)
  rw [List.concat_eq_append] at hplace
  have hchild := hget
  rw [hplace, get?_concat] at hchild
  obtain ⟨n, hn, hchild⟩ := Option.bind_eq_some_iff.mp hchild
  refine ⟨⟨walkOrder t p, p, n⟩, mem_walk_iff.mpr ⟨hn, rfl⟩, s, ?_, hplace, hchild⟩
  rw [horder]
  refine walkOrder_lt_of_before (mem_places_iff.mpr ⟨n, hn⟩) (mem_places_iff.mpr ⟨_, hget⟩) ?_
  exact Position.before_of_step_prefix (Position.prefix_of_eq hplace.symm)

end Node

end Descramble

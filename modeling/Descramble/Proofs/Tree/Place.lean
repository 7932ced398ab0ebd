import Descramble.Pass.Revision

/-!
# Places and the walk

What `Node.get?` finds and what `Node.sites` lists are the same thing, and an edit at a place is
seen exactly below that place.

* `Node.childInduction`, `Node.placeInduction` — induction over trees by child, and over places by step.
* `Node.mem_sites_iff` — the walk reaches exactly the nodes that places lead to.
* `Position.before_irrefl`, `Position.before_asymm` — the order of places is strict.
* `Node.pairwise_places` — the walk goes by this order, so it reaches no place twice.
* `Node.get?_modifyAt_of_not_prefix`, `Node.get?_modifyAt_append` — what an edit changes.
* `Node.map_get?_modifyAt_of_not_prefix` — what an edit leaves alone outside its place.
-/

set_option autoImplicit false

namespace Descramble

namespace Position

theorem isInside_iff {p q : Position} : p.isInside q = true ↔ q <+: p ∧ q ≠ p := by
  unfold isInside
  rw [Bool.and_eq_true, List.isPrefixOf_iff_prefix, decide_eq_true_eq]
  constructor
  · rintro ⟨h, hlt⟩
    exact ⟨h, fun he => by rw [he] at hlt; omega⟩
  · rintro ⟨h, hne⟩
    have hle := h.length_le
    refine ⟨h, Nat.lt_of_le_of_ne hle fun he => hne (h.eq_of_length he)⟩

/-- A place that starts with two steps from the same place took one step. -/
theorem step_eq_of_isPrefixOf {p q : Position} {s s' : Step} (h : p ++ [s] <+: q)
    (h' : p ++ [s'] <+: q) : s = s' := by
  obtain ⟨r, rfl⟩ := h
  obtain ⟨r', hr⟩ := h'
  simp only [List.append_assoc, List.append_cancel_left_eq, List.singleton_append,
    List.cons.injEq] at hr
  exact hr.1.symm

theorem prefix_of_eq {p q : Position} (h : p = q) : p <+: q := h ▸ List.prefix_refl p

/-- No place lies above itself. -/
theorem not_append_prefix {p r : Position} (hr : r ≠ []) : ¬ p ++ r <+: p := by
  intro h
  have := h.length_le
  rw [List.length_append] at this
  exact hr (List.length_eq_zero_iff.mp (by omega))

theorem prefix_of_prefix_append {p q : Position} {s : Step} (h : q <+: p ++ [s])
    (hne : q ≠ p ++ [s]) : q <+: p := by
  rcases List.prefix_concat_iff.mp h with he | he
  · exact absurd he hne
  · exact he

/-- Two places above a common place lie one above the other. -/
theorem prefix_total {p q r : Position} (hp : p <+: r) (hq : q <+: r) : p <+: q ∨ q <+: p :=
  List.prefix_or_prefix_of_prefix hp hq

theorem stepBefore_asymm {a b : Step} (h : stepBefore a b = true) : stepBefore b a = false := by
  simp only [stepBefore, Bool.or_eq_true, Bool.and_eq_true, decide_eq_true_eq, beq_iff_eq] at h
  simp only [stepBefore, Bool.or_eq_false_iff, Bool.and_eq_false_iff, decide_eq_false_iff_not,
    beq_eq_false_iff_ne]
  omega

theorem before_asymm : ∀ {p q : Position}, p.before q = true → q.before p = false
  | [], [], h => by cases h
  | [], _ :: _, _ => rfl
  | _ :: _, [], h => by cases h
  | a :: p, b :: q, h => by
      rw [before] at h ⊢
      by_cases hab : a = b
      · rw [if_pos hab] at h
        rw [if_pos hab.symm]
        exact before_asymm h
      · rw [if_neg hab] at h
        rw [if_neg (Ne.symm hab)]
        exact stepBefore_asymm h

theorem before_irrefl (p : Position) : p.before p = false := by
  cases h : p.before p with
  | false => rfl
  | true => exact h.symm.trans (before_asymm h)

theorem before_append : ∀ (p q r : Position), before (p ++ q) (p ++ r) = before q r
  | [], _, _ => rfl
  | s :: p, q, r => by
      rw [List.cons_append, List.cons_append, before, if_pos rfl]
      exact before_append p q r

/-- Nothing comes before a node above it. -/
theorem not_before_of_prefix {p q : Position} (h : q <+: p) : p.before q = false := by
  obtain ⟨r, rfl⟩ := h
  have := before_append q r []
  rw [List.append_nil] at this
  rw [this]
  cases r <;> rfl

theorem not_prefix_of_before {p q : Position} (h : p.before q = true) : ¬ q <+: p := by
  intro habove
  have hnot := not_before_of_prefix habove
  rw [h] at hnot
  cases hnot

/-- A node comes before what stands below it. -/
theorem before_of_step_prefix {p q : Position} {s : Step} (h : p ++ [s] <+: q) :
    p.before q = true := by
  obtain ⟨r, rfl⟩ := h
  have := before_append p [] (s :: r)
  rwa [List.append_nil, ← List.singleton_append, ← List.append_assoc] at this

/-- What stands below an earlier child comes before what stands below a later one. -/
theorem before_of_steps {p q r : Position} {s s' : Step} (hs : stepBefore s s' = true)
    (hq : p ++ [s] <+: q) (hr : p ++ [s'] <+: r) : q.before r = true := by
  obtain ⟨q, rfl⟩ := hq
  obtain ⟨r, rfl⟩ := hr
  have hne : s ≠ s' := by
    rintro rfl
    exact absurd (stepBefore_asymm hs) (by rw [hs]; exact Bool.noConfusion)
  rw [List.append_assoc, List.append_assoc, before_append, List.singleton_append,
    List.singleton_append, before, if_neg hne]
  exact hs

/-- **Induction over places** by their last step. -/
@[elab_as_elim] theorem stepInduction {P : Position → Prop} (root : P [])
    (step : ∀ p s, P p → P (p ++ [s])) (p : Position) : P p := by
  rw [← List.reverse_reverse p]
  induction p.reverse with
  | nil => exact root
  | cons s rest ih =>
      rw [List.reverse_cons]
      exact step _ s ih

@[simp] theorem parent?_concat (p : Position) (s : Step) : parent? (p ++ [s]) = some p := by
  simp [parent?]

theorem parent?_eq_some {p q : Position} : parent? p = some q ↔ ∃ s, p = q ++ [s] := by
  constructor
  · intro h
    unfold parent? at h
    split at h
    · cases h
    · rename_i hne
      cases h
      have hne' : p ≠ [] := by simpa using hne
      exact ⟨p.getLast hne', (List.dropLast_concat_getLast hne').symm⟩
  · rintro ⟨s, rfl⟩
    exact parent?_concat q s

end Position

namespace Node

/-! ## Children -/

/-- The child of a list of slots. -/
def childOfSlots (slots : List Slot) (i : Nat) (index : Option Nat) : Option Node :=
  match slots[i]?, index with
  | some (.one child), none => child
  | some (.many children), some j => (children[j]?).join
  | _, _ => none

theorem child?_mk (k : Kind) (slots : List Slot) (s : Step) :
    (Node.mk k slots).child? s = childOfSlots slots s.slot s.index := rfl

@[simp] theorem childOfSlots_nil (i : Nat) (index : Option Nat) :
    childOfSlots [] i index = none := by
  simp [childOfSlots]

@[simp] theorem childOfSlots_cons_succ (slot : Slot) (rest : List Slot) (i : Nat)
    (index : Option Nat) : childOfSlots (slot :: rest) (i + 1) index = childOfSlots rest i index := by
  simp [childOfSlots]

@[simp] theorem childOfSlots_one (child : Option Node) (rest : List Slot) :
    childOfSlots (.one child :: rest) 0 none = child := rfl

@[simp] theorem childOfSlots_one_some (child : Option Node) (rest : List Slot) (j : Nat) :
    childOfSlots (.one child :: rest) 0 (some j) = none := rfl

@[simp] theorem childOfSlots_many (children : List (Option Node)) (rest : List Slot) (j : Nat) :
    childOfSlots (.many children :: rest) 0 (some j) = (children[j]?).join := rfl

@[simp] theorem childOfSlots_many_none (children : List (Option Node)) (rest : List Slot) :
    childOfSlots (.many children :: rest) 0 none = none := rfl

theorem size_le_childrenSize : ∀ {children : List (Option Node)} {j : Nat} {c : Node},
    children[j]? = some (some c) → size c ≤ childrenSize children
  | [], _, _, h => by simp at h
  | none :: rest, 0, _, h => by simp at h
  | some d :: rest, 0, c, h => by
      simp only [List.getElem?_cons_zero, Option.some.injEq] at h
      subst h
      simp only [childrenSize]
      omega
  | none :: rest, j + 1, c, h => by
      have := @size_le_childrenSize rest j c (by simpa using h)
      simpa only [childrenSize] using this
  | some d :: rest, j + 1, c, h => by
      have := @size_le_childrenSize rest j c (by simpa using h)
      simp only [childrenSize]
      omega

theorem join_eq_some {α : Type} {x : Option (Option α)} {a : α} : x.join = some a ↔ x = some (some a) := by
  cases x <;> simp

theorem size_le_slotsSize : ∀ {slots : List Slot} {i : Nat} {index : Option Nat} {c : Node},
    childOfSlots slots i index = some c → size c ≤ slotsSize slots
  | [], _, _, _, h => by simp at h
  | .one child :: rest, 0, none, c, h => by
      simp only [childOfSlots_one] at h
      subst h
      simp only [slotsSize]
      omega
  | .one child :: rest, 0, some j, c, h => by simp at h
  | .many children :: rest, 0, none, c, h => by simp at h
  | .many children :: rest, 0, some j, c, h => by
      rw [childOfSlots_many, join_eq_some] at h
      have := size_le_childrenSize h
      simp only [slotsSize]
      omega
  | .one none :: rest, i + 1, index, c, h => by
      rw [childOfSlots_cons_succ] at h
      simpa only [slotsSize] using size_le_slotsSize h
  | .one (some d) :: rest, i + 1, index, c, h => by
      rw [childOfSlots_cons_succ] at h
      have := size_le_slotsSize h
      simp only [slotsSize]
      omega
  | .many children :: rest, i + 1, index, c, h => by
      rw [childOfSlots_cons_succ] at h
      have := size_le_slotsSize h
      simp only [slotsSize]
      omega

theorem size_child?_lt {n c : Node} {s : Step} (h : n.child? s = some c) : c.size < n.size := by
  obtain ⟨k, slots⟩ := n
  rw [child?_mk] at h
  have := size_le_slotsSize h
  simp only [size]
  omega

/-- **Induction over trees**: what passes from all children to their parent holds everywhere. -/
theorem childInduction {P : Node → Prop}
    (h : ∀ n, (∀ s c, n.child? s = some c → P c) → P n) (n : Node) : P n :=
  h n fun _ c _ => childInduction h c
termination_by n.size
decreasing_by exact size_child?_lt ‹_›

/-! ## Looking up -/

@[simp] theorem get?_nil (n : Node) : n.get? [] = some n := rfl

theorem get?_cons (n : Node) (s : Step) (p : Position) :
    n.get? (s :: p) = (n.child? s).bind fun c => c.get? p := rfl

theorem get?_append : ∀ (n : Node) (p q : Position),
    n.get? (p ++ q) = (n.get? p).bind fun m => m.get? q
  | _, [], _ => rfl
  | n, s :: p, q => by
      rw [List.cons_append, get?_cons, get?_cons]
      cases n.child? s with
      | none => rfl
      | some c => exact get?_append c p q

theorem get?_concat (n : Node) (p : Position) (s : Step) :
    n.get? (p ++ [s]) = (n.get? p).bind fun m => m.child? s := by
  rw [get?_append]
  congr
  funext m
  rw [get?_cons]
  cases m.child? s <;> rfl

/-- **Induction over trees** with all that lies below a node at hand. -/
theorem belowInduction {P : Node → Prop}
    (h : ∀ n, (∀ s r c, n.get? (s :: r) = some c → P c) → P n) (n : Node) : P n := by
  have hall : ∀ r c, n.get? r = some c → P c := by
    induction n using childInduction with
    | h n ih =>
        have hbelow : ∀ s r c, n.get? (s :: r) = some c → P c := by
          intro s r c hc
          rw [get?_cons] at hc
          obtain ⟨m, hm, hc⟩ := Option.bind_eq_some_iff.mp hc
          exact ih s m hm r c hc
        intro r c hc
        cases r with
        | nil =>
            cases hc
            exact h n hbelow
        | cons s r => exact hbelow s r c hc
  exact hall [] n rfl

/-- Above a node there is a node. -/
theorem exists_get?_of_prefix {n m : Node} {p q : Position} (h : n.get? p = some m)
    (hq : q <+: p) : ∃ m', n.get? q = some m' := by
  obtain ⟨r, rfl⟩ := hq
  rw [get?_append] at h
  obtain ⟨m', hm', -⟩ := Option.bind_eq_some_iff.mp h
  exact ⟨m', hm'⟩

/-- **Induction over the places of a tree**, from the root down. -/
@[elab_as_elim] theorem placeInduction {t : Node} {P : Position → Prop} (root : P [])
    (step : ∀ p s n c, t.get? p = some n → n.child? s = some c → P p → P (p ++ [s]))
    (p : Position) (n : Node) (h : t.get? p = some n) : P p := by
  induction hlen : p.length generalizing p n with
  | zero =>
      have : p = [] := List.length_eq_zero_iff.mp hlen
      rw [this]
      exact root
  | succ len ih =>
      have hne : p ≠ [] := by
        intro he
        simp [he] at hlen
      rw [← List.dropLast_concat_getLast hne] at h ⊢
      rw [get?_concat] at h
      obtain ⟨m, hm, hc⟩ := Option.bind_eq_some_iff.mp h
      exact step _ _ m n hm hc (ih _ m hm (by simp [hlen]))

/-! ## The walk -/

/-- The entries of a list of children, counted from `index` on: the first one, and those behind it. -/
theorem exists_entry_cons {P : Nat → Node → Prop} {entry : Option Node} {rest : List (Option Node)}
    {index : Nat} :
    (∃ j c, (entry :: rest)[j]? = some (some c) ∧ P (index + j) c) ↔
      (∃ c, entry = some c ∧ P index c) ∨ ∃ j c, rest[j]? = some (some c) ∧ P (index + 1 + j) c := by
  constructor
  · rintro ⟨_ | j, c, hj, hc⟩
    · exact Or.inl ⟨c, Option.some.inj hj, hc⟩
    · exact Or.inr ⟨j, c, hj, by rwa [show index + 1 + j = index + (j + 1) by omega]⟩
  · rintro (⟨c, rfl, hc⟩ | ⟨j, c, hj, hc⟩)
    · exact ⟨0, c, rfl, hc⟩
    · exact ⟨j + 1, c, hj, by rwa [show index + (j + 1) = index + 1 + j by omega]⟩

theorem mem_childSites {place : Position} {slot : Nat} {site : Site} :
    ∀ {index : Nat} {children : List (Option Node)},
      site ∈ childSites place slot index children ↔
        ∃ j c, children[j]? = some (some c) ∧
          site ∈ sitesAt (place ++ [⟨slot, some (index + j)⟩]) c
  | _, [] => by simp [childSites]
  | index, child :: rest => by
      rw [exists_entry_cons (P := fun i c => site ∈ sitesAt (place ++ [Step.mk slot (some i)]) c),
        ← mem_childSites]
      cases child <;> simp [childSites]

theorem mem_slotSites {place : Position} {site : Site} :
    ∀ {slot : Nat} {slots : List Slot},
      site ∈ slotSites place slot slots ↔
        ∃ i index c, childOfSlots slots i index = some c ∧
          site ∈ sitesAt (place ++ [⟨slot + i, index⟩]) c
  | _, [] => by simp [slotSites]
  | slot, .one child :: rest => by
      have hrest : site ∈ slotSites place (slot + 1) rest ↔
          ∃ i index c, childOfSlots (.one child :: rest) (i + 1) index = some c ∧
            site ∈ sitesAt (place ++ [⟨slot + (i + 1), index⟩]) c := by
        rw [mem_slotSites]
        simp only [childOfSlots_cons_succ, show ∀ i, slot + 1 + i = slot + (i + 1) by omega]
      have hfirst : site ∈ slotSites place slot (.one child :: rest) ↔
          (∃ c, child = some c ∧ site ∈ sitesAt (place ++ [⟨slot, none⟩]) c) ∨
            site ∈ slotSites place (slot + 1) rest := by
        cases child with
        | none => simp [slotSites]
        | some c => simp [slotSites]
      rw [hfirst, hrest]
      constructor
      · rintro (⟨c, hc, hs⟩ | ⟨i, index, c, hc, hs⟩)
        · exact ⟨0, none, c, hc, hs⟩
        · exact ⟨i + 1, index, c, hc, hs⟩
      · rintro ⟨i, index, c, hc, hs⟩
        cases i with
        | zero =>
            cases index with
            | none => exact Or.inl ⟨c, hc, hs⟩
            | some j => simp at hc
        | succ i => exact Or.inr ⟨i, index, c, hc, hs⟩
  | slot, .many children :: rest => by
      rw [slotSites, List.mem_append, mem_slotSites, mem_childSites]
      constructor
      · rintro (⟨j, c, hc, hs⟩ | ⟨i, index, c, hc, hs⟩)
        · exact ⟨0, some j, c, by rw [childOfSlots_many, hc]; rfl, by simpa using hs⟩
        · exact ⟨i + 1, index, c, by rwa [childOfSlots_cons_succ],
            by rwa [show slot + (i + 1) = slot + 1 + i by omega]⟩
      · rintro ⟨i, index, c, hc, hs⟩
        cases i with
        | zero =>
            cases index with
            | none => simp at hc
            | some j =>
                rw [childOfSlots_many, join_eq_some] at hc
                exact Or.inl ⟨j, c, hc, by simpa using hs⟩
        | succ i =>
            exact Or.inr ⟨i, index, c, by rwa [childOfSlots_cons_succ] at hc,
              by rwa [show slot + 1 + i = slot + (i + 1) by omega]⟩

/-- The walk of a node starts with the node and goes on with its children. -/
theorem mem_sitesAt_iff_child {place : Position} {n : Node} {site : Site} :
    site ∈ sitesAt place n ↔
      site = ⟨place, n⟩ ∨ ∃ s c, n.child? s = some c ∧ site ∈ sitesAt (place ++ [s]) c := by
  obtain ⟨k, slots⟩ := n
  rw [sitesAt, List.mem_cons, mem_slotSites]
  simp only [Nat.zero_add]
  constructor
  · rintro (h | ⟨i, index, c, hc, hs⟩)
    · exact Or.inl h
    · exact Or.inr ⟨⟨i, index⟩, c, hc, hs⟩
  · rintro (h | ⟨⟨i, index⟩, c, hc, hs⟩)
    · exact Or.inl h
    · exact Or.inr ⟨i, index, c, hc, hs⟩

theorem mem_sitesAt_iff {site : Site} : ∀ {place : Position} {n : Node},
    site ∈ sitesAt place n ↔ ∃ q, site.place = place ++ q ∧ n.get? q = some site.node := by
  intro place n
  induction n using childInduction generalizing place with
  | h n ih =>
      rw [mem_sitesAt_iff_child]
      constructor
      · rintro (rfl | ⟨s, c, hc, hs⟩)
        · exact ⟨[], by simp⟩
        · obtain ⟨q, hq, hg⟩ := (ih s c hc).mp hs
          exact ⟨s :: q, by simp [hq], by rw [get?_cons, hc]; exact hg⟩
      · rintro ⟨q, hq, hg⟩
        cases q with
        | nil =>
            simp only [get?_nil, Option.some.injEq, List.append_nil] at hg hq
            exact Or.inl (by cases site; simp_all)
        | cons s q =>
            rw [get?_cons] at hg
            obtain ⟨c, hc, hg⟩ := Option.bind_eq_some_iff.mp hg
            exact Or.inr ⟨s, c, hc, (ih s c hc).mpr ⟨q, by simp [hq], hg⟩⟩

/-- **The walk reaches exactly the nodes that places lead to.** -/
theorem mem_sites_iff {t : Node} {site : Site} :
    site ∈ t.sites ↔ t.get? site.place = some site.node := by
  unfold sites
  rw [mem_sitesAt_iff]
  simp

theorem mem_places_iff {t : Node} {p : Position} : p ∈ t.places ↔ ∃ n, t.get? p = some n := by
  unfold places
  rw [List.mem_map]
  constructor
  · rintro ⟨site, hs, rfl⟩
    exact ⟨site.node, mem_sites_iff.mp hs⟩
  · rintro ⟨n, hn⟩
    exact ⟨⟨p, n⟩, mem_sites_iff.mpr hn, rfl⟩

theorem prefix_of_mem_sitesAt {place : Position} {n : Node} {site : Site}
    (h : site ∈ sitesAt place n) : place <+: site.place := by
  obtain ⟨q, hq, -⟩ := mem_sitesAt_iff.mp h
  exact ⟨q, hq.symm⟩

/-! ## The walk goes forward -/

/-- Each place comes before those behind it in the list. -/
def Forward (sites : List Site) : Prop :=
  sites.Pairwise fun site site' => site.place.before site'.place = true

theorem forward_childSites {place : Position} {slot : Nat} :
    ∀ {index : Nat} {children : List (Option Node)},
      (∀ (j : Nat) c, children[j]? = some (some c) → ∀ place, Forward (sitesAt place c)) →
      Forward (childSites place slot index children)
  | _, [], _ => .nil
  | index, none :: rest, h => by
      rw [childSites]
      exact forward_childSites fun j c hc => h (j + 1) c (by simpa using hc)
  | index, some d :: rest, h => by
      rw [childSites]
      refine List.pairwise_append.mpr ⟨h 0 d rfl _,
        forward_childSites fun j c hc => h (j + 1) c (by simpa using hc), ?_⟩
      intro site hs site' hs'
      obtain ⟨j, c, -, hs'⟩ := mem_childSites.mp hs'
      refine Position.before_of_steps ?_ (prefix_of_mem_sitesAt hs) (prefix_of_mem_sitesAt hs')
      simp only [Position.stepBefore, Option.getD_some, Bool.or_eq_true, Bool.and_eq_true,
        decide_eq_true_eq, beq_iff_eq]
      exact Or.inr ⟨trivial, by omega⟩

/-- What stands below one slot comes before what stands below the slots behind it. -/
theorem before_of_mem_slotSites {place : Position} {slot : Nat} {index : Option Nat} {c : Node}
    {rest : List Slot} {site site' : Site} (hs : site ∈ sitesAt (place ++ [⟨slot, index⟩]) c)
    (hs' : site' ∈ slotSites place (slot + 1) rest) : site.place.before site'.place = true := by
  obtain ⟨i, index', c', -, hs'⟩ := mem_slotSites.mp hs'
  refine Position.before_of_steps ?_ (prefix_of_mem_sitesAt hs) (prefix_of_mem_sitesAt hs')
  simp only [Position.stepBefore, Bool.or_eq_true, Bool.and_eq_true, decide_eq_true_eq, beq_iff_eq]
  omega

theorem forward_slotSites {place : Position} :
    ∀ {slot : Nat} {slots : List Slot},
      (∀ i index c, childOfSlots slots i index = some c → ∀ place, Forward (sitesAt place c)) →
      Forward (slotSites place slot slots)
  | _, [], _ => .nil
  | slot, .one none :: rest, h => by
      rw [slotSites]
      exact forward_slotSites fun i index c hc => h (i + 1) index c (by simpa using hc)
  | slot, .one (some d) :: rest, h => by
      rw [slotSites]
      exact List.pairwise_append.mpr ⟨h 0 none d rfl _,
        forward_slotSites fun i index c hc => h (i + 1) index c (by simpa using hc),
        fun _ hs _ hs' => before_of_mem_slotSites hs hs'⟩
  | slot, .many children :: rest, h => by
      rw [slotSites]
      refine List.pairwise_append.mpr
        ⟨forward_childSites fun j c hc => h 0 (some j) c (by rw [childOfSlots_many, hc]; rfl),
        forward_slotSites fun i index c hc => h (i + 1) index c (by simpa using hc), ?_⟩
      intro site hs site' hs'
      obtain ⟨j, c, -, hs⟩ := mem_childSites.mp hs
      exact before_of_mem_slotSites hs hs'

theorem forward_sitesAt (n : Node) : ∀ place, Forward (sitesAt place n) := by
  induction n using childInduction with
  | h n ih =>
      intro place
      obtain ⟨k, slots⟩ := n
      rw [sitesAt]
      refine List.pairwise_cons.mpr
        ⟨?_, forward_slotSites fun i index c hc => ih ⟨i, index⟩ c hc⟩
      intro site hs
      obtain ⟨i, index, c, -, hs⟩ := mem_slotSites.mp hs
      exact Position.before_of_step_prefix (prefix_of_mem_sitesAt hs)

/-- **The walk goes forward**: it reaches the places of a tree in their order. -/
theorem pairwise_places (t : Node) : t.places.Pairwise fun p q => p.before q = true :=
  List.pairwise_map.mpr (forward_sitesAt t [])

/-- **The walk reaches no place twice.** -/
theorem places_nodup (t : Node) : t.places.Nodup := by
  refine (pairwise_places t).imp fun {p q} h => ?_
  rintro rfl
  rw [Position.before_irrefl] at h
  cases h

/-! ## Edits -/

theorem child?_modifyChild (f : Node → Node) (n : Node) (s s' : Step) :
    (n.modifyChild f s).child? s' = if s = s' then (n.child? s).map f else n.child? s' := by
  obtain ⟨k, slots⟩ := n
  obtain ⟨i, index⟩ := s
  obtain ⟨i', index'⟩ := s'
  cases hc : (Node.mk k slots).child? ⟨i, index⟩ with
  | none =>
      simp only [modifyChild, hc, Option.map_none]
      split
      · rename_i h
        rw [← h, hc]
      · rfl
  | some c =>
      simp only [modifyChild, hc, Option.map_some]
      rw [child?_mk, child?_mk] at *
      simp only [childOfSlots] at hc ⊢
      by_cases hi : i = i'
      · subst hi
        rw [List.getElem?_modify_eq]
        cases hs : slots[i]? with
        | none => rw [hs] at hc; cases hc
        | some slot =>
            rw [hs] at hc
            cases slot with
            | one d =>
                cases index with
                | some j => cases hc
                | none => cases index' <;> simp [Slot.setAt]
            | many ds =>
                cases index with
                | none => cases hc
                | some j =>
                    simp only [join_eq_some] at hc
                    have hj : j < ds.length := by
                      obtain ⟨h, -⟩ := List.getElem?_eq_some_iff.mp hc
                      exact h
                    cases index' with
                    | none => simp [Slot.setAt]
                    | some j' =>
                        simp only [Option.map_eq_map, Option.map_some, Slot.setAt, List.getElem?_set]
                        by_cases hjj : j = j'
                        · subst hjj; simp [hj]
                        · simp [hjj]
      · simp [hi]

@[simp] theorem kind_modifyChild (f : Node → Node) (n : Node) (s : Step) :
    (n.modifyChild f s).kind = n.kind := by
  unfold modifyChild
  split <;> rfl

@[simp] theorem modifyAt_nil (f : Node → Node) (n : Node) : n.modifyAt f [] = f n := rfl

theorem modifyAt_cons (f : Node → Node) (n : Node) (s : Step) (q : Position) :
    n.modifyAt f (s :: q) = n.modifyChild (modifyAt f q) s := rfl

/-- Below the place of an edit stands what the edit made of the node. -/
theorem get?_modifyAt_append (f : Node → Node) : ∀ (n : Node) (q r : Position),
    (n.modifyAt f q).get? (q ++ r) = (n.get? q).bind fun m => (f m).get? r
  | _, [], _ => rfl
  | n, s :: q, r => by
      rw [modifyAt_cons, List.cons_append, get?_cons, child?_modifyChild, if_pos rfl, get?_cons]
      cases n.child? s with
      | none => rfl
      | some c => exact get?_modifyAt_append f c q r

/-- Beside the place of an edit nothing changes. -/
theorem get?_modifyAt_of_not_prefix (f : Node → Node) : ∀ (n : Node) (q p : Position),
    ¬ q <+: p → ¬ p <+: q → (n.modifyAt f q).get? p = n.get? p
  | _, [], p, h, _ => absurd (List.nil_prefix) h
  | _, _ :: _, [], _, h => absurd (List.nil_prefix) h
  | n, s :: q, s' :: p, hq, hp => by
      rw [modifyAt_cons, get?_cons, child?_modifyChild, get?_cons]
      by_cases hs : s = s'
      · subst hs
        rw [if_pos rfl]
        cases n.child? s with
        | none => rfl
        | some c =>
            refine get?_modifyAt_of_not_prefix f c q p (fun h => hq ?_) (fun h => hp ?_)
            · exact (List.cons_prefix_cons).mpr ⟨rfl, h⟩
            · exact (List.cons_prefix_cons).mpr ⟨rfl, h⟩
      · rw [if_neg hs]

theorem get?_replaceAt_append (n m : Node) (q r : Position) :
    (n.replaceAt q m).get? (q ++ r) = (n.get? q).bind fun _ => m.get? r :=
  get?_modifyAt_append _ n q r

theorem setAt_self {slot : Slot} {index : Option Nat} {c : Node}
    (h : childOfSlots [slot] 0 index = some c) : slot.setAt index (some c) = slot := by
  cases slot with
  | one d =>
      cases index with
      | none =>
          simp only [childOfSlots_one] at h
          simp [Slot.setAt, h]
      | some j => simp at h
  | many ds =>
      cases index with
      | none => simp at h
      | some j =>
          rw [childOfSlots_many, join_eq_some] at h
          obtain ⟨hj, he⟩ := List.getElem?_eq_some_iff.mp h
          simp [Slot.setAt, ← he]

theorem modifyChild_eq_self {f : Node → Node} {n c : Node} {s : Step} (hc : n.child? s = some c)
    (hf : f c = c) : n.modifyChild f s = n := by
  obtain ⟨k, slots⟩ := n
  obtain ⟨i, index⟩ := s
  simp only [modifyChild, hc, hf]
  congr 1
  apply List.ext_getElem?
  intro j
  rw [List.getElem?_modify]
  by_cases hj : i = j
  · subst hj
    rw [child?_mk] at hc
    cases hs : slots[i]? with
    | none => simp
    | some slot =>
        have : childOfSlots [slot] 0 index = some c := by
          simpa [childOfSlots, hs] using hc
        simp [setAt_self this]
  · simp [hj]

/-- An edit at a place that leads nowhere changes nothing. -/
theorem modifyAt_of_get?_none (f : Node → Node) : ∀ (n : Node) (q : Position),
    n.get? q = none → n.modifyAt f q = n
  | _, [], h => by cases h
  | n, s :: q, h => by
      rw [get?_cons] at h
      rw [modifyAt_cons]
      cases hc : n.child? s with
      | none =>
          obtain ⟨k, slots⟩ := n
          simp only [modifyChild, hc]
      | some c =>
          rw [hc] at h
          exact modifyChild_eq_self hc (modifyAt_of_get?_none f c q h)

/-! ## Views that an edit keeps -/

/-- An edit keeps, outside its place, what does not depend on children. -/
theorem map_get?_modifyAt_of_not_prefix {α : Type} {view : Node → α}
    (hview : ∀ g n s, view (modifyChild g n s) = view n) (f : Node → Node) :
    ∀ (t : Node) (q p : Position), ¬ q <+: p →
      ((t.modifyAt f q).get? p).map view = (t.get? p).map view
  | _, [], _, h => absurd List.nil_prefix h
  | t, s :: q, [], _ => by
      rw [modifyAt_cons, get?_nil, get?_nil, Option.map_some, Option.map_some, hview]
  | t, s :: q, s' :: p, h => by
      rw [modifyAt_cons, get?_cons, get?_cons, child?_modifyChild]
      by_cases hs : s = s'
      · subst hs
        rw [if_pos rfl]
        cases t.child? s with
        | none => rfl
        | some c =>
            exact map_get?_modifyAt_of_not_prefix hview f c q p
              fun hq => h (List.cons_prefix_cons.mpr ⟨rfl, hq⟩)
      · rw [if_neg hs]

/-- An edit that keeps the children of the node and a view of it keeps the view everywhere. -/
theorem map_get?_modifyAt {α : Type} {view : Node → α}
    (hview : ∀ g n s, view (modifyChild g n s) = view n) {f : Node → Node}
    (hf : ∀ n, view (f n) = view n) (hchild : ∀ n s, (f n).child? s = n.child? s) :
    ∀ (t : Node) (q p : Position), ((t.modifyAt f q).get? p).map view = (t.get? p).map view
  | t, [], [] => by
      rw [modifyAt_nil, get?_nil, get?_nil, Option.map_some, Option.map_some, hf]
  | t, [], s :: p => by rw [modifyAt_nil, get?_cons, get?_cons, hchild]
  | t, s :: q, [] => by
      rw [modifyAt_cons, get?_nil, get?_nil, Option.map_some, Option.map_some, hview]
  | t, s :: q, s' :: p => by
      rw [modifyAt_cons, get?_cons, get?_cons, child?_modifyChild]
      by_cases hs : s = s'
      · subst hs
        rw [if_pos rfl]
        cases t.child? s with
        | none => rfl
        | some c => exact map_get?_modifyAt hview hf hchild c q p
      · rw [if_neg hs]

end Node

end Descramble

import Descramble.Proofs.Scope.Embedding
import Descramble.Proofs.Pass.Edit

/-!
# Trees without doomed nodes

A pruned tree keeps all nodes that do not lie below a doomed place.  In a list the nodes behind a
gap move up, so that the places change.

* `Node.survivorIndex` — where an entry of a pruned list comes from.
* `Node.origin` — the place in the tree that a place in the pruned tree comes from.
* `Node.get?_prune` — what stands at a place of the pruned tree.
* `Node.exists_get?_prune` — what lies below no doomed place is still there.
* `Node.prune_congr` — tests that agree below what survives prune alike.
* `embeds_prune` — the pruned tree keeps the names of the tree.
-/

set_option autoImplicit false

namespace Descramble

namespace Node

variable (doomed : Position → Bool)

/-! ## Lists -/

/-- The index, in a list whose first entry has the index `index`, of entry number `j` of the pruned
list. -/
def survivorIndex (place : Position) (slot : Nat) : (index : Nat) → List (Option Node) → Nat → Nat
  | index, [], j => index + j
  | index, none :: _, 0 => index
  | index, none :: rest, j + 1 => survivorIndex place slot (index + 1) rest j
  | index, some _ :: rest, j =>
    if doomed (place ++ [⟨slot, some index⟩]) then survivorIndex place slot (index + 1) rest j
    else
      match j with
      | 0 => index
      | j + 1 => survivorIndex place slot (index + 1) rest j

theorem survivorIndex_some (place : Position) (slot index : Nat) (c : Node)
    (rest : List (Option Node)) (j : Nat) :
    survivorIndex doomed place slot index (some c :: rest) j =
      if doomed (place ++ [⟨slot, some index⟩]) then survivorIndex doomed place slot (index + 1) rest j
      else
        match j with
        | 0 => index
        | j + 1 => survivorIndex doomed place slot (index + 1) rest j := by
  cases j <;> rfl

/-- What an entry of a list becomes, if it stays. -/
def prunedEntry (place : Position) (slot index : Nat) (entry : Option Node) : Option Node :=
  entry.map (pruneAt doomed (place ++ [⟨slot, some index⟩]))

/-- Does an entry of a list stay?  A gap always does. -/
def entryStays (place : Position) (slot index : Nat) (entry : Option Node) : Bool :=
  entry.isNone || !doomed (place ++ [⟨slot, some index⟩])

theorem le_survivorIndex {place : Position} {slot : Nat} : ∀ {index : Nat}
    {children : List (Option Node)} {j : Nat}, index ≤ survivorIndex doomed place slot index children j
  | _, [], _ => by simp [survivorIndex]
  | _, none :: _, 0 => by simp [survivorIndex]
  | index, none :: rest, j + 1 => by
      rw [survivorIndex]
      exact Nat.le_of_succ_le le_survivorIndex
  | index, some c :: rest, j => by
      rw [survivorIndex_some]
      split
      · exact Nat.le_of_succ_le le_survivorIndex
      · cases j with
        | zero => exact Nat.le_refl _
        | succ j => exact Nat.le_of_succ_le le_survivorIndex

/-- Entry number `j` of the pruned list is what its origin becomes. -/
theorem getElem?_pruneChildren {place : Position} {slot : Nat} : ∀ {index : Nat}
    {children : List (Option Node)} {j : Nat} {x : Option Node},
      (pruneChildren doomed place slot index children)[j]? = some x →
        ∃ i entry, survivorIndex doomed place slot index children j = index + i ∧
          children[i]? = some entry ∧ entryStays doomed place slot (index + i) entry = true ∧
          x = prunedEntry doomed place slot (index + i) entry
  | index, [], j, x, h => by simp [pruneChildren] at h
  | index, none :: rest, 0, x, h => by
      simp only [pruneChildren, List.getElem?_cons_zero, Option.some.injEq] at h
      exact ⟨0, none, by simp [survivorIndex], rfl, rfl, by rw [← h]; rfl⟩
  | index, none :: rest, j + 1, x, h => by
      simp only [pruneChildren, List.getElem?_cons_succ] at h
      obtain ⟨i, entry, hi, hentry, hstay, hx⟩ := getElem?_pruneChildren h
      rw [show index + 1 + i = index + (i + 1) by omega] at hi hstay hx
      exact ⟨i + 1, entry, by rw [survivorIndex, hi], by simpa using hentry, hstay, hx⟩
  | index, some c :: rest, j, x, h => by
      simp only [pruneChildren] at h
      split at h
      · rename_i hdoomed
        obtain ⟨i, entry, hi, hentry, hstay, hx⟩ := getElem?_pruneChildren h
        rw [show index + 1 + i = index + (i + 1) by omega] at hi hstay hx
        exact ⟨i + 1, entry, by rw [survivorIndex_some, if_pos hdoomed, hi], by simpa using hentry, hstay, hx⟩
      · rename_i hdoomed
        cases j with
        | zero =>
            simp only [List.getElem?_cons_zero, Option.some.injEq] at h
            refine ⟨0, some c, by simp [survivorIndex, hdoomed], rfl, by simp [entryStays, hdoomed], ?_⟩
            rw [← h]
            rfl
        | succ j =>
            simp only [List.getElem?_cons_succ] at h
            obtain ⟨i, entry, hi, hentry, hstay, hx⟩ := getElem?_pruneChildren h
            rw [show index + 1 + i = index + (i + 1) by omega] at hi hstay hx
            exact ⟨i + 1, entry, by rw [survivorIndex_some, if_neg hdoomed]; exact hi,
              by simpa using hentry, hstay, hx⟩

/-- An entry that stays is the origin of an entry of the pruned list. -/
theorem exists_getElem?_pruneChildren {place : Position} {slot : Nat} : ∀ {index : Nat}
    {children : List (Option Node)} {i : Nat} {entry : Option Node},
      children[i]? = some entry → entryStays doomed place slot (index + i) entry = true →
        ∃ j, survivorIndex doomed place slot index children j = index + i ∧
          (pruneChildren doomed place slot index children)[j]? =
            some (prunedEntry doomed place slot (index + i) entry)
  | index, [], i, entry, h, _ => by simp at h
  | index, none :: rest, 0, entry, h, _ => by
      simp only [List.getElem?_cons_zero, Option.some.injEq] at h
      subst h
      exact ⟨0, by simp [survivorIndex], by simp [pruneChildren, prunedEntry]⟩
  | index, none :: rest, i + 1, entry, h, hstay => by
      simp only [List.getElem?_cons_succ] at h
      rw [show index + (i + 1) = index + 1 + i by omega] at hstay ⊢
      obtain ⟨j, hj, hget⟩ := exists_getElem?_pruneChildren h hstay
      exact ⟨j + 1, by rw [survivorIndex, hj], by simpa [pruneChildren] using hget⟩
  | index, some c :: rest, 0, entry, h, hstay => by
      simp only [List.getElem?_cons_zero, Option.some.injEq] at h
      subst h
      have hdoomed : ¬ doomed (place ++ [⟨slot, some index⟩]) = true := by
        simpa [entryStays] using hstay
      exact ⟨0, by simp [survivorIndex, hdoomed], by simp [pruneChildren, hdoomed, prunedEntry]⟩
  | index, some c :: rest, i + 1, entry, h, hstay => by
      simp only [List.getElem?_cons_succ] at h
      rw [show index + (i + 1) = index + 1 + i by omega] at hstay ⊢
      obtain ⟨j, hj, hget⟩ := exists_getElem?_pruneChildren h hstay
      by_cases hdoomed : doomed (place ++ [⟨slot, some index⟩]) = true
      · exact ⟨j, by rw [survivorIndex_some, if_pos hdoomed, hj], by simpa [pruneChildren, hdoomed] using hget⟩
      · exact ⟨j + 1, by rw [survivorIndex_some, if_neg hdoomed]; exact hj,
          by simpa [pruneChildren, hdoomed] using hget⟩

/-- Later entries of the pruned list come from later entries. -/
theorem survivorIndex_lt {place : Position} {slot : Nat} : ∀ {index : Nat}
    {children : List (Option Node)} {j j' : Nat}, j < j' →
      survivorIndex doomed place slot index children j <
        survivorIndex doomed place slot index children j'
  | index, [], j, j', h => by
      simp only [survivorIndex]
      omega
  | index, none :: rest, 0, j' + 1, _ => by
      rw [survivorIndex, survivorIndex]
      exact le_survivorIndex doomed
  | index, none :: rest, j + 1, j' + 1, h => by
      rw [survivorIndex, survivorIndex]
      exact survivorIndex_lt (Nat.lt_of_succ_lt_succ h)
  | index, some c :: rest, j, j', h => by
      rw [survivorIndex_some, survivorIndex_some]
      split
      · exact survivorIndex_lt h
      · match j, j', h with
        | 0, j' + 1, _ => exact le_survivorIndex doomed
        | j + 1, j' + 1, h => exact survivorIndex_lt (Nat.lt_of_succ_lt_succ h)

theorem survivorIndex_inj {place : Position} {slot index : Nat} {children : List (Option Node)}
    {j j' : Nat} (h : survivorIndex doomed place slot index children j =
      survivorIndex doomed place slot index children j') : j = j' := by
  rcases Nat.lt_trichotomy j j' with hlt | he | hlt
  · exact absurd h (Nat.ne_of_lt (survivorIndex_lt doomed hlt))
  · exact he
  · exact absurd h (Nat.ne_of_gt (survivorIndex_lt doomed hlt))

/-! ## Steps -/

/-- What a slot becomes. -/
def prunedSlot (place : Position) (slot : Nat) : Slot → Slot
  | .one child => .one (child.bind fun c =>
      if doomed (place ++ [⟨slot, none⟩]) then none
      else some (pruneAt doomed (place ++ [⟨slot, none⟩]) c))
  | .many children => .many (pruneChildren doomed place slot 0 children)

theorem getElem?_pruneSlots {place : Position} : ∀ {slot : Nat} {slots : List Slot} {i : Nat},
    (pruneSlots doomed place slot slots)[i]? = (slots[i]?).map (prunedSlot doomed place (slot + i))
  | _, [], _ => by simp [pruneSlots]
  | slot, .one none :: rest, 0 => rfl
  | slot, .one (some c) :: rest, 0 => rfl
  | slot, .many children :: rest, 0 => rfl
  | slot, .one none :: rest, i + 1 => by
      rw [pruneSlots, List.getElem?_cons_succ, List.getElem?_cons_succ, getElem?_pruneSlots,
        show slot + 1 + i = slot + (i + 1) by omega]
  | slot, .one (some c) :: rest, i + 1 => by
      rw [pruneSlots, List.getElem?_cons_succ, List.getElem?_cons_succ, getElem?_pruneSlots,
        show slot + 1 + i = slot + (i + 1) by omega]
  | slot, .many children :: rest, i + 1 => by
      rw [pruneSlots, List.getElem?_cons_succ, List.getElem?_cons_succ, getElem?_pruneSlots,
        show slot + 1 + i = slot + (i + 1) by omega]

theorem pruneSlots_eq_nil {place : Position} {slot : Nat} {slots : List Slot}
    (h : pruneSlots doomed place slot slots = []) : slots = [] := by
  match slots, h with
  | [], _ => rfl
  | .one none :: _, h => cases h
  | .one (some _) :: _, h => cases h
  | .many _ :: _, h => cases h

/-- A slot that is left first is what the first slot becomes. -/
theorem pruneSlots_eq_cons {place : Position} {slot : Nat} {slots rest' : List Slot} {left : Slot}
    (h : pruneSlots doomed place slot slots = left :: rest') : ∃ s rest, slots = s :: rest ∧
      left = prunedSlot doomed place slot s ∧ rest' = pruneSlots doomed place (slot + 1) rest := by
  match slots, h with
  | .one none :: rest, h =>
      cases h
      exact ⟨_, rest, rfl, rfl, rfl⟩
  | .one (some _) :: rest, h =>
      cases h
      exact ⟨_, rest, rfl, rfl, rfl⟩
  | .many _ :: rest, h =>
      cases h
      exact ⟨_, rest, rfl, rfl, rfl⟩

/-- A list does not grow. -/
theorem length_pruneChildren_le {place : Position} {slot : Nat} : ∀ {index : Nat}
    {children : List (Option Node)},
      (pruneChildren doomed place slot index children).length ≤ children.length
  | _, [] => Nat.le_refl _
  | _, none :: _ => Nat.succ_le_succ length_pruneChildren_le
  | _, some _ :: _ => by
      rw [pruneChildren]
      split
      · exact Nat.le_succ_of_le length_pruneChildren_le
      · exact Nat.succ_le_succ length_pruneChildren_le

@[simp] theorem kind_pruneAt (place : Position) (n : Node) :
    (pruneAt doomed place n).kind = n.kind := by
  obtain ⟨k, slots⟩ := n
  rfl

@[simp] theorem skeleton_pruneAt (place : Position) (n : Node) :
    (pruneAt doomed place n).skeleton = n.skeleton := by
  obtain ⟨k, slots⟩ := n
  rw [pruneAt, skeleton_mk, skeleton_mk]
  apply List.ext_getElem?
  intro i
  rw [List.getElem?_map, List.getElem?_map, getElem?_pruneSlots]
  cases slots[i]? with
  | none => rfl
  | some slot => cases slot <;> rfl

/-- The step that a step in the pruned node comes from. -/
def originStep (place : Position) (node : Node) (s : Step) : Step :=
  match node.slots[s.slot]?, s.index with
  | some (.many children), some j => ⟨s.slot, some (survivorIndex doomed place s.slot 0 children j)⟩
  | _, _ => s

@[simp] theorem originStep_none (place : Position) (node : Node) (i : Nat) :
    originStep doomed place node ⟨i, none⟩ = ⟨i, none⟩ := by
  unfold originStep
  split
  · rename_i h
    cases h
  · rfl

theorem originStep_many {place : Position} {node : Node} {i : Nat} {children : List (Option Node)}
    (h : node.slots[i]? = some (.many children)) (j : Nat) :
    originStep doomed place node ⟨i, some j⟩ =
      ⟨i, some (survivorIndex doomed place i 0 children j)⟩ := by
  simp only [originStep, h]

theorem originStep_similar (place : Position) (node : Node) (s : Step) :
    (originStep doomed place node s).Similar s := by
  unfold originStep
  split
  · rename_i hs
    exact ⟨rfl, by rw [hs]; rfl⟩
  · exact ⟨rfl, rfl⟩

/-- A child of the pruned node is what the child that it comes from becomes. -/
theorem child?_pruneAt {place : Position} {n c' : Node} {s : Step}
    (h : (pruneAt doomed place n).child? s = some c') :
    ∃ c, n.child? (originStep doomed place n s) = some c ∧
      doomed (place ++ [originStep doomed place n s]) = false ∧
      c' = pruneAt doomed (place ++ [originStep doomed place n s]) c := by
  obtain ⟨k, slots⟩ := n
  obtain ⟨i, index⟩ := s
  rw [pruneAt, child?_mk] at h
  simp only [childOfSlots, getElem?_pruneSlots, Nat.zero_add] at h
  cases hs : slots[i]? with
  | none =>
      rw [hs] at h
      cases h
  | some slot =>
      rw [hs] at h
      cases slot with
      | one child =>
          cases index with
          | some j => cases h
          | none =>
              simp only [Option.map_some, prunedSlot] at h
              obtain ⟨c, rfl, hc⟩ := Option.bind_eq_some_iff.mp h
              split at hc
              · cases hc
              · rename_i hdoomed
                cases hc
                rw [originStep_none]
                exact ⟨c, by simp [child?_mk, childOfSlots, hs], by simpa using hdoomed, rfl⟩
      | many children =>
          cases index with
          | none => cases h
          | some j =>
              simp only [Option.map_some, prunedSlot, join_eq_some] at h
              obtain ⟨o, entry, ho, hentry, hstay, hx⟩ := getElem?_pruneChildren doomed h
              rw [Nat.zero_add] at ho hstay hx
              cases entry with
              | none => cases hx
              | some c =>
                  cases hx
                  rw [@originStep_many doomed place (.mk k slots) i children hs, ho]
                  exact ⟨c, by simp [child?_mk, childOfSlots, hs, hentry],
                    by simpa [entryStays] using hstay, rfl⟩

/-- A child that is not doomed is still there. -/
theorem exists_child?_pruneAt {place : Position} {n c : Node} {r : Step} (h : n.child? r = some c)
    (hdoomed : doomed (place ++ [r]) = false) :
    ∃ s, originStep doomed place n s = r ∧
      (pruneAt doomed place n).child? s = some (pruneAt doomed (place ++ [r]) c) := by
  obtain ⟨k, slots⟩ := n
  obtain ⟨i, index⟩ := r
  rw [child?_mk] at h
  simp only [childOfSlots] at h
  cases hs : slots[i]? with
  | none =>
      rw [hs] at h
      cases h
  | some slot =>
      rw [hs] at h
      cases slot with
      | one child =>
          cases index with
          | some j => cases h
          | none =>
              simp only at h
              subst h
              refine ⟨⟨i, none⟩, originStep_none doomed place _ i, ?_⟩
              rw [pruneAt, child?_mk]
              simp [childOfSlots, getElem?_pruneSlots, hs, prunedSlot, hdoomed]
      | many children =>
          cases index with
          | none => cases h
          | some o =>
              simp only [join_eq_some] at h
              obtain ⟨j, hj, hget⟩ := @exists_getElem?_pruneChildren doomed place i 0 children o (some c) h
                (by simp [entryStays, hdoomed])
              rw [Nat.zero_add] at hj hget
              refine ⟨⟨i, some j⟩, ?_, ?_⟩
              · rw [@originStep_many doomed place (.mk k slots) i children hs, hj]
              · rw [pruneAt, child?_mk]
                simp [childOfSlots, getElem?_pruneSlots, hs, prunedSlot, hget, prunedEntry]

theorem originStep_inj {place : Position} {n : Node} {s s' : Step}
    (h : originStep doomed place n s = originStep doomed place n s') : s = s' := by
  obtain ⟨i, index⟩ := s
  obtain ⟨i', index'⟩ := s'
  have hi : i = i' := by
    have h1 := (originStep_similar doomed place n ⟨i, index⟩).1
    have h2 := (originStep_similar doomed place n ⟨i', index'⟩).1
    rw [h] at h1
    exact h1.symm.trans h2
  subst hi
  have hsome : (originStep doomed place n ⟨i, index⟩).index.isSome =
      (originStep doomed place n ⟨i, index'⟩).index.isSome := by rw [h]
  rw [(originStep_similar doomed place n ⟨i, index⟩).2,
    (originStep_similar doomed place n ⟨i, index'⟩).2] at hsome
  cases index with
  | none =>
      cases index' with
      | none => rfl
      | some j' => cases hsome
  | some j =>
      cases index' with
      | none => cases hsome
      | some j' =>
          by_cases hmany : ∃ children, n.slots[i]? = some (.many children)
          · obtain ⟨children, hs⟩ := hmany
            rw [originStep_many doomed hs, originStep_many doomed hs, Step.mk.injEq,
              Option.some.injEq] at h
            rw [survivorIndex_inj doomed h.2]
          · unfold originStep at h
            split at h
            · rename_i children _ hs _
              exact absurd ⟨children, hs⟩ hmany
            · split at h
              · rename_i children _ hs _
                exact absurd ⟨children, hs⟩ hmany
              · exact h

/-! ## Places -/

/-- The place that a place of the pruned tree comes from. -/
def origin (t : Node) (p : Position) : Position :=
  p.foldl (fun q s => q ++ [originStep doomed q ((t.get? q).getD t) s]) []

@[simp] theorem origin_nil (t : Node) : origin doomed t [] = [] := rfl

theorem origin_concat {t n : Node} {p : Position} (s : Step)
    (h : t.get? (origin doomed t p) = some n) :
    origin doomed t (p ++ [s]) =
      origin doomed t p ++ [originStep doomed (origin doomed t p) n s] := by
  have hstep : origin doomed t (p ++ [s]) = origin doomed t p ++
      [originStep doomed (origin doomed t p) ((t.get? (origin doomed t p)).getD t) s] := by
    simp only [origin, List.foldl_append, List.foldl_cons, List.foldl_nil]
  rw [hstep, h]
  rfl

/-- Nothing at or above a place is doomed, the root apart. -/
def Survives (p : Position) : Prop := ∀ q, q <+: p → q ≠ [] → doomed q = false

theorem survives_nil : Survives doomed [] := fun _ hq hne => absurd (List.prefix_nil.mp hq) hne

theorem survives_concat {p : Position} {s : Step} :
    Survives doomed (p ++ [s]) ↔ Survives doomed p ∧ doomed (p ++ [s]) = false := by
  constructor
  · intro h
    exact ⟨fun q hq hne => h q (hq.trans (List.prefix_append ..)) hne,
      h _ (List.prefix_refl _) (by simp)⟩
  · rintro ⟨hp, hs⟩ q hq hne
    rcases List.prefix_concat_iff.mp hq with rfl | hq
    · exact hs
    · exact hp q hq hne

theorem Survives.of_prefix {p q : Position} (h : Survives doomed p) (hq : q <+: p) :
    Survives doomed q := fun r hr hne => h r (hr.trans hq) hne

/-- **What stands at a place of the pruned tree** is what the node at its origin becomes. -/
theorem get?_prune {t m : Node} {p : Position} (h : (t.prune doomed).get? p = some m) :
    Survives doomed (origin doomed t p) ∧ ∃ n, t.get? (origin doomed t p) = some n ∧
      (t.prune doomed).get? p = some (pruneAt doomed (origin doomed t p) n) := by
  refine placeInduction ?_ ?_ p m h
  · exact ⟨survives_nil doomed, t, rfl, rfl⟩
  · rintro p s m c hm hc ⟨hs, n, hn, hget⟩
    rw [hget] at hm
    cases hm
    obtain ⟨d, hd, hdoomed, rfl⟩ := child?_pruneAt doomed hc
    rw [origin_concat doomed s hn]
    refine ⟨(survives_concat doomed).mpr ⟨hs, hdoomed⟩, d, ?_, ?_⟩
    · rw [get?_concat, hn, Option.bind_some, hd]
    · rw [get?_concat, hget, Option.bind_some, hc]

/-- **What lies below no doomed place is still there.** -/
theorem exists_get?_prune {t n : Node} {r : Position} (h : t.get? r = some n) :
    Survives doomed r → ∃ p, origin doomed t p = r ∧
      (t.prune doomed).get? p = some (pruneAt doomed r n) := by
  suffices hall : ∀ r n, t.get? r = some n → Survives doomed r → ∃ p, origin doomed t p = r ∧
      (t.prune doomed).get? p = some (pruneAt doomed r n) from hall r n h
  intro r
  induction r using Position.stepInduction with
  | root =>
      intro n hn _
      cases hn
      exact ⟨[], rfl, rfl⟩
  | step r s ih =>
      intro c hc hs
      obtain ⟨hr, hdoomed⟩ := (survives_concat doomed).mp hs
      rw [get?_concat] at hc
      obtain ⟨n, hn, hchild⟩ := Option.bind_eq_some_iff.mp hc
      obtain ⟨p, rfl, hp⟩ := ih n hn hr
      obtain ⟨s', rfl, hc'⟩ := exists_child?_pruneAt doomed hchild hdoomed
      refine ⟨p ++ [s'], origin_concat doomed s' hn, ?_⟩
      rw [get?_concat, hp, Option.bind_some, hc']

theorem origin_inj {t : Node} {p q : Position} {n m : Node} (hp : (t.prune doomed).get? p = some n)
    (hq : (t.prune doomed).get? q = some m) (h : origin doomed t p = origin doomed t q) : p = q := by
  induction p using Position.stepInduction generalizing q n m with
  | root =>
      rcases List.eq_nil_or_concat q with rfl | ⟨q, s, rfl⟩
      · rfl
      · rw [List.concat_eq_append] at *
        obtain ⟨k, hk⟩ := exists_get?_of_prefix hq (List.prefix_append q [s])
        obtain ⟨-, n', hn', -⟩ := get?_prune doomed hk
        rw [origin_concat doomed s hn'] at h
        simp at h
  | step p s ih =>
      obtain ⟨k, hk⟩ := exists_get?_of_prefix hp (List.prefix_append p [s])
      obtain ⟨-, n', hn', -⟩ := get?_prune doomed hk
      rw [origin_concat doomed s hn'] at h
      rcases List.eq_nil_or_concat q with rfl | ⟨q, s', rfl⟩
      · simp at h
      · rw [List.concat_eq_append] at *
        obtain ⟨k', hk'⟩ := exists_get?_of_prefix hq (List.prefix_append q [s'])
        obtain ⟨-, m', hm', -⟩ := get?_prune doomed hk'
        rw [origin_concat doomed s' hm'] at h
        obtain ⟨hpq, hs⟩ := List.append_inj' h rfl
        obtain rfl := ih hk hk' hpq
        rw [hn'] at hm'
        cases hm'
        simp only [List.cons.injEq, and_true] at hs
        rw [originStep_inj doomed hs]

/-! ## What decides what a pruned tree is -/

section
variable {a b : Position → Bool}

mutual

/-- Below a place that survives, only the children of surviving places matter. -/
theorem pruneAt_congr (h : ∀ p s, Survives a p → a (p ++ [s]) = b (p ++ [s])) {place : Position}
    (hplace : Survives a place) : ∀ n : Node, pruneAt a place n = pruneAt b place n
  | .mk kind slots => by rw [pruneAt, pruneAt, pruneSlots_congr h hplace slots]

theorem pruneSlots_congr (h : ∀ p s, Survives a p → a (p ++ [s]) = b (p ++ [s]))
    {place : Position} (hplace : Survives a place) {slot : Nat} : ∀ slots : List Slot,
      pruneSlots a place slot slots = pruneSlots b place slot slots
  | [] => by rw [pruneSlots, pruneSlots]
  | .one none :: rest => by rw [pruneSlots, pruneSlots, pruneSlots_congr h hplace rest]
  | .one (some child) :: rest => by
      have hhere := h place ⟨slot, none⟩ hplace
      rw [pruneSlots, pruneSlots, pruneSlots_congr h hplace rest]
      simp only [← hhere]
      cases hgone : a (place ++ [⟨slot, none⟩]) with
      | true => rfl
      | false => rw [pruneAt_congr h ((survives_concat a).mpr ⟨hplace, hgone⟩) child]
  | .many children :: rest => by
      rw [pruneSlots, pruneSlots, pruneSlots_congr h hplace rest, pruneChildren_congr h hplace children]

theorem pruneChildren_congr (h : ∀ p s, Survives a p → a (p ++ [s]) = b (p ++ [s]))
    {place : Position} (hplace : Survives a place) {slot index : Nat} :
    ∀ children : List (Option Node),
      pruneChildren a place slot index children = pruneChildren b place slot index children
  | [] => by rw [pruneChildren, pruneChildren]
  | none :: rest => by rw [pruneChildren, pruneChildren, pruneChildren_congr h hplace rest]
  | some child :: rest => by
      have hhere := h place ⟨slot, some index⟩ hplace
      rw [pruneChildren, pruneChildren, pruneChildren_congr h hplace rest]
      simp only [← hhere]
      cases hgone : a (place ++ [⟨slot, some index⟩]) with
      | true => rfl
      | false => rw [pruneAt_congr h ((survives_concat a).mpr ⟨hplace, hgone⟩) child]

end

/-- **What lies below a doomed place need not be doomed itself**: two tests prune alike if they agree
on the children of the places that survive. -/
theorem prune_congr (t : Node) (h : ∀ p s, Survives a p → a (p ++ [s]) = b (p ++ [s])) :
    t.prune a = t.prune b := pruneAt_congr h (survives_nil a) t

end

end Node

/-- **A pruned tree keeps the names of the tree.** -/
theorem embeds_prune (doomed : Position → Bool) (t : Node) :
    Embeds (t.prune doomed) t (fun _ => True) (Node.origin doomed t) where
  root := rfl
  kept_root := trivial
  kept_of_step := fun _ _ _ => trivial
  node := by
    intro p n' hn' _
    obtain ⟨-, n, hn, hget⟩ := Node.get?_prune doomed hn'
    rw [hget] at hn'
    cases hn'
    exact ⟨n, hn, by simp, by simp⟩
  step := by
    intro p s c hc _
    obtain ⟨m, hm⟩ := Node.exists_get?_of_prefix hc (List.prefix_append p [s])
    obtain ⟨-, n, hn, -⟩ := Node.get?_prune doomed hm
    exact ⟨_, Node.origin_concat doomed s hn, Node.originStep_similar doomed _ n s⟩
  value := by
    intro p s c hc _
    obtain ⟨m, hm⟩ := Node.exists_get?_of_prefix hc (List.prefix_append p [s])
    obtain ⟨-, n, hn, hget⟩ := Node.get?_prune doomed hm
    refine standsForValue_congr ?_ s
    rw [hn, hget]
    simp [Node.valueView]
  inj := fun _ _ _ _ hp hq _ _ h => Node.origin_inj doomed hp hq h
  inert := fun _ _ _ _ h => absurd trivial h

end Descramble

import Descramble.Proofs.Tree.Place
import Descramble.Scope.Declaration

/-!
# What a pattern binds

A pattern binds the identifiers that a chain of elements, property values, targets and rests leads
to.  Whether a place continues such a chain depends only on the kinds of the nodes passed and on
their slots, not on what else the nodes hold.

* `Node.skeleton` — which slots of a node hold lists.
* `PatternPath` — the places that the pattern at a place passes.
* `mem_patternNames_iff` — a pattern binds the identifiers at the ends of its paths.
* `nodup_patternNames` — it binds none of them twice.
-/

set_option autoImplicit false

namespace Descramble

def Slot.isList : Slot → Bool
  | .one _ => false
  | .many _ => true

/-- Which slots of a node hold lists. -/
def Node.skeleton (n : Node) : List Bool := n.slots.map Slot.isList

namespace Node

@[simp] theorem kind_mk (k : Kind) (slots : List Slot) : (Node.mk k slots).kind = k := rfl

@[simp] theorem skeleton_mk (k : Kind) (slots : List Slot) :
    (Node.mk k slots).skeleton = slots.map Slot.isList := rfl

/-- A slot that holds no list holds one child at most. -/
theorem exists_single_of_isList {shape : List Bool} {slots : List Slot}
    (h : slots.map Slot.isList = false :: shape) :
    ∃ c rest, slots = .one c :: rest ∧ rest.map Slot.isList = shape := by
  obtain ⟨slot, rest, rfl, hslot, hrest⟩ := List.map_eq_cons_iff.mp h
  cases slot with
  | one c => exact ⟨c, rest, rfl, hrest⟩
  | many _ => cases hslot

theorem isList_setAt (slot : Slot) (index : Option Nat) (c : Option Node) :
    (slot.setAt index c).isList = slot.isList := by
  unfold Slot.setAt
  split <;> rfl

@[simp] theorem skeleton_modifyChild (f : Node → Node) (n : Node) (s : Step) :
    (n.modifyChild f s).skeleton = n.skeleton := by
  unfold modifyChild
  split
  · simp only [skeleton_mk]
    apply List.ext_getElem?
    intro i
    rw [List.getElem?_map, List.getElem?_map, List.getElem?_modify]
    by_cases hi : s.slot = i
    · simp [hi, isList_setAt, Function.comp_def]
    · simp [hi]
  · rfl

/-- A child in a slot tells whether the slot is a list. -/
theorem skeleton_of_child? {n c : Node} {s : Step} (h : n.child? s = some c) :
    n.skeleton[s.slot]? = some s.index.isSome := by
  obtain ⟨k, slots⟩ := n
  obtain ⟨i, index⟩ := s
  rw [child?_mk] at h
  simp only [childOfSlots] at h
  simp only [skeleton_mk, List.getElem?_map]
  split at h
  · rename_i hs
    simp [hs, Slot.isList]
  · rename_i hs
    simp [hs, Slot.isList]
  · cases h

end Node

/-! ## Paths through patterns -/

theorem Step.eq_one {s : Step} {i : Nat} (hi : s.slot = i) (h : s.index.isSome = false) :
    s = ⟨i, none⟩ := by
  obtain ⟨slot, index⟩ := s
  cases index with
  | none => rw [← hi]
  | some j => cases h

theorem Step.eq_many {s : Step} {i : Nat} (hi : s.slot = i) (h : s.index.isSome = true) :
    ∃ j, s = ⟨i, some j⟩ := by
  obtain ⟨slot, index⟩ := s
  cases index with
  | none => cases h
  | some j => exact ⟨j, by rw [← hi]⟩

/-- Does a step lead from a node to a part that is bound as the node is?  `shape` says which slots
of the node hold lists. -/
def continuesPattern (kind : Kind) (shape : List Bool) (s : Step) : Bool :=
  match kind, shape, s.slot, s.index.isSome with
  | .arrayPattern, [true], 0, true => true
  | .assignmentPattern, [false, _], 0, false => true
  | .restElement, [false], 0, false => true
  | _, _, _, _ => false

/-- The slot of a property, or of a rest, that an object pattern binds. -/
def boundSlot : Kind → Option Nat
  | .property _ _ _ _ => some 1
  | .restElement => some 0
  | _ => none

/-- Do two steps lead from an object pattern over a property, or over a rest, to a part that is bound
as the pattern is? -/
def continuesObject (shape : List Bool) (s : Step) (kind : Kind) (shape' : List Bool) (s' : Step) :
    Bool :=
  match boundSlot kind, shape, s.slot, s.index.isSome, shape', s'.slot, s'.index.isSome with
  | some 1, [true], 0, true, [_, false], 1, false => true
  | some 0, [true], 0, true, [false], 0, false => true
  | _, _, _, _, _, _, _ => false

theorem boundSlot_eq_one {k : Kind} (h : boundSlot k = some 1) :
    ∃ computed kind method shorthand, k = .property computed kind method shorthand := by
  unfold boundSlot at h
  split at h
  · exact ⟨_, _, _, _, rfl⟩
  · cases h
  · cases h

theorem boundSlot_eq_zero {k : Kind} (h : boundSlot k = some 0) : k = .restElement := by
  unfold boundSlot at h
  split at h
  · cases h
  · rfl
  · cases h

/-- The places that the pattern at `start` passes. -/
inductive PatternPath (t : Node) (start : Position) : Position → Prop
  | here : PatternPath t start start
  | part {p : Position} {n : Node} {s : Step} : PatternPath t start p → t.get? p = some n →
      continuesPattern n.kind n.skeleton s = true → PatternPath t start (p ++ [s])
  | object {p : Position} {n m : Node} {s s' : Step} : PatternPath t start p → t.get? p = some n →
      n.kind = .objectPattern → t.get? (p ++ [s]) = some m →
      continuesObject n.skeleton s m.kind m.skeleton s' = true → PatternPath t start (p ++ [s, s'])

namespace PatternPath

variable {t : Node} {start p q : Position}

theorem isPrefix (h : PatternPath t start p) : start <+: p := by
  induction h with
  | here => exact List.prefix_refl _
  | part _ _ _ ih => exact ih.trans (List.prefix_append ..)
  | object _ _ _ _ _ ih => exact ih.trans (List.prefix_append ..)

theorem trans (h : PatternPath t start p) (h' : PatternPath t p q) : PatternPath t start q := by
  induction h' with
  | here => exact h
  | part _ hn hs ih => exact ih.part hn hs
  | object _ hn hk hm hs ih => exact ih.object hn hk hm hs

end PatternPath

/-! ## Elements and properties -/

theorem mem_elementNames {place : Position} {name : Name} :
    ∀ {index : Nat} {elements : List (Option Node)},
      name ∈ elementNames place index elements ↔
        ∃ (j : Nat) (c : Node), elements[j]? = some (some c) ∧
          name ∈ patternNames (place ++ [⟨0, some (index + j)⟩]) c
  | _, [] => by simp [elementNames]
  | index, element :: rest => by
      rw [Node.exists_entry_cons
          (P := fun i c => name ∈ patternNames (place ++ [Step.mk 0 (some i)]) c), ← mem_elementNames]
      cases element <;> simp [elementNames]

/-- The identifiers that one property of an object pattern binds. -/
def propertyTarget? : Node → Option (Step × Node)
  | .mk .restElement [.one (some target)] => some (⟨0, none⟩, target)
  | .mk (.property _ _ _ _) [_, .one (some value)] => some (⟨1, none⟩, value)
  | _ => none

theorem propertyNames_cons (place : Position) (index : Nat) (property : Option Node)
    (rest : List (Option Node)) :
    propertyNames place index (property :: rest) =
      (match property.bind propertyTarget? with
        | some (s, c) => patternNames (place ++ [⟨0, some index⟩, s]) c
        | none => []) ++ propertyNames place (index + 1) rest := by
  rw [propertyNames.eq_def]
  split
  · rename_i h; simp at h
  · rename_i h
    simp only [List.cons.injEq] at h
    obtain ⟨rfl, rfl⟩ := h
    rfl
  · rename_i h
    simp only [List.cons.injEq] at h
    obtain ⟨rfl, rfl⟩ := h
    rfl
  · rename_i h1 h2 h3
    simp only [List.cons.injEq] at h3
    obtain ⟨rfl, rfl⟩ := h3
    have hnone : property.bind propertyTarget? = none := by
      cases property with
      | none => rfl
      | some n =>
          simp only [Option.bind_some]
          unfold propertyTarget?
          split
          · exact absurd rfl (h1 _)
          · exact absurd rfl (h2 _ _ _ _ _ _)
          · rfl
    rw [hnone]
    rfl

theorem mem_propertyNames {place : Position} {name : Name} :
    ∀ {index : Nat} {properties : List (Option Node)},
      name ∈ propertyNames place index properties ↔
        ∃ (j : Nat) (m : Node) (s : Step) (c : Node), properties[j]? = some (some m) ∧
          propertyTarget? m = some (s, c) ∧
          name ∈ patternNames (place ++ [⟨0, some (index + j)⟩, s]) c
  | _, [] => by simp [propertyNames]
  | index, property :: rest => by
      have hcons := @Node.exists_entry_cons (fun i m => ∃ s c, propertyTarget? m = some (s, c) ∧
        name ∈ patternNames (place ++ [⟨0, some i⟩, s]) c) property rest index
      simp only [← exists_and_left] at hcons
      rw [propertyNames_cons, List.mem_append, mem_propertyNames, hcons]
      refine or_congr ?_ Iff.rfl
      cases property with
      | none => simp
      | some m => rcases hm : propertyTarget? m with _ | ⟨s, c⟩ <;> simp [hm, and_assoc]

/-! ## One step of a path -/

theorem mem_patternNames_part {p : Position} {n c : Node} {s : Step} {name : Name}
    (hc : n.child? s = some c) (hs : continuesPattern n.kind n.skeleton s = true)
    (h : name ∈ patternNames (p ++ [s]) c) : name ∈ patternNames p n := by
  obtain ⟨k, slots⟩ := n
  rw [Node.child?_mk] at hc
  unfold continuesPattern at hs
  split at hs
  · rename_i hk hshape hslot hindex
    simp only [Node.kind_mk, Node.skeleton_mk] at hk hshape
    subst hk
    obtain ⟨j, rfl⟩ := Step.eq_many hslot hindex
    match slots, hshape, hc with
    | [.many elements], _, hc =>
        rw [Node.childOfSlots_many, Node.join_eq_some] at hc
        rw [patternNames, mem_elementNames]
        exact ⟨j, c, hc, by simpa using h⟩
  · rename_i hk hshape hslot hindex
    simp only [Node.kind_mk, Node.skeleton_mk] at hk hshape
    subst hk
    obtain rfl := Step.eq_one hslot hindex
    match slots, hshape, hc with
    | [.one (some target), _], _, hc =>
        simp only [Node.childOfSlots_one, Option.some.injEq] at hc
        subst hc
        rw [patternNames]
        exact h
  · rename_i hk hshape hslot hindex
    simp only [Node.kind_mk, Node.skeleton_mk] at hk hshape
    subst hk
    obtain rfl := Step.eq_one hslot hindex
    match slots, hshape, hc with
    | [.one (some target)], _, hc =>
        simp only [Node.childOfSlots_one, Option.some.injEq] at hc
        subst hc
        rw [patternNames]
        exact h
  · cases hs

theorem propertyTarget?_of_continues {shape : List Bool} {m c : Node} {s s' : Step}
    (hc : m.child? s' = some c)
    (hs : continuesObject shape s m.kind m.skeleton s' = true) :
    propertyTarget? m = some (s', c) ∧ shape = [true] ∧ ∃ j, s = ⟨0, some j⟩ := by
  obtain ⟨k, slots⟩ := m
  rw [Node.child?_mk] at hc
  unfold continuesObject at hs
  split at hs
  · rename_i hk hslot hindex hshape' hslot' hindex'
    simp only [Node.kind_mk, Node.skeleton_mk] at hk hshape'
    obtain ⟨_, _, _, _, rfl⟩ := boundSlot_eq_one hk
    obtain ⟨j, rfl⟩ := Step.eq_many hslot hindex
    obtain rfl := Step.eq_one hslot' hindex'
    match slots, hshape', hc with
    | [_, .one (some value)], _, hc =>
        simp only [Node.childOfSlots_cons_succ, Node.childOfSlots_one, Option.some.injEq] at hc
        subst hc
        exact ⟨rfl, rfl, j, rfl⟩
  · rename_i hk hslot hindex hshape' hslot' hindex'
    simp only [Node.kind_mk, Node.skeleton_mk] at hk hshape'
    obtain rfl := boundSlot_eq_zero hk
    obtain ⟨j, rfl⟩ := Step.eq_many hslot hindex
    obtain rfl := Step.eq_one hslot' hindex'
    match slots, hshape', hc with
    | [.one (some target)], _, hc =>
        simp only [Node.childOfSlots_one, Option.some.injEq] at hc
        subst hc
        exact ⟨rfl, rfl, j, rfl⟩
  · cases hs

theorem continues_of_propertyTarget? {m c : Node} {s' : Step} (j : Nat)
    (h : propertyTarget? m = some (s', c)) :
    m.child? s' = some c ∧ continuesObject [true] ⟨0, some j⟩ m.kind m.skeleton s' = true := by
  unfold propertyTarget? at h
  split at h
  · cases h
    exact ⟨rfl, rfl⟩
  · rename_i slot _
    cases h
    exact ⟨rfl, rfl⟩
  · cases h

theorem mem_patternNames_object {p : Position} {n m c : Node} {s s' : Step} {name : Name}
    (hk : n.kind = .objectPattern) (hm : n.child? s = some m) (hc : m.child? s' = some c)
    (hs : continuesObject n.skeleton s m.kind m.skeleton s' = true)
    (h : name ∈ patternNames (p ++ [s, s']) c) : name ∈ patternNames p n := by
  obtain ⟨htarget, hshape, j, rfl⟩ := propertyTarget?_of_continues hc hs
  obtain ⟨k, slots⟩ := n
  simp only [Node.kind_mk, Node.skeleton_mk] at hk hshape
  subst hk
  rw [Node.child?_mk] at hm
  match slots, hshape, hm with
  | [.many properties], _, hm =>
      rw [Node.childOfSlots_many, Node.join_eq_some] at hm
      rw [patternNames, mem_propertyNames]
      exact ⟨j, m, s', c, hm, htarget, by simpa using h⟩

/-- A pattern is an identifier, or it binds what its parts bind. -/
theorem mem_patternNames_cases {p : Position} {n : Node} {name : Name}
    (h : name ∈ patternNames p n) :
    (n.kind = .identifier name.name ∧ name.place = p) ∨
      (∃ s c, n.child? s = some c ∧ continuesPattern n.kind n.skeleton s = true ∧
        name ∈ patternNames (p ++ [s]) c) ∨
      ∃ s m s' c, n.kind = .objectPattern ∧ n.child? s = some m ∧ m.child? s' = some c ∧
        continuesObject n.skeleton s m.kind m.skeleton s' = true ∧
        name ∈ patternNames (p ++ [s, s']) c := by
  rw [patternNames.eq_def] at h
  split at h
  · simp only [List.mem_singleton] at h
    subst h
    exact Or.inl ⟨rfl, rfl⟩
  · obtain ⟨j, c, hj, hc⟩ := mem_elementNames.mp h
    refine Or.inr (Or.inl ⟨⟨0, some j⟩, c, ?_, rfl, by simpa using hc⟩)
    rw [Node.child?_mk, Node.childOfSlots_many, hj]
    rfl
  · obtain ⟨j, m, s, c, hj, hm, hc⟩ := mem_propertyNames.mp h
    obtain ⟨hmc, hcont⟩ := continues_of_propertyTarget? j hm
    refine Or.inr (Or.inr ⟨⟨0, some j⟩, m, s, c, rfl, ?_, hmc, hcont, by simpa using hc⟩)
    rw [Node.child?_mk, Node.childOfSlots_many, hj]
    rfl
  · exact Or.inr (Or.inl ⟨⟨0, none⟩, _, rfl, rfl, h⟩)
  · exact Or.inr (Or.inl ⟨⟨0, none⟩, _, rfl, rfl, h⟩)
  · cases h

theorem mem_patternNames_of_path {t n m : Node} {start q : Position} {name : Name}
    (hn : t.get? start = some n) (h : PatternPath t start q) (hm : t.get? q = some m)
    (hname : name ∈ patternNames q m) : name ∈ patternNames start n := by
  induction h generalizing m with
  | here =>
      rw [hn] at hm
      cases hm
      exact hname
  | part _ hp hs ih =>
      rw [Node.get?_concat, hp, Option.bind_some] at hm
      exact ih hp (mem_patternNames_part hm hs hname)
  | @object p n' m' s s' _ hp hk hm' hs ih =>
      have hchild : m'.child? s' = some m := by
        rw [show p ++ [s, s'] = p ++ [s] ++ [s'] by simp, Node.get?_concat, hm',
          Option.bind_some] at hm
        exact hm
      rw [Node.get?_concat, hp, Option.bind_some] at hm'
      exact ih hp (mem_patternNames_object hk hm' hchild hs hname)

theorem path_of_mem_patternNames {t : Node} {name : Name} (n : Node) :
    ∀ {start : Position}, t.get? start = some n → name ∈ patternNames start n →
      PatternPath t start name.place ∧ ∃ slots, t.get? name.place = some (.mk (.identifier name.name) slots) := by
  -- an object pattern is passed two levels at a time, so the induction is on the size
  induction hsize : n.size using Nat.strongRecOn generalizing n with
  | ind size ih =>
      subst hsize
      intro start hn h
      rcases mem_patternNames_cases h with ⟨hk, hp⟩ | ⟨s, c, hc, hs, h⟩ | ⟨s, m, s', c, hk, hm, hc, hs, h⟩
      · obtain ⟨k, slots⟩ := n
        simp only [Node.kind_mk] at hk
        subst hk
        rw [hp]
        exact ⟨.here, slots, hn⟩
      · have hget : t.get? (start ++ [s]) = some c := by
          rw [Node.get?_concat, hn, Option.bind_some, hc]
        obtain ⟨hpath, hid⟩ := ih _ (Node.size_child?_lt hc) c rfl hget h
        exact ⟨(PatternPath.here.part hn hs).trans hpath, hid⟩
      · have hgetm : t.get? (start ++ [s]) = some m := by
          rw [Node.get?_concat, hn, Option.bind_some, hm]
        have hget : t.get? (start ++ [s, s']) = some c := by
          rw [show start ++ [s, s'] = start ++ [s] ++ [s'] by simp, Node.get?_concat, hgetm,
            Option.bind_some, hc]
        have hlt : c.size < n.size := Nat.lt_trans (Node.size_child?_lt hc) (Node.size_child?_lt hm)
        obtain ⟨hpath, hid⟩ := ih _ hlt c rfl hget h
        exact ⟨(PatternPath.here.object hn hk hgetm hs).trans hpath, hid⟩

/-- **A pattern binds the identifiers at the ends of its paths.** -/
theorem mem_patternNames_iff {t n : Node} {start : Position} {name : Name}
    (hn : t.get? start = some n) :
    name ∈ patternNames start n ↔ PatternPath t start name.place ∧
      ∃ slots, t.get? name.place = some (.mk (.identifier name.name) slots) := by
  constructor
  · exact path_of_mem_patternNames n hn
  · rintro ⟨hpath, slots, hid⟩
    refine mem_patternNames_of_path hn hpath hid ?_
    rw [patternNames]
    simp

/-! ## No identifier twice -/

theorem nodup_elementNames {place : Position} :
    ∀ {index : Nat} {elements : List (Option Node)},
      (∀ (j : Nat) c, elements[j]? = some (some c) →
        ∀ place, ((patternNames place c).map Name.place).Nodup) →
      (∀ (j : Nat) c, elements[j]? = some (some c) → ∀ place, ∀ name ∈ patternNames place c,
        place <+: name.place) →
      ((elementNames place index elements).map Name.place).Nodup
  | _, [], _, _ => by simp [elementNames]
  | index, none :: rest, h, hp => by
      rw [elementNames]
      exact nodup_elementNames (fun j c hc => h (j + 1) c (by simpa using hc))
        (fun j c hc => hp (j + 1) c (by simpa using hc))
  | index, some d :: rest, h, hp => by
      rw [elementNames, List.map_append, List.nodup_append]
      refine ⟨h 0 d rfl _, nodup_elementNames (fun j c hc => h (j + 1) c (by simpa using hc))
        (fun j c hc => hp (j + 1) c (by simpa using hc)), ?_⟩
      rintro p hm q hq rfl
      obtain ⟨name, hn, rfl⟩ := List.mem_map.mp hm
      obtain ⟨name', hn', he⟩ := List.mem_map.mp hq
      obtain ⟨j, c, hj, hn'⟩ := mem_elementNames.mp hn'
      have h1 := hp 0 d rfl _ name hn
      have h2 := hp (j + 1) c (by simpa using hj) _ name' hn'
      rw [he] at h2
      have := Position.step_eq_of_isPrefixOf h1 h2
      simp only [Step.mk.injEq, Option.some.injEq, true_and] at this
      omega

theorem nodup_propertyNames {place : Position} :
    ∀ {index : Nat} {properties : List (Option Node)},
      (∀ (j : Nat) m s c, properties[j]? = some (some m) → propertyTarget? m = some (s, c) →
        ∀ place, ((patternNames place c).map Name.place).Nodup) →
      (∀ (j : Nat) m s c, properties[j]? = some (some m) → propertyTarget? m = some (s, c) →
        ∀ place, ∀ name ∈ patternNames place c, place <+: name.place) →
      ((propertyNames place index properties).map Name.place).Nodup
  | _, [], _, _ => by simp [propertyNames]
  | index, property :: rest, h, hp => by
      have hrest : ((propertyNames place (index + 1) rest).map Name.place).Nodup :=
        nodup_propertyNames (fun j m s c hj => h (j + 1) m s c (by simpa using hj))
          (fun j m s c hj => hp (j + 1) m s c (by simpa using hj))
      rw [propertyNames_cons, List.map_append, List.nodup_append]
      cases htarget : property.bind propertyTarget? with
      | none => simpa using hrest
      | some sc =>
          obtain ⟨s, c⟩ := sc
          obtain ⟨m, rfl, hm⟩ := Option.bind_eq_some_iff.mp htarget
          refine ⟨h 0 m s c rfl hm _, hrest, ?_⟩
          rintro p hmem q hq rfl
          obtain ⟨name, hn, rfl⟩ := List.mem_map.mp hmem
          obtain ⟨name', hn', he⟩ := List.mem_map.mp hq
          obtain ⟨j, m', s', c', hj, hm', hn'⟩ := mem_propertyNames.mp hn'
          have h1 := hp 0 m s c rfl hm _ name hn
          have h2 := hp (j + 1) m' s' c' (by simpa using hj) hm' _ name' hn'
          rw [he] at h2
          have h1' : place ++ [⟨0, some index⟩] <+: name.place :=
            List.IsPrefix.trans ⟨[s], by simp⟩ h1
          have h2' : place ++ [⟨0, some (index + 1 + j)⟩] <+: name.place :=
            List.IsPrefix.trans ⟨[s'], by simp⟩ h2
          have := Position.step_eq_of_isPrefixOf h1' h2'
          simp only [Step.mk.injEq, Option.some.injEq, true_and] at this
          omega

theorem prefix_of_mem_patternNames (n : Node) {name : Name} :
    ∀ {place : Position}, name ∈ patternNames place n → place <+: name.place := by
  induction hsize : n.size using Nat.strongRecOn generalizing n with
  | ind size ih =>
      subst hsize
      intro place h
      rcases mem_patternNames_cases h with ⟨-, hp⟩ | ⟨s, c, hc, -, h⟩ | ⟨s, m, s', c, -, hm, hc, -, h⟩
      · exact Position.prefix_of_eq hp.symm
      · exact List.IsPrefix.trans ⟨[s], rfl⟩ (ih _ (Node.size_child?_lt hc) c rfl h)
      · have hlt : c.size < n.size := Nat.lt_trans (Node.size_child?_lt hc) (Node.size_child?_lt hm)
        exact List.IsPrefix.trans ⟨[s, s'], rfl⟩ (ih _ hlt c rfl h)

/-- A pattern binds no identifier twice. -/
theorem nodup_patternNames (n : Node) :
    ∀ place, ((patternNames place n).map Name.place).Nodup := by
  induction hsize : n.size using Nat.strongRecOn generalizing n with
  | ind size ih =>
      subst hsize
      intro place
      rw [patternNames.eq_def]
      split
      · simp
      · rename_i elements
        refine nodup_elementNames (fun j c hj => ih _ ?_ c rfl)
          (fun j c _ place name => prefix_of_mem_patternNames c)
        refine Node.size_child?_lt (s := ⟨0, some j⟩) ?_
        rw [Node.child?_mk, Node.childOfSlots_many, hj]
        rfl
      · rename_i properties
        refine nodup_propertyNames (fun j m s c hj hm => ih _ ?_ c rfl)
          (fun j m s c _ _ place name => prefix_of_mem_patternNames c)
        refine Nat.lt_trans (Node.size_child?_lt (continues_of_propertyTarget? j hm).1) ?_
        refine Node.size_child?_lt (s := ⟨0, some j⟩) ?_
        rw [Node.child?_mk, Node.childOfSlots_many, hj]
        rfl
      · exact ih _ (Node.size_child?_lt (s := ⟨0, none⟩) rfl) _ rfl _
      · exact ih _ (Node.size_child?_lt (s := ⟨0, none⟩) rfl) _ rfl _
      · simp

end Descramble

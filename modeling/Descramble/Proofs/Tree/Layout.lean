import Descramble.Proofs.Tree.Pruned

/-!
# Trees that keep to the layout

Each kind lists the slots of its nodes.  Edits put literals and plain names into a tree and pruning
takes nodes out of slots, so the layout is kept.

* `Kind.holdsOneValue` — beside a regular expression a literal holds null.
* `Node.fits` — the slots of a node are those that its kind lists, and it holds no second value.
* `Node.conforms` — all nodes of a tree fit.
* `Node.conforms_modifyAt`, `Node.conforms_prune` — what keeps a tree in its layout.
* `Node.slots_eq_nil` — a name has no children.
-/

set_option autoImplicit false

namespace Descramble

/-- Does a literal hold either a value or a regular expression?  Beside a regular expression it holds
null. -/
def Kind.holdsOneValue : Kind → Bool
  | .literal value _ (some _) => decide (value = .null)
  | _ => true

namespace Node

/-- Does the node keep to the format: are its slots those that its kind lists, and does it hold no
value beside a regular expression? -/
def fits (n : Node) : Bool :=
  n.skeleton == n.kind.slotNames.map Kind.SlotName.isList && n.kind.holdsOneValue

theorem skeleton_of_fits {n : Node} (h : n.fits = true) :
    n.skeleton = n.kind.slotNames.map Kind.SlotName.isList :=
  beq_iff_eq.mp (Bool.and_eq_true_iff.mp h).1

/-- The literal of a regular expression holds null. -/
theorem value_eq_null {value : Constant} {raw : String} {pattern : Pattern} {slots : List Slot}
    (h : (Node.mk (.literal value raw (some pattern)) slots).fits = true) : value = .null :=
  of_decide_eq_true (Bool.and_eq_true_iff.mp h).2

/-- Do all nodes of the tree fit? -/
def conforms (t : Node) : Bool := t.sites.all fun site => site.node.fits

theorem conforms_iff {t : Node} :
    t.conforms = true ↔ ∀ p n, t.get? p = some n → n.fits = true := by
  unfold conforms
  rw [List.all_eq_true]
  constructor
  · intro h p n hn
    exact h ⟨p, n⟩ (mem_sites_iff.mpr hn)
  · intro h site hs
    exact h site.place site.node (mem_sites_iff.mp hs)

/-- What decides whether a node fits. -/
def layout (n : Node) : Kind × List Bool := (n.kind, n.skeleton)

theorem layout_modifyChild (g : Node → Node) (n : Node) (s : Step) :
    (modifyChild g n s).layout = n.layout := by
  simp [layout]

theorem fits_congr {n m : Node} (h : n.layout = m.layout) : n.fits = m.fits := by
  simp only [layout, Prod.mk.injEq] at h
  simp only [fits, h.1, h.2]

/-- A name has no children. -/
theorem slots_eq_nil {name : String} {slots : List Slot}
    (h : (Node.mk (.identifier name) slots).fits = true) : slots = [] := by
  simpa [Kind.slotNames] using skeleton_of_fits h

theorem conforms_of_get? {t n : Node} {p : Position} (h : t.conforms = true)
    (hn : t.get? p = some n) : n.conforms = true := by
  rw [conforms_iff] at h ⊢
  intro q m hm
  refine h (p ++ q) m ?_
  rw [get?_append, hn]
  exact hm

/-- **An edit keeps a tree in its layout** if the edited part keeps to it. -/
theorem conforms_modifyAt {t : Node} {q : Position} {f : Node → Node} (h : t.conforms = true)
    (hf : ∀ n, t.get? q = some n → (f n).conforms = true) : (t.modifyAt f q).conforms = true := by
  rw [conforms_iff]
  intro p n hn
  by_cases hq : q <+: p
  · obtain ⟨r, rfl⟩ := hq
    rw [get?_modifyAt_append] at hn
    obtain ⟨m, hm, hn⟩ := Option.bind_eq_some_iff.mp hn
    exact conforms_iff.mp (hf m hm) r n hn
  · have hview := map_get?_modifyAt_of_not_prefix layout_modifyChild f t q p hq
    rw [hn, Option.map_some] at hview
    obtain ⟨m, hm, hlayout⟩ := Option.map_eq_some_iff.mp hview.symm
    rw [← fits_congr hlayout]
    exact conforms_iff.mp h p m hm

/-- **Pruning keeps a tree in its layout.** -/
theorem conforms_prune (doomed : Position → Bool) {t : Node} (h : t.conforms = true) :
    (t.prune doomed).conforms = true := by
  rw [conforms_iff] at h ⊢
  intro p m hm
  obtain ⟨-, n, hn, hget⟩ := get?_prune doomed hm
  rw [hget] at hm
  cases hm
  rw [fits_congr (show (pruneAt doomed _ n).layout = n.layout by simp [layout])]
  exact h _ n hn

/-! ## Literals and plain names -/

theorem conforms_leaf {k : Kind} (h : k.slotNames = []) (hvalue : k.holdsOneValue = true) :
    (Node.leaf k).conforms = true := by
  rw [conforms_iff]
  intro p n hn
  cases p with
  | nil =>
      cases hn
      simp [fits, h, hvalue]
  | cons s p =>
      rw [get?_cons, child?_mk, childOfSlots_nil] at hn
      cases hn

/-- A node fits together with its children. -/
theorem conforms_of_child {n : Node} (h : n.fits = true)
    (hc : ∀ s c, n.child? s = some c → c.conforms = true) : n.conforms = true := by
  rw [conforms_iff]
  intro p m hm
  cases p with
  | nil =>
      cases hm
      exact h
  | cons s p =>
      rw [get?_cons] at hm
      obtain ⟨c, hchild, hm⟩ := Option.bind_eq_some_iff.mp hm
      exact conforms_iff.mp (hc s c hchild) p m hm

theorem conforms_lit (value : Constant) (raw : String) : (Node.lit value raw).conforms = true :=
  conforms_leaf rfl rfl

theorem conforms_unary {m : Node} (h : m.conforms = true) (operator : String) (leading : Bool) :
    (Node.unary1 (.unary operator leading) m).conforms = true := by
  refine conforms_of_child rfl ?_
  rintro ⟨i, index⟩ c hc
  rw [child?_mk] at hc
  match i, index with
  | 0, none =>
      cases hc
      exact h
  | 0, some _ => cases hc
  | _ + 1, _ => simp at hc

theorem IsWritten.conforms {m : Node} (h : m.IsWritten) : m.conforms = true := by
  rcases h with ⟨value, raw, rfl⟩ | ⟨n, raw, rfl⟩
  · exact conforms_lit _ _
  · exact conforms_unary (conforms_lit _ _) _ _

theorem conforms_withoutShorthand {n : Node} (h : n.conforms = true) :
    (withoutShorthand n).conforms = true := by
  refine conforms_of_child ?_ ?_
  · have hfits := conforms_iff.mp h [] n rfl
    unfold withoutShorthand
    split <;> exact hfits
  · intro s c hc
    rw [child?_withoutShorthand] at hc
    exact conforms_of_get? h (show n.get? [s] = some c by rw [get?_cons, hc]; rfl)

theorem conforms_plainMember {object property : Node}
    (h : (Node.memberOf true object property).conforms = true) (name : String) :
    (Node.memberOf false object (.ident name)).conforms = true := by
  refine conforms_of_child rfl ?_
  rintro ⟨i, index⟩ c hc
  rw [child?_mk] at hc
  match i, index with
  | 0, none =>
      cases hc
      exact conforms_of_get? h (show _ = some object from rfl : (Node.memberOf true object property).get? [first] = _)
  | 0, some _ => cases hc
  | 1, none =>
      cases hc
      exact conforms_leaf rfl rfl
  | 1, some _ => cases hc
  | _ + 2, _ => simp at hc

end Node

end Descramble

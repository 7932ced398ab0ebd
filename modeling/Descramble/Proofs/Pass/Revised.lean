import Descramble.Proofs.Pass.Descent

/-!
# Trees that literals have been written into

Folding and resolving replace nodes by literals and leave all others in their places.  So a node that
is found during such a pass is one of the input, as far as its kind and its slots go, or it is a
literal that the pass has written.

* `Node.IsWritten.get?`, `Node.IsWritten.below` — what stands inside a written literal.
* `RevisedFrom` — each node is as it was in another tree, or it is a written literal.
* `RevisedFrom.replaceAt`, `RevisedFrom.foldAt`, `RevisedFrom.resolveAt` — what a visit preserves.
* `get?_replaceAt_of_isWritten` — a written literal stays.
-/

set_option autoImplicit false

namespace Descramble

namespace Node.IsWritten

variable {m n : Node}

theorem isLiteralLike (h : m.IsWritten) : m.isLiteralLike = true := by
  rcases h with ⟨value, raw, rfl⟩ | ⟨n, raw, rfl⟩ <;> rfl

theorem not_isFoldable (h : m.IsWritten) : m.kind.isFoldable = false := by
  rcases h with ⟨value, raw, rfl⟩ | ⟨n, raw, rfl⟩ <;> rfl

/-- Below a written literal stands at most the literal that it negates. -/
theorem below (h : m.IsWritten) {s : Step} {rest : Position} (hn : m.get? (s :: rest) = some n) :
    rest = [] ∧ ∃ value raw, n = .lit value raw := by
  rw [Node.get?_cons] at hn
  obtain ⟨c, hc, hn⟩ := Option.bind_eq_some_iff.mp hn
  obtain ⟨i, index⟩ := s
  rcases h with ⟨value, raw, rfl⟩ | ⟨k, raw, rfl⟩
  · cases hc
  · rw [Node.negated, Node.child?_mk] at hc
    match i, index, hc with
    | 0, none, hc =>
        cases hc
        cases rest with
        | nil =>
            cases hn
            exact ⟨rfl, _, _, rfl⟩
        | cons s rest =>
            rw [Node.get?_cons, Node.child?_mk, Node.childOfSlots_nil] at hn
            cases hn
    | 0, some _, hc => cases hc
    | i + 1, index, hc => simp at hc

theorem get? (h : m.IsWritten) {p : Position} (hn : m.get? p = some n) : n.IsWritten := by
  cases p with
  | nil =>
      cases hn
      exact h
  | cons s rest =>
      obtain ⟨-, value, raw, rfl⟩ := h.below hn
      exact Or.inl ⟨value, raw, rfl⟩

end Node.IsWritten

theorem isWritten_ofText (text : String) : (Node.ofText text).IsWritten := Or.inl ⟨_, _, rfl⟩

/-- The kinds of the literals that are written. -/
def Kind.spellsValue : Kind → Bool
  | .literal _ _ _ => true
  | .unary _ _ => true
  | _ => false

theorem not_isWritten_of_kind {n : Node} (h : n.kind.spellsValue = false) : ¬ n.IsWritten := by
  rintro (⟨value, raw, rfl⟩ | ⟨k, raw, rfl⟩) <;> cases h

/-- A written literal stays where another place is replaced, unless that is above it. -/
theorem get?_replaceAt_of_isWritten {u m n l : Node} {p target : Position} (hm : m.IsWritten)
    (hp : u.get? p = some m) (hn : u.get? target = some n) (hnot : ¬ n.IsWritten)
    (hpre : ¬ target <+: p) : (u.replaceAt target l).get? p = some m := by
  have hbelow : ¬ p <+: target := by
    rintro ⟨s, rfl⟩
    rw [Node.get?_append, hp, Option.bind_some] at hn
    exact hnot (hm.get? hn)
  rw [Node.replaceAt, Node.get?_modifyAt_of_not_prefix _ _ _ _ hpre hbelow, hp]

/-- What folding replaces is no written literal. -/
theorem not_isWritten_of_foldTarget? {decoder : Option String} {a : Analysis} {u n : Node}
    {p target : Position} (h : foldTarget? decoder a u p = some target)
    (hn : u.get? target = some n) : ¬ n.IsWritten := by
  intro hw
  have hlike := isLiteralLike_of_foldTarget? h hn
  rw [hw.isLiteralLike] at hlike
  cases hlike

/-! ## Revised trees -/

/-- Each node of `u` has the kind and the slots of the node at its place in `t`, or it is a written
literal. -/
def RevisedFrom (t u : Node) : Prop :=
  ∀ p n, u.get? p = some n → n.IsWritten ∨ (t.get? p).map Node.layout = some n.layout

namespace RevisedFrom

variable {t u n m : Node} {p q : Position} {s : Step}

theorem refl (t : Node) : RevisedFrom t t := by
  intro p n hn
  rw [hn]
  exact Or.inr rfl

/-- What is no literal was of the same kind before. -/
theorem exists_of_not_isWritten (h : RevisedFrom t u) (hn : u.get? p = some n)
    (hnot : ¬ n.IsWritten) : ∃ n₀, t.get? p = some n₀ ∧ n₀.kind = n.kind ∧ n₀.skeleton = n.skeleton := by
  obtain ⟨n₀, hn₀, hlayout⟩ := Option.map_eq_some_iff.mp ((h p n hn).resolve_left hnot)
  simp only [Node.layout, Prod.mk.injEq] at hlayout
  exact ⟨n₀, hn₀, hlayout.1, hlayout.2⟩

/-- What stands above a node that is no literal was of the same kind before. -/
theorem exists_above (h : RevisedFrom t u) (hn : u.get? q = some n)
    (hm : u.get? (q ++ [s]) = some m) (hnot : ¬ m.IsWritten) :
    ∃ n₀, t.get? q = some n₀ ∧ n₀.kind = n.kind ∧ n₀.skeleton = n.skeleton := by
  refine h.exists_of_not_isWritten hn fun hwritten => hnot ?_
  rw [Node.get?_append, hn, Option.bind_some] at hm
  exact hwritten.get? hm

/-- **One replacement** by a literal. -/
theorem replaceAt (h : RevisedFrom t u) (hn : u.get? q = some n) (hnot : ¬ n.IsWritten)
    (hm : m.IsWritten) : RevisedFrom t (u.replaceAt q m) := by
  intro p l hl
  by_cases hpre : q <+: p
  · obtain ⟨s, rfl⟩ := hpre
    rw [Node.get?_replaceAt_append, hn, Option.bind_some] at hl
    exact Or.inl (hm.get? hl)
  · have hlayout := Node.map_get?_modifyAt_of_not_prefix Node.layout_modifyChild (fun _ => m) u q p
      hpre
    rw [← Node.replaceAt, hl, Option.map_some] at hlayout
    obtain ⟨l₀, hl₀, he⟩ := Option.map_eq_some_iff.mp hlayout.symm
    rcases h p l₀ hl₀ with hwritten | hkept
    · have hstays := get?_replaceAt_of_isWritten (l := m) hwritten hl₀ hn hnot hpre
      rw [hl] at hstays
      cases hstays
      exact Or.inl hwritten
    · exact Or.inr (hkept.trans (congrArg some he))

variable {decoder : Option String} {a : Analysis} {state : RunState} {r r' : Revision}

theorem foldAt (h : RevisedFrom t r.tree) (hv : foldAt decoder a r q = .ok r') :
    RevisedFrom t r'.tree := by
  rcases foldAt_cases hv with rfl | ⟨target, v, m, htarget, hvalue, hm, rfl⟩
  · exact h
  · obtain ⟨n, hn, -, -⟩ := evaluate_eq_known_iff.mp hvalue
    exact h.replaceAt hn (not_isWritten_of_foldTarget? htarget hn) (isWritten_literal? hm)

theorem resolveAt (h : RevisedFrom t r.tree) (hv : resolveAt state a r q = .ok r') :
    RevisedFrom t r'.tree := by
  rcases resolveAt_cases hv with rfl | ⟨text, slots, hget, -, rfl⟩
  · exact h
  · exact h.replaceAt hget (not_isWritten_of_kind rfl) (isWritten_ofText text)

end RevisedFrom

end Descramble

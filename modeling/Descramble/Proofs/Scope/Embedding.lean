import Descramble.Proofs.Scope.Resolution

/-!
# Trees that keep the names of other trees

A tree that comes from another by replacing or removing parts keeps most places of the other one.
What the kept places mean for names is then the same in both trees.

* `Kind.scopeForm` — a kind without the data that no scope and no declaration depends on.
* `Embeds` — the kept places of a tree lead to the places of another that they come from.
* `Embeds.scopesAround_map` — the scopes around a kept place correspond.
* `Embeds.declares_map`, `Embeds.exists_declares` — so do the declarations of kept names.
* `Embeds.occurs_map`, `Embeds.occurs_of_map` — identifiers that occur in the tree occur in the other
  one, and the other way round.
* `Embeds.resolve?_of_map` — identifiers refer to what their origins refer to.
* `Embeds.unresolved` — if no binding in use loses all its declarations, no name becomes unresolved.
-/

set_option autoImplicit false

namespace Descramble

/-! ## What matters about a node -/

/-- The kind without the data that no scope and no declaration depends on. -/
def Kind.scopeForm : Kind → Kind
  | .member _ => .member false
  | .property computed kind method _ => .property computed kind method false
  | kind => kind

/-- Kinds of one form are equal, or both members, or properties that differ in spelling. -/
theorem Kind.scopeForm_cases {k k' : Kind} (h : k.scopeForm = k'.scopeForm) :
    k = k' ∨ (∃ c c', k = .member c ∧ k' = .member c') ∨
      ∃ c kind method s s', k = .property c kind method s ∧ k' = .property c kind method s' := by
  unfold Kind.scopeForm at h
  split at h
  · split at h
    · exact Or.inr (Or.inl ⟨_, _, rfl, rfl⟩)
    · cases h
    · rename_i hne _
      subst h
      exact absurd rfl (hne _)
  · split at h
    · cases h
    · cases h
      exact Or.inr (Or.inr ⟨_, _, _, _, _, rfl, rfl⟩)
    · rename_i hne
      subst h
      exact absurd rfl (hne _ _ _ _)
  · rename_i hm hp
    split at h
    · subst h
      exact absurd rfl (hm _)
    · subst h
      exact absurd rfl (hp _ _ _ _)
    · exact Or.inl h

/-- A kind that is neither a member nor a property is known from its form. -/
theorem Kind.eq_of_scopeForm {k k' : Kind} (h : k.scopeForm = k'.scopeForm)
    (hm : ∀ c, k' ≠ .member c) (hp : ∀ c kind method s, k' ≠ .property c kind method s) : k = k' := by
  rcases scopeForm_cases h with h | ⟨_, c', -, h⟩ | ⟨c, kind, method, _, s', -, h⟩
  · exact h
  · exact absurd h (hm c')
  · exact absurd h (hp c kind method s')

theorem isFunction_congr {k k' : Kind} (h : k.scopeForm = k'.scopeForm) :
    k.isFunction = k'.isFunction := by
  rcases Kind.scopeForm_cases h with rfl | ⟨_, _, rfl, rfl⟩ | ⟨_, _, _, _, _, rfl, rfl⟩ <;> rfl

theorem opensScope?_congr {p p' n n' : Node} (hp : p.kind.scopeForm = p'.kind.scopeForm)
    (hn : n.kind.scopeForm = n'.kind.scopeForm) :
    opensScope? (some p) n = opensScope? (some p') n' := by
  simp only [opensScope?, isFunction_congr hp]
  rcases Kind.scopeForm_cases hn with h | ⟨_, _, h, h'⟩ | ⟨_, _, _, _, _, h, h'⟩
  · rw [h]
  · rw [h, h']
  · rw [h, h']

/-- Steps into one slot, both into a list or both not. -/
def Step.Similar (s s' : Step) : Prop := s.slot = s'.slot ∧ s.index.isSome = s'.index.isSome

theorem Step.Similar.eq_none {s : Step} {i : Nat} (h : s.Similar ⟨i, none⟩) : s = ⟨i, none⟩ :=
  Step.eq_one h.1 h.2

theorem Step.Similar.symm {s s' : Step} (h : s.Similar s') : s'.Similar s := ⟨h.1.symm, h.2.symm⟩

theorem standsForValue_congr_step (parent : Option Node) {s s' : Step} (h : s.slot = s'.slot) :
    standsForValue parent (some s) = standsForValue parent (some s') := by
  obtain ⟨i, index⟩ := s
  obtain ⟨i', index'⟩ := s'
  simp only at h
  subst h
  cases parent with
  | none => rfl
  | some n =>
      obtain ⟨k, slots⟩ := n
      match i with
      | 0 => cases k <;> rfl
      | 1 => cases k <;> rfl
      | _ + 2 => cases k <;> rfl

theorem continuesPattern_congr {k k' : Kind} {shape : List Bool} {s s' : Step}
    (hk : k.scopeForm = k'.scopeForm) (hs : s.Similar s') :
    continuesPattern k shape s = continuesPattern k' shape s' := by
  unfold continuesPattern
  rw [hs.1, hs.2]
  rcases Kind.scopeForm_cases hk with rfl | ⟨_, _, rfl, rfl⟩ | ⟨_, _, _, _, _, rfl, rfl⟩ <;> rfl

theorem continuesObject_congr {k k' : Kind} {shape shape' : List Bool} {s s' r r' : Step}
    (hk : k.scopeForm = k'.scopeForm) (hs : s.Similar s') (hr : r.Similar r') :
    continuesObject shape s k shape' r = continuesObject shape s' k' shape' r' := by
  have hbound : boundSlot k = boundSlot k' := by
    rcases Kind.scopeForm_cases hk with rfl | ⟨_, _, rfl, rfl⟩ | ⟨_, _, _, _, _, rfl, rfl⟩ <;> rfl
  unfold continuesObject
  rw [hs.1, hs.2, hr.1, hr.2, hbound]

theorem bindsBy_congr {p p' k k' : Kind} {shape : List Bool} {s s' : Step}
    (hp : p.scopeForm = p'.scopeForm) (hk : k.scopeForm = k'.scopeForm) (hs : s.Similar s') :
    bindsBy p k shape s = bindsBy p' k' shape s' := by
  have hhome : variableHome p = variableHome p' := by
    rcases Kind.scopeForm_cases hp with rfl | ⟨_, _, rfl, rfl⟩ | ⟨_, _, _, _, _, rfl, rfl⟩ <;> rfl
  unfold bindsBy
  rw [hs.1, hs.2, hhome]
  rcases Kind.scopeForm_cases hk with rfl | ⟨_, _, rfl, rfl⟩ | ⟨_, _, _, _, _, rfl, rfl⟩ <;> rfl

theorem namesItself_congr {k k' : Kind} {s s' : Step} (hk : k.scopeForm = k'.scopeForm)
    (hs : s.Similar s') : namesItself k s = namesItself k' s' := by
  unfold namesItself
  rw [hs.1, hs.2]
  rcases Kind.scopeForm_cases hk with rfl | ⟨_, _, rfl, rfl⟩ | ⟨_, _, _, _, _, rfl, rfl⟩ <;> rfl

/-! ## Embeddings -/

/-- The kept places of a tree lead to the places of another tree that they come from.  What stands
at the other places of the tree is no identifier that refers or declares. -/
structure Embeds (t' t : Node) (kept : Position → Prop) (φ : Position → Position) : Prop where
  root : φ [] = []
  kept_root : kept []
  kept_of_step : ∀ p s, kept (p ++ [s]) → kept p
  node : ∀ p n', t'.get? p = some n' → kept p → ∃ n, t.get? (φ p) = some n ∧
    n.kind.scopeForm = n'.kind.scopeForm ∧ n.skeleton = n'.skeleton
  step : ∀ p s c, t'.get? (p ++ [s]) = some c → kept (p ++ [s]) →
    ∃ r, φ (p ++ [s]) = φ p ++ [r] ∧ r.Similar s
  value : ∀ p s c, t'.get? (p ++ [s]) = some c → kept (p ++ [s]) →
    standsForValue (t.get? (φ p)) (some s) = standsForValue (t'.get? p) (some s)
  inj : ∀ p q n m, t'.get? p = some n → t'.get? q = some m → kept p → kept q → φ p = φ q → p = q
  inert : ∀ p name slots, t'.get? p = some (.mk (.identifier name) slots) → ¬ kept p →
    ∃ q s m, p = q ++ [s] ∧ t'.get? q = some m ∧ m.kind = .member false ∧ s.slot = 1

/-- A scope at the place that its own comes from. -/
def Scope.relabel (φ : Position → Position) (s : Scope) : Scope := ⟨φ s.place, s.isFunction⟩

/-- A declaration at the places that its own come from. -/
def Declaration.relabel (φ : Position → Position) (d : Declaration) : Declaration :=
  ⟨d.scope.relabel φ, ⟨φ d.name.place, d.name.name⟩, d.kind, φ d.place⟩

/-- A scope holds the declarations of its names. -/
theorem Declares.scope_isPrefix {t : Node} {d : Declaration} {above : Position} {last s : Step}
    {parent node : Node} {home : Home} (hd : Declares t d above last parent node s home) :
    d.scope.place <+: above ++ [last] := by
  have hpick := hd.scope_eq
  cases home with
  | inner => exact prefix_of_mem_scopesAround hd.get_node _ (List.mem_of_mem_head? hpick)
  | outer =>
      exact (prefix_of_mem_scopesAround hd.get_parent _ (List.mem_of_mem_head? hpick)).trans
        (List.prefix_append ..)
  | function =>
      exact (prefix_of_mem_scopesAround hd.get_parent _ (List.mem_of_find?_eq_some hpick)).trans
        (List.prefix_append ..)

namespace Embeds

variable {t' t : Node} {kept : Position → Prop} {φ : Position → Position}

theorem kept_of_prefix (h : Embeds t' t kept φ) {p : Position} (hp : kept p) :
    ∀ {q : Position}, q <+: p → kept q := by
  intro q hq
  obtain ⟨r, rfl⟩ := hq
  induction r using Position.stepInduction with
  | root => simpa using hp
  | step r s ih => exact ih (h.kept_of_step _ s (by rwa [List.append_assoc]))

/-- Places above a kept place correspond to the places above its origin. -/
theorem map_prefix (h : Embeds t' t kept φ) {p : Position} {n : Node} (hget : t'.get? p = some n)
    (hp : kept p) : ∀ {q : Position}, q <+: p → φ q <+: φ p := by
  intro q hq
  obtain ⟨r, rfl⟩ := hq
  induction r using Position.stepInduction generalizing n with
  | root => simp
  | step r s ih =>
      rw [← List.append_assoc] at hget hp ⊢
      obtain ⟨s', hs, -⟩ := h.step _ s n hget hp
      obtain ⟨m, hm⟩ := Node.exists_get?_of_prefix hget (List.prefix_append _ _)
      rw [hs]
      exact (ih hm (h.kept_of_step _ s hp)).trans (List.prefix_append ..)

theorem length_map (h : Embeds t' t kept φ) {p : Position} {n : Node} (hget : t'.get? p = some n) :
    kept p → (φ p).length = p.length := by
  refine Node.placeInduction ?_ ?_ p n hget
  · intro _
    rw [h.root]
  · intro p s n c hn hc ih hkept
    have hget : t'.get? (p ++ [s]) = some c := by rw [Node.get?_concat, hn, Option.bind_some, hc]
    obtain ⟨s', hs, -⟩ := h.step p s c hget hkept
    rw [hs, List.length_append, List.length_append, ih (h.kept_of_step p s hkept)]
    rfl

/-- A place above the origin of a kept place is the origin of a place above. -/
theorem exists_of_prefix_map (h : Embeds t' t kept φ) {p : Position} {n : Node}
    (hget : t'.get? p = some n) :
    kept p → ∀ {r : Position}, r <+: φ p → ∃ q, q <+: p ∧ φ q = r := by
  refine Node.placeInduction ?_ ?_ p n hget
  · intro _ r hr
    rw [h.root, List.prefix_nil] at hr
    exact ⟨[], List.prefix_refl _, by rw [hr, h.root]⟩
  · intro p s n c hn hc ih hkept r hr
    have hget : t'.get? (p ++ [s]) = some c := by rw [Node.get?_concat, hn, Option.bind_some, hc]
    obtain ⟨s', hs, -⟩ := h.step p s c hget hkept
    by_cases he : r = φ (p ++ [s])
    · exact ⟨p ++ [s], List.prefix_refl _, he.symm⟩
    · rw [hs] at hr he
      obtain ⟨q, hq, hr⟩ := ih (h.kept_of_step p s hkept) (Position.prefix_of_prefix_append hr he)
      exact ⟨q, hq.trans (List.prefix_append ..), hr⟩

/-- The last step to the origin of a kept place comes from the last step to the place. -/
theorem exists_step (h : Embeds t' t kept φ) {p r : Position} {c : Node} {s' : Step}
    (hget : t'.get? p = some c) (hkept : kept p) (hr : φ p = r ++ [s']) :
    ∃ q s, p = q ++ [s] ∧ φ q = r ∧ s'.Similar s := by
  rcases List.eq_nil_or_concat p with rfl | ⟨q, s, rfl⟩
  · rw [h.root] at hr
    simp at hr
  · rw [List.concat_eq_append] at *
    obtain ⟨s'', hs, hsim⟩ := h.step q s c hget hkept
    rw [hs] at hr
    obtain ⟨hq, hs⟩ := List.append_inj' hr rfl
    simp only [List.cons.injEq, and_true] at hs
    subst hs
    exact ⟨q, s, rfl, hq, hsim⟩

/-- An identifier comes from an identifier of the same name. -/
theorem identifier_map (h : Embeds t' t kept φ) {p : Position} {name : String} {slots : List Slot}
    (hget : t'.get? p = some (.mk (.identifier name) slots)) (hkept : kept p) :
    ∃ slots₀, t.get? (φ p) = some (.mk (.identifier name) slots₀) := by
  obtain ⟨⟨k, slots₀⟩, hn, hk, -⟩ := h.node p _ hget hkept
  have hk := Kind.eq_of_scopeForm hk (by simp) (by simp)
  simp only [Node.kind_mk] at hk
  subst hk
  exact ⟨slots₀, hn⟩

theorem exists_identifier (h : Embeds t' t kept φ) {p : Position} {name : String} {n : Node}
    {slots : List Slot} (hn : t'.get? p = some n) (hkept : kept p)
    (hget : t.get? (φ p) = some (.mk (.identifier name) slots)) :
    ∃ slots', t'.get? p = some (.mk (.identifier name) slots') := by
  obtain ⟨m, hm, hk, -⟩ := h.node p n hn hkept
  rw [hget] at hm
  cases hm
  obtain ⟨k, slots'⟩ := n
  have hk := Kind.eq_of_scopeForm hk.symm (by simp) (by simp)
  simp only [Node.kind_mk] at hk
  subst hk
  exact ⟨slots', hn⟩

/-! ### Scopes -/

/-- **The scopes around a kept place correspond.** -/
theorem scopesAround_map (h : Embeds t' t kept φ) {p : Position} {n : Node}
    (hget : t'.get? p = some n) :
    kept p → scopesAround t (φ p) = (scopesAround t' p).map (Scope.relabel φ) := by
  refine Node.placeInduction ?_ ?_ p n hget
  · intro _
    rw [h.root]
    simp [Scope.relabel, h.root]
  · intro p s n c hn hc ih hkept
    have hgetc : t'.get? (p ++ [s]) = some c := by rw [Node.get?_concat, hn, Option.bind_some, hc]
    have hkeptp := h.kept_of_step p s hkept
    obtain ⟨s', hs, -⟩ := h.step p s c hgetc hkept
    obtain ⟨m, hm, hmk, -⟩ := h.node p n hn hkeptp
    obtain ⟨d, hd, hdk, -⟩ := h.node _ c hgetc hkept
    have hchild : m.child? s' = some d := by
      rw [hs, Node.get?_concat, hm] at hd
      exact hd
    rw [scopesAround_concat hn hc, hs, scopesAround_concat hm hchild, ih hkeptp]
    unfold enterScope
    rw [opensScope?_congr hmk hdk]
    split
    · simp [Scope.relabel, hs]
    · rfl

/-! ### Paths and declarations -/

theorem path_map (h : Embeds t' t kept φ) {a p : Position} (hpath : PatternPath t' a p) :
    ∀ {n : Node}, t'.get? p = some n → kept p → PatternPath t (φ a) (φ p) := by
  induction hpath with
  | here => exact fun _ _ => .here
  | @part p n s _ hn hs ih =>
      intro c hget hkept
      have hkeptp := h.kept_of_step p s hkept
      obtain ⟨s', hs', hsim⟩ := h.step p s c hget hkept
      obtain ⟨m, hm, hmk, hms⟩ := h.node p n hn hkeptp
      rw [hs']
      refine (ih hn hkeptp).part hm ?_
      rw [hms, continuesPattern_congr hmk hsim, hs]
  | @object p n m s r _ hn hk hm hs ih =>
      intro c hget hkept
      rw [show p ++ [s, r] = p ++ [s] ++ [r] by simp] at hget hkept ⊢
      have hkeptm := h.kept_of_step _ r hkept
      have hkeptp := h.kept_of_step p s hkeptm
      obtain ⟨s', hs', hsim⟩ := h.step p s m hm hkeptm
      obtain ⟨r', hr', hrim⟩ := h.step _ r c hget hkept
      obtain ⟨n₀, hn₀, hnk, hns⟩ := h.node p n hn hkeptp
      obtain ⟨m₀, hm₀, hmk, hms⟩ := h.node _ m hm hkeptm
      rw [hr', hs', List.append_assoc]
      rw [hs'] at hm₀
      refine (ih hn hkeptp).object hn₀ ?_ hm₀ ?_
      · rw [← hk]
        exact Kind.eq_of_scopeForm hnk (by simp [hk]) (by simp [hk])
      · rw [hns, hms, continuesObject_congr hmk hsim hrim, hs]

theorem exists_path (h : Embeds t' t kept φ) {a r : Position} (hpath : PatternPath t (φ a) r) :
    ∀ {p : Position} {n : Node}, t'.get? p = some n → kept p → a <+: p → φ p = r →
      PatternPath t' a p := by
  induction hpath with
  | here =>
      intro p n hget hkept hap hp
      obtain ⟨m, hm⟩ := Node.exists_get?_of_prefix hget hap
      have hlen := congrArg List.length hp
      rw [h.length_map hget hkept, h.length_map hm (h.kept_of_prefix hkept hap)] at hlen
      rw [hap.eq_of_length hlen.symm]
      exact .here
  | @part r n₀ s₀ hpath hn₀ hs₀ ih =>
      intro p c hget hkept hap hp
      obtain ⟨q, s, rfl, hq, hsim⟩ := h.exists_step hget hkept hp
      obtain ⟨n, hn⟩ := Node.exists_get?_of_prefix hget (List.prefix_append q [s])
      have hkeptq := h.kept_of_step q s hkept
      obtain ⟨m, hm, hmk, hms⟩ := h.node q n hn hkeptq
      rw [hq, hn₀] at hm
      cases hm
      have haq : a <+: q := by
        refine Position.prefix_of_prefix_append hap ?_
        rintro rfl
        rw [hp] at hpath
        exact Position.not_append_prefix (by simp) hpath.isPrefix
      refine (ih hn hkeptq haq hq).part hn ?_
      rw [← hms, ← continuesPattern_congr hmk hsim, hs₀]
  | @object r n₀ m₀ s₀ r₀ hpath hn₀ hk hm₀ hs₀ ih =>
      intro p c hget hkept hap hp
      rw [show r ++ [s₀, r₀] = r ++ [s₀] ++ [r₀] by simp] at hp
      obtain ⟨q₁, r', rfl, hq₁, hrim⟩ := h.exists_step hget hkept hp
      obtain ⟨m, hm⟩ := Node.exists_get?_of_prefix hget (List.prefix_append q₁ [r'])
      have hkeptm := h.kept_of_step q₁ r' hkept
      obtain ⟨q, s, rfl, hq, hsim⟩ := h.exists_step hm hkeptm hq₁
      obtain ⟨n, hn⟩ := Node.exists_get?_of_prefix hm (List.prefix_append q [s])
      have hkeptq := h.kept_of_step q s hkeptm
      obtain ⟨n₁, hn₁, hnk, hns⟩ := h.node q n hn hkeptq
      obtain ⟨m₁, hm₁, hmk, hms⟩ := h.node _ m hm hkeptm
      rw [hq, hn₀] at hn₁
      cases hn₁
      rw [hq₁, hm₀] at hm₁
      cases hm₁
      have haq : a <+: q := by
        have hlen := hpath.isPrefix.length_le
        obtain ⟨b, hb⟩ := Node.exists_get?_of_prefix hget hap
        rw [h.length_map hb (h.kept_of_prefix hkept hap), ← hq, h.length_map hn hkeptq] at hlen
        rw [List.append_assoc] at hap
        exact List.prefix_of_prefix_length_le hap (List.prefix_append ..) hlen
      rw [List.append_assoc]
      refine (ih hn hkeptq haq hq).object hn ?_ hm ?_
      · rw [← hk]
        exact (Kind.eq_of_scopeForm hnk.symm (by simp [hk]) (by simp [hk]))
      · rw [← hns, ← hms, ← continuesObject_congr hmk hsim hrim, hs₀]

theorem pick_map (φ : Position → Position) (inner outer : List Scope) (home : Home) :
    home.pick (inner.map (Scope.relabel φ)) (outer.map (Scope.relabel φ)) =
      (home.pick inner outer).map (Scope.relabel φ) := by
  cases home with
  | inner => simp [Home.pick]
  | outer => simp [Home.pick]
  | function =>
      simp only [Home.pick, functionScope?, List.find?_map]
      rfl

/-- Names are declared at kept places only. -/
theorem kept_of_declares (h : Embeds t' t kept φ) {d : Declaration} {above : Position} {last s : Step}
    {parent node : Node} {home : Home} (hd : Declares t' d above last parent node s home) :
    kept d.name.place := by
  refine Classical.byContradiction fun hkept => ?_
  obtain ⟨slots, hname⟩ := hd.get_name
  obtain ⟨q, r, m, hp, hm, hmk, -⟩ := h.inert _ _ _ hname hkept
  have hpath := hd.path
  rw [hp] at hpath
  generalize hgen : q ++ [r] = place at hpath
  cases hpath with
  | here =>
      obtain ⟨rfl, -⟩ := List.append_inj' hgen rfl
      have hb := hd.binds
      rw [hd.get_node] at hm
      cases hm
      rw [hmk] at hb
      cases hb
  | part _ hn hs =>
      obtain ⟨rfl, -⟩ := List.append_inj' hgen rfl
      rw [hm] at hn
      cases hn
      rw [hmk] at hs
      cases hs
  | @object p n m' s₁ s₂ _ _ _ hm' hs =>
      rw [show p ++ [s₁, s₂] = p ++ [s₁] ++ [s₂] by simp] at hgen
      obtain ⟨rfl, -⟩ := List.append_inj' hgen rfl
      rw [hm] at hm'
      cases hm'
      rw [hmk] at hs
      cases hs

/-- **A declaration of a kept name is a declaration of its origin.** -/
theorem declares_map (h : Embeds t' t kept φ) {d : Declaration} {above : Position} {last s : Step}
    {parent node : Node} {home : Home} (hd : Declares t' d above last parent node s home) :
    ∃ last' parent' node' s',
      Declares t (d.relabel φ) (φ above) last' parent' node' s' home := by
  have hkept := h.kept_of_declares hd
  obtain ⟨slots, hname⟩ := hd.get_name
  obtain ⟨c, hc⟩ := Node.exists_get?_of_prefix hname hd.path.isPrefix
  have hkeptc := h.kept_of_prefix hkept hd.path.isPrefix
  have hkeptn := h.kept_of_step _ s hkeptc
  have hkeptp := h.kept_of_step _ last hkeptn
  obtain ⟨last', hlast, -⟩ := h.step _ last node hd.get_node hkeptn
  obtain ⟨s', hs, hsim⟩ := h.step _ s c hc hkeptc
  obtain ⟨parent', hparent, hpk, -⟩ := h.node _ parent hd.get_parent hkeptp
  obtain ⟨node', hnode, hnk, hns⟩ := h.node _ node hd.get_node hkeptn
  refine ⟨last', parent', node', s', ?_, hparent, ?_, ?_, ?_, ?_, ?_, ?_⟩
  · show φ d.place = _
    rw [hd.place_eq, hlast]
  · rw [← hlast, hnode]
  · show bindsBy _ _ _ _ = some (home, d.kind)
    rw [hns, bindsBy_congr hpk hnk hsim, hd.binds]
  · show PatternPath t _ (φ d.name.place)
    rw [← hlast, ← hs]
    exact h.path_map hd.path hname hkept
  · exact h.identifier_map hname hkept
  · intro hown
    rw [namesItself_congr hnk hsim] at hown
    show φ d.name.place = _
    rw [hd.own hown, hs, hlast]
  · show _ = some (d.scope.relabel φ)
    rw [← hlast, h.scopesAround_map hd.get_node hkeptn, h.scopesAround_map hd.get_parent hkeptp,
      pick_map, hd.scope_eq]
    rfl

theorem mem_declarations_map (h : Embeds t' t kept φ) {d : Declaration}
    (hd : d ∈ declarations t') : d.relabel φ ∈ declarations t := by
  obtain ⟨above, last, parent, node, s, home, hd⟩ := mem_declarations_iff.mp hd
  obtain ⟨last', parent', node', s', hd'⟩ := h.declares_map hd
  exact mem_declarations_iff.mpr ⟨_, _, _, _, _, _, hd'⟩

/-- **A declaration whose name is kept is kept.** -/
theorem exists_declares (h : Embeds t' t kept φ) {e : Declaration} (he : e ∈ declarations t)
    {p : Position} {n : Node} (hget : t'.get? p = some n) (hkept : kept p)
    (hp : φ p = e.name.place) :
    ∃ d ∈ declarations t', d.relabel φ = e ∧ d.name.place = p := by
  obtain ⟨above₀, last₀, parent₀, node₀, s₀, home, hd⟩ := mem_declarations_iff.mp he
  obtain ⟨slots₀, hname₀⟩ := hd.get_name
  rw [← hp] at hname₀
  obtain ⟨slots, hname⟩ := h.exists_identifier hget hkept hname₀
  -- the start of the path, the declaring node and its parent are kept with the name
  have hbelow := hd.path.isPrefix
  rw [← hp] at hbelow
  obtain ⟨q, hq, hφq⟩ := h.exists_of_prefix_map hget hkept hbelow
  obtain ⟨c, hc⟩ := Node.exists_get?_of_prefix hget hq
  have hkeptq := h.kept_of_prefix hkept hq
  obtain ⟨q₁, s, rfl, hφq₁, hsim⟩ := h.exists_step hc hkeptq hφq
  obtain ⟨node, hnode⟩ := Node.exists_get?_of_prefix hc (List.prefix_append q₁ [s])
  have hkeptn := h.kept_of_step _ s hkeptq
  obtain ⟨above, last, rfl, hφabove, -⟩ := h.exists_step hnode hkeptn hφq₁
  obtain ⟨parent, hparent⟩ := Node.exists_get?_of_prefix hnode (List.prefix_append above [last])
  have hkeptp := h.kept_of_step _ last hkeptn
  obtain ⟨parent₁, hparent₁, hpk, -⟩ := h.node _ parent hparent hkeptp
  obtain ⟨node₁, hnode₁, hnk, hns⟩ := h.node _ node hnode hkeptn
  rw [hφabove, hd.get_parent] at hparent₁
  rw [hφq₁, hd.get_node] at hnode₁
  cases hparent₁
  cases hnode₁
  -- so is its scope
  have hscope := hd.scope_eq
  rw [← hφabove, h.scopesAround_map hparent hkeptp, hφabove, ← hφq₁,
    h.scopesAround_map hnode hkeptn, pick_map] at hscope
  obtain ⟨scope, hpick, hscope⟩ := Option.map_eq_some_iff.mp hscope
  refine ⟨⟨scope, ⟨p, e.name.name⟩, e.kind, above ++ [last]⟩, ?_, ?_, rfl⟩
  · refine mem_declarations_iff.mpr ⟨above, last, parent, node, s, home, rfl, hparent, hnode, ?_, ?_,
      ⟨slots, hname⟩, ?_, hpick⟩
    · rw [← hns, ← bindsBy_congr hpk hnk hsim, hd.binds]
    · refine h.exists_path ?_ hget hkept hq hp
      rw [hφq]
      exact hd.path
    · intro hown
      rw [← namesItself_congr hnk hsim] at hown
      have heq := hd.own hown
      rw [← hp, ← hφq] at heq
      exact h.inj _ _ _ _ hget hc hkept hkeptq heq
  · obtain ⟨escope, ⟨ename, estr⟩, ekind, eplace⟩ := e
    have hplace := hd.place_eq
    simp only at hp hplace hscope
    simp only [Declaration.relabel, Declaration.mk.injEq, Name.mk.injEq]
    exact ⟨hscope, ⟨hp, trivial⟩, trivial, by rw [hφq₁, hplace]⟩

/-! ### Occurrences -/

theorem self_of_map (h : Embeds t' t kept φ) {p : Position} {n : Node} (hget : t'.get? p = some n)
    (hkept : kept p) (hself : φ p ∈ selfNamePlaces t) : p ∈ selfNamePlaces t' := by
  obtain ⟨q₀, n₀, c₀, hp, hq₀, hn₀, hk, -⟩ := mem_selfNamePlaces.mp hself
  obtain ⟨q, s, rfl, hφq, hsim⟩ := h.exists_step hget hkept hp
  obtain rfl := hsim.symm.eq_none
  obtain ⟨m, hm⟩ := Node.exists_get?_of_prefix hget (List.prefix_append q [⟨0, none⟩])
  obtain ⟨m₀, hm₀, hmk, -⟩ := h.node q m hm (h.kept_of_step _ _ hkept)
  rw [hφq, hn₀] at hm₀
  cases hm₀
  have hchild : m.child? ⟨0, none⟩ = some n := by
    rw [Node.get?_concat, hm] at hget
    exact hget
  refine mem_selfNamePlaces.mpr ⟨q, m, n, rfl, ?_, hm, ?_, hchild⟩
  · rintro rfl
    exact hq₀ (by rw [← hφq, h.root])
  · rw [← hk]
    exact (Kind.eq_of_scopeForm hmk.symm (by simp [hk]) (by simp [hk]))

theorem self_map (h : Embeds t' t kept φ) {p : Position} (hkept : kept p)
    (hself : p ∈ selfNamePlaces t') : φ p ∈ selfNamePlaces t := by
  obtain ⟨q, m, c, rfl, hq, hm, hk, hc⟩ := mem_selfNamePlaces.mp hself
  have hget : t'.get? (q ++ [⟨0, none⟩]) = some c := by rw [Node.get?_concat, hm, Option.bind_some, hc]
  have hkeptq := h.kept_of_step _ _ hkept
  obtain ⟨s, hs, hsim⟩ := h.step q _ c hget hkept
  obtain rfl := hsim.eq_none
  obtain ⟨m₀, hm₀, hmk, -⟩ := h.node q m hm hkeptq
  obtain ⟨c₀, hc₀, -⟩ := h.node _ c hget hkept
  rw [hs, Node.get?_concat, hm₀] at hc₀
  refine mem_selfNamePlaces.mpr ⟨φ q, m₀, c₀, hs, ?_, hm₀, ?_, hc₀⟩
  · intro hφq
    have hlength := h.length_map hm hkeptq
    rw [hφq] at hlength
    exact hq (List.length_eq_zero_iff.mp hlength.symm)
  · rw [← hk]
    exact Kind.eq_of_scopeForm hmk (by simp [hk]) (by simp [hk])

theorem value_map (h : Embeds t' t kept φ) {p : Position} {n : Node} (hget : t'.get? p = some n)
    (hkept : kept p) :
    standsForValue ((φ p).parent?.bind t.get?) (φ p).getLast? =
      standsForValue (p.parent?.bind t'.get?) p.getLast? := by
  rcases List.eq_nil_or_concat p with rfl | ⟨q, s, rfl⟩
  · rw [h.root]
    rfl
  · rw [List.concat_eq_append] at *
    obtain ⟨s', hs, hsim⟩ := h.step q s n hget hkept
    rw [hs, Position.parent?_concat, Position.parent?_concat, List.getLast?_concat,
      List.getLast?_concat, Option.bind_some, Option.bind_some, standsForValue_congr_step _ hsim.1]
    exact h.value q s n hget hkept

/-- **Identifiers that occur in the tree are kept and occur at their origins.** -/
theorem occurs_map (h : Embeds t' t kept φ) {p : Position} {name : String}
    (hocc : Occurs t' p name) : kept p ∧ Occurs t (φ p) name := by
  obtain ⟨slots, hget⟩ := hocc.get
  have hkept : kept p := by
    refine Classical.byContradiction fun hkept => ?_
    obtain ⟨q, s, ⟨k, mslots⟩, rfl, hm, hk, hs⟩ := h.inert _ _ _ hget hkept
    have hvalue := hocc.value
    obtain ⟨i, index⟩ := s
    simp only [Node.kind_mk] at hk hs
    subst hk hs
    rw [Position.parent?_concat, List.getLast?_concat, Option.bind_some, hm] at hvalue
    cases hvalue
  refine ⟨hkept, h.identifier_map hget hkept, ?_, ?_, ?_⟩
  · rw [h.value_map hget hkept]
    exact hocc.value
  · intro e he hp
    obtain ⟨d, hd, -, hdp⟩ := h.exists_declares he hget hkept hp.symm
    exact hocc.not_declaring d hd hdp
  · intro hself
    exact hocc.not_self (h.self_of_map hget hkept hself)

/-- **Identifiers whose origins occur, occur in the tree.** -/
theorem occurs_of_map (h : Embeds t' t kept φ) {p : Position} {n : Node} {name : String}
    (hget : t'.get? p = some n) (hkept : kept p) (hocc : Occurs t (φ p) name) : Occurs t' p name := by
  obtain ⟨slots₀, hget₀⟩ := hocc.get
  refine ⟨h.exists_identifier hget hkept hget₀, ?_, ?_, ?_⟩
  · rw [← h.value_map hget hkept]
    exact hocc.value
  · rintro d hd rfl
    exact hocc.not_declaring _ (h.mem_declarations_map hd) rfl
  · intro hself
    exact hocc.not_self (h.self_map hkept hself)

/-! ### Resolution -/

/-- Where a kept declaration puts its name is a scope around a kept place, if its origin is. -/
theorem scope_place_eq (h : Embeds t' t kept φ) {p : Position} {n : Node} (hget : t'.get? p = some n)
    (hkept : kept p) {scope : Scope} (hscope : scope ∈ scopesAround t' p) {d : Declaration}
    (hd : d ∈ declarations t') (he : φ d.scope.place = φ scope.place) :
    d.scope.place = scope.place := by
  obtain ⟨above, last, parent, node, s, home, hd⟩ := mem_declarations_iff.mp hd
  have hbelow := hd.scope_isPrefix
  obtain ⟨m, hm⟩ := Node.exists_get?_of_prefix hd.get_node hbelow
  have hscopep := prefix_of_mem_scopesAround hget scope hscope
  obtain ⟨m', hm'⟩ := Node.exists_get?_of_prefix hget hscopep
  refine h.inj _ _ _ _ hm hm' (h.kept_of_prefix (h.kept_of_declares hd) ?_)
    (h.kept_of_prefix hkept hscopep) he
  exact hbelow.trans ((List.prefix_append _ _).trans hd.path.isPrefix)

/-- **An identifier refers to what its origin refers to**, if that is kept. -/
theorem resolve?_of_map (h : Embeds t' t kept φ) {p : Position} {n : Node} (hget : t'.get? p = some n)
    (hkept : kept p) {name : String} {i j : Nat} {d e : Declaration}
    (hres : resolve? (firstDeclarations [] (declarations t)) (scopesAround t (φ p)) name = some i)
    (he : (firstDeclarations [] (declarations t))[i]? = some e)
    (hd : (firstDeclarations [] (declarations t'))[j]? = some d)
    (hkey : (d.relabel φ).key = e.key) :
    resolve? (firstDeclarations [] (declarations t')) (scopesAround t' p) name = some j := by
  obtain ⟨inner₀, scope₀, outer₀, e', hsplit, he', hkey', hinner⟩ := resolve?_eq_some hres
  rw [he] at he'
  cases he'
  rw [h.scopesAround_map hget hkept] at hsplit
  obtain ⟨inner, rest, hrest, rfl, hmap⟩ := List.map_eq_append_iff.mp hsplit
  obtain ⟨scope, outer, rfl, rfl, rfl⟩ := List.map_eq_cons_iff.mp hmap
  obtain ⟨hscope, hname⟩ := Prod.mk.inj (hkey.trans hkey')
  have hmem : scope ∈ scopesAround t' p := by rw [hrest]; simp
  have hplace := h.scope_place_eq hget hkept hmem
    (mem_of_mem_firstDeclarations (List.mem_of_getElem? hd)).1 hscope
  rw [hrest]
  refine resolve?_of_nearest hd (Prod.ext hplace hname) ?_
  rintro s hs ⟨f, hf, hfkey⟩
  refine hinner (s.relabel φ) (List.mem_map_of_mem hs) ⟨f.relabel φ, h.mem_declarations_map hf, ?_⟩
  obtain ⟨hfscope, hfname⟩ := Prod.mk.inj hfkey
  exact Prod.ext (congrArg φ hfscope) hfname

/-- **No name becomes unresolved** if some declaration of each binding that a kept identifier refers
to is kept. -/
theorem unresolved (h : Embeds t' t kept φ)
    (hsight : ∀ p name i d, Occurs t' p name → (occurrenceAt t (φ p) name).binding = some i →
      (firstDeclarations [] (declarations t))[i]? = some d →
        ∃ d' ∈ declarations t', (d'.relabel φ).key = d.key)
    {name : String} (hun : Unresolved t' name) : Unresolved t name := by
  obtain ⟨p, hocc, hnone⟩ := hun
  obtain ⟨hkept, hocc₀⟩ := h.occurs_map hocc
  obtain ⟨slots, hget⟩ := hocc.get
  refine ⟨φ p, hocc₀, ?_⟩
  rw [← resolve?_eq_none_iff]
  cases hr : resolve? (firstDeclarations [] (declarations t)) (scopesAround t (φ p)) name with
  | none => rfl
  | some i =>
      obtain ⟨inner, scope₀, outer, d, hsplit, hd, hkey, -⟩ := resolve?_eq_some hr
      obtain ⟨d', hd', hkey'⟩ := hsight p name i d hocc hr hd
      have hscope₀ : scope₀ ∈ scopesAround t (φ p) := by rw [hsplit]; simp
      rw [h.scopesAround_map hget hkept] at hscope₀
      obtain ⟨scope, hscope, rfl⟩ := List.mem_map.mp hscope₀
      rw [hkey, Declaration.key, Prod.mk.injEq] at hkey'
      refine absurd ⟨d', hd', ?_⟩ (hnone scope hscope)
      rw [Declaration.key, h.scope_place_eq hget hkept hscope hd' hkey'.1]
      exact congrArg _ hkey'.2

/-! ### Edits in place -/

theorem refl (t : Node) : Embeds t t (fun _ => True) id where
  root := rfl
  kept_root := trivial
  kept_of_step := fun _ _ _ => trivial
  node := fun _ n hn _ => ⟨n, hn, rfl, rfl⟩
  step := fun _ s _ _ _ => ⟨s, rfl, rfl, rfl⟩
  value := fun _ _ _ _ _ => rfl
  inj := fun _ _ _ _ _ _ _ _ h => h
  inert := fun _ _ _ _ h => absurd trivial h

/-- What keeps its place twice keeps it, where the identifiers of the tree between are kept. -/
theorem trans {t'' : Node} {kept' : Position → Prop} (h' : Embeds t'' t' kept' id)
    (h : Embeds t' t kept id)
    (hid : ∀ p name slots, t'.get? p = some (.mk (.identifier name) slots) → kept p) :
    Embeds t'' t (fun p => kept' p ∧ kept p) id where
  root := rfl
  kept_root := ⟨h'.kept_root, h.kept_root⟩
  kept_of_step := fun p s hp => ⟨h'.kept_of_step p s hp.1, h.kept_of_step p s hp.2⟩
  node := by
    intro p n'' hn'' hp
    obtain ⟨n', hn', hk', hs'⟩ := h'.node p n'' hn'' hp.1
    obtain ⟨n, hn, hk, hs⟩ := h.node p n' hn' hp.2
    exact ⟨n, hn, hk.trans hk', hs.trans hs'⟩
  step := fun _ s _ _ _ => ⟨s, rfl, rfl, rfl⟩
  value := by
    intro p s c hc hp
    obtain ⟨c', hc', -⟩ := h'.node _ c hc hp.1
    exact (h.value p s c' hc' hp.2).trans (h'.value p s c hc hp.1)
  inj := fun _ _ _ _ _ _ _ _ h => h
  inert := by
    intro p name slots hget hp
    refine h'.inert p name slots hget fun hkept' => hp ⟨hkept', ?_⟩
    obtain ⟨slots', hget'⟩ := h'.identifier_map hget hkept'
    exact hid p name slots' hget'

end Embeds

end Descramble

import Descramble.Proofs.Pass.Folding
import Descramble.Proofs.Pass.Resolving
import Descramble.Proofs.Pass.Revised
import Descramble.Proofs.Scope.Writes

/-!
# Folding and the targets of assignments

What an expression assigns to, steps or deletes is left alone when it is an access.  The guard looks
at one parent, so an access inside a pattern is folded like any other, and so is what is no access.

* `AssignmentTarget` — what a tree assigns to, steps or deletes, also inside patterns.
* `FoldComesTo` — the tree that folding finds when it comes to a place.
* `KeepsKind`, `keepsKind_foldAt` — a target that the pass does not write keeps its kind.
* `becomesLiteral_iff` — the targets that folding replaces.
* `targets_kept_iff` — when it replaces none.
-/

set_option autoImplicit false

namespace Descramble

/-! ## Targets -/

/-- The nodes that assign to their first child, step it or delete it. -/
def Kind.takesTarget : Kind → Bool
  | .assignment _ => true
  | .update _ _ => true
  | .unary operator _ => operator == "delete"
  | kind => kind.isMemberLoop

def Kind.isMember : Kind → Bool
  | .member _ => true
  | _ => false

/-- The place of what a node assigns to, steps or deletes. -/
def DirectTarget (t : Node) (p : Position) : Prop :=
  ∃ r n, t.get? r = some n ∧ n.kind.takesTarget = true ∧ p = r ++ [first]

/-- The place of a target, or of an element, a property value, a rest or the left side of a default
in a pattern that is one. -/
def AssignmentTarget (t : Node) (p : Position) : Prop :=
  ∃ r n, t.get? r = some n ∧ n.kind.takesTarget = true ∧ PatternPath t (r ++ [first]) p

theorem DirectTarget.assignmentTarget {t : Node} {p : Position} (h : DirectTarget t p) :
    AssignmentTarget t p := by
  obtain ⟨r, n, hn, hk, rfl⟩ := h
  exact ⟨r, n, hn, hk, .here⟩

/-- The nodes that have targets among their children, or that lead to them. -/
def Kind.carriesTarget (k : Kind) : Bool := k.takesTarget || k.isPattern

theorem not_isPattern_of_takesTarget {k : Kind} (h : k.takesTarget = true) : k.isPattern = false := by
  cases k <;> first | rfl | cases h

/-- A target that no node takes directly stands in a pattern. -/
theorem AssignmentTarget.direct_or_isPattern {t : Node} {p : Position} (h : AssignmentTarget t p) :
    DirectTarget t p ∨ ∃ q s, p = q ++ [s] ∧ ∀ n, t.get? q = some n → n.kind.isPattern = true := by
  obtain ⟨r, n, hn, hk, hpath⟩ := h
  by_cases he : p = r ++ [first]
  · exact Or.inl ⟨r, n, hn, hk, he⟩
  · obtain ⟨q, s, rfl⟩ : ∃ q s, p = q ++ [s] := by
      rcases List.eq_nil_or_concat p with rfl | ⟨q, s, rfl⟩
      · simpa using hpath.isPrefix
      · exact ⟨q, s, List.concat_eq_append ..⟩
    refine Or.inr ⟨q, s, rfl, fun m hm => ?_⟩
    exact hpath.isPattern_of_between (Position.prefix_of_prefix_append hpath.isPrefix (Ne.symm he))
      (List.prefix_append ..) (by simp) hm

theorem AssignmentTarget.exists_parent {t n : Node} {p : Position} (h : AssignmentTarget t p)
    (hn : t.get? p = some n) :
    ∃ q s m, p = q ++ [s] ∧ t.get? q = some m ∧ m.kind.carriesTarget = true := by
  rcases h.direct_or_isPattern with ⟨r, m, hm, hk, rfl⟩ | ⟨q, s, rfl, hpattern⟩
  · exact ⟨r, first, m, rfl, hm, by rw [Kind.carriesTarget, hk]; rfl⟩
  · obtain ⟨m, hm⟩ := Node.exists_get?_of_prefix hn (List.prefix_append q [s])
    refine ⟨q, s, m, rfl, hm, ?_⟩
    rw [Kind.carriesTarget, hpattern m hm, Bool.or_true]

/-- **What carries a target has no value.** -/
theorem not_carriesTarget_of_valueOf {env : Surroundings} {p : Position} {n : Node} {v : Value}
    (h : valueOf env p n = .ok v) : n.kind.carriesTarget = false := by
  rw [Kind.carriesTarget, isPattern_of_isEvaluable (isEvaluable_of_valueOf h), Bool.or_false]
  cases valueOf_eq_ok_iff.mp h with
  | unary hne => simp [Kind.takesTarget, hne]
  | _ => rfl

/-! ## Targets during the pass -/

section
variable {t : Node} {decoder : Option String} {a : Analysis} {r r' : Revision} {q z : Position}
  {s : Step} {k : Kind}

/-- If a node stands at the target, it is of a certain kind. -/
def KeepsKind (k : Kind) (u : Node) (p : Position) : Prop := ∀ n, u.get? p = some n → n.kind = k

/-- **A visit that does not write at a target keeps its kind**, or the target goes with something
above it. -/
theorem keepsKind_foldAt (hf : RevisedFrom t r.tree) {m : Node} (hm : t.get? q = some m)
    (hcarries : m.kind.carriesTarget = true) (hk : KeepsKind k r.tree (q ++ [s]))
    (h : foldAt decoder a r z = .ok r')
    (hz : foldTarget? decoder a r.tree z ≠ some (q ++ [s])) : KeepsKind k r'.tree (q ++ [s]) := by
  rcases foldAt_cases h with rfl | ⟨target, v, l, htarget, hvalue, hl, rfl⟩
  · exact hk
  · obtain ⟨n₀, hn₀, hn₀v, -⟩ := evaluate_eq_known_iff.mp hvalue
    have hn₀ : r.tree.get? target = some n₀ := hn₀
    have hne : target ≠ q ++ [s] := by
      rintro rfl
      exact hz htarget
    -- a carrier has no value
    have hneq : target ≠ q := by
      rintro rfl
      obtain ⟨m', hm', hkind, -⟩ := hf.exists_of_not_isWritten hn₀
        (not_isWritten_of_foldTarget? htarget hn₀)
      obtain rfl : m = m' := Option.some.inj (hm.symm.trans hm')
      rw [hkind, not_carriesTarget_of_valueOf hn₀v] at hcarries
      cases hcarries
    intro n hn
    change (r.tree.replaceAt target l).get? (q ++ [s]) = some n at hn
    by_cases hpre : target <+: q ++ [s]
    · exfalso
      -- the target stands two steps or more below what is written
      obtain ⟨rest, rfl⟩ := Position.prefix_of_prefix_append hpre hne
      rw [List.append_assoc, Node.get?_replaceAt_append, hn₀, Option.bind_some] at hn
      cases rest with
      | nil => exact hneq (List.append_nil _).symm
      | cons s' rest => exact absurd ((isWritten_literal? hl).below hn).1 (by simp)
    · have hkind := Node.map_get?_modifyAt_of_not_prefix Node.kind_modifyChild (fun _ => l) r.tree
        target (q ++ [s]) hpre
      rw [← Node.replaceAt, hn, Option.map_some] at hkind
      obtain ⟨n₁, hn₁, hk₁⟩ := Option.map_eq_some_iff.mp hkind.symm
      rw [← hk₁]
      exact hk n₁ hn₁

/-- A target is written when it is visited itself. -/
theorem foldTarget?_ne (hf : RevisedFrom t r.tree) {m : Node} (hm : t.get? q = some m)
    (hcarries : m.kind.carriesTarget = true) (hz : z ≠ q ++ [s]) :
    foldTarget? decoder a r.tree z ≠ some (q ++ [s]) := by
  intro htarget
  rcases foldTarget?_cases htarget with ⟨he, -⟩ | ⟨id, init, hget, -, he⟩
  · exact hz he.symm
  · obtain ⟨rfl, -⟩ := List.append_inj' he rfl
    obtain ⟨m', hm', hkind, -⟩ := hf.exists_of_not_isWritten hget
      (not_isWritten_of_kind rfl)
    obtain rfl : m = m' := Option.some.inj (hm.symm.trans hm')
    rw [hkind] at hcarries
    cases hcarries

theorem keepsKind_visitEach {m : Node} (hm : t.get? q = some m)
    (hcarries : m.kind.carriesTarget = true) : ∀ {places : List Position} {r r' : Revision},
      RevisedFrom t r.tree → KeepsKind k r.tree (q ++ [s]) →
        visitEach (foldAt decoder a) places r = .ok r' → q ++ [s] ∉ places →
          KeepsKind k r'.tree (q ++ [s])
  | [], _, _, _, hk, h, _ => by
      cases h
      exact hk
  | z :: places, r, r', hf, hk, h, hout => by
      rw [List.mem_cons, not_or] at hout
      obtain ⟨r₁, hvisit, hrest⟩ := bind_eq_ok.mp h
      have hz : foldTarget? decoder a r.tree z ≠ some (q ++ [s]) :=
        foldTarget?_ne hf hm hcarries (Ne.symm hout.1)
      exact keepsKind_visitEach hm hcarries (hf.foldAt hvisit)
        (keepsKind_foldAt hf hm hcarries hk hvisit hz) hrest hout.2

end

/-- A written literal stays, unless a place above it is visited. -/
theorem get?_foldAt_of_isWritten {decoder : Option String} {a : Analysis} {r r' : Revision}
    {p z : Position} {m : Node} (h : foldAt decoder a r z = .ok r') (hm : m.IsWritten)
    (hp : r.tree.get? p = some m) (hzp : ¬ z <+: p) : r'.tree.get? p = some m := by
  rcases foldAt_cases h with rfl | ⟨target, v, l, htarget, hvalue, -, rfl⟩
  · exact hp
  · obtain ⟨n, hn, -, -⟩ := evaluate_eq_known_iff.mp hvalue
    have hztarget : z <+: target := by
      rcases foldTarget?_cases htarget with ⟨rfl, -⟩ | ⟨-, -, -, -, rfl⟩
      · exact List.prefix_refl _
      · exact List.prefix_append ..
    exact get?_replaceAt_of_isWritten hm hp hn (not_isWritten_of_foldTarget? htarget hn)
      fun hpre => hzp (hztarget.trans hpre)

/-! ## The guard -/

/-- Does a step lead from a node to what it takes as a target?  The guard asks this of the parent. -/
theorem isWriteTarget_concat {u : Node} {q : Position} {s : Step} {k : Kind} {slots : List Slot}
    (hq : u.get? q = some (.mk k slots)) :
    isWriteTarget u (q ++ [s]) = true ↔ k.takesTarget = true ∧
      (s.slot = 0 ∨ (∃ operator leading, k = .update operator leading) ∨
        ∃ operator leading, k = .unary operator leading) := by
  simp only [isWriteTarget, Position.parent?_concat, Option.bind_some, hq, List.getLast?_concat]
  cases k <;> simp [Kind.takesTarget, Kind.isMemberLoop]

/-- **The guard looks at one parent**: it keeps the targets that a node takes directly. -/
theorem isWriteTarget_iff {t u n : Node} {p : Position} (hf : RevisedFrom t u)
    (hp : AssignmentTarget t p) (hn : u.get? p = some n) (hnot : ¬ n.IsWritten) :
    isWriteTarget u p = true ↔ DirectTarget t p := by
  constructor
  · intro hguard
    refine hp.direct_or_isPattern.resolve_right ?_
    rintro ⟨q, s, rfl, hpattern⟩
    obtain ⟨⟨k, slots⟩, hm⟩ := Node.exists_get?_of_prefix hn (List.prefix_append q [s])
    obtain ⟨m, hmt, hk, -⟩ := hf.exists_above hm hn hnot
    have hkind := hpattern m hmt
    rw [hk, Node.kind_mk,
      not_isPattern_of_takesTarget ((isWriteTarget_concat hm).mp hguard).1] at hkind
    cases hkind
  · rintro ⟨r, m, hm, hk, rfl⟩
    obtain ⟨⟨k, slots⟩, hmu⟩ := Node.exists_get?_of_prefix hn (List.prefix_append r [first])
    obtain ⟨m', hm', hkind, -⟩ := hf.exists_above hmu hn hnot
    obtain rfl : m = m' := Option.some.inj (hm.symm.trans hm')
    rw [hkind] at hk
    exact (isWriteTarget_concat hmu).mpr ⟨hk, Or.inl rfl⟩

/-- Which targets with a value are folded. -/
theorem foldTarget?_eq_self_iff {decoder : Option String} {a : Analysis} {t u n : Node}
    {p : Position} {v : Value} (hf : RevisedFrom t u) (hp : AssignmentTarget t p)
    (hn : u.get? p = some n)
    (hv : valueOf (Context.ofTree u a decoder).surroundings p n = .ok v) :
    foldTarget? decoder a u p = some p ↔
      n.kind.isFoldable = true ∧ (n.kind.isMember = true → ¬ DirectTarget t p) := by
  obtain ⟨k, slots⟩ := n
  cases k with
  | call =>
      have hcall : callsDecoder u a decoder p = false := not_isDecoderCall_of_valueOf hv
      simp [foldTarget?, hn, hcall, Kind.isFoldable, Kind.isMember]
  | binary operator => simp [foldTarget?, hn, Kind.isFoldable, Kind.isMember]
  | member computed =>
      have hguard := isWriteTarget_iff hf hp hn (not_isWritten_of_kind rfl)
      simp [foldTarget?, hn, Kind.isFoldable, Kind.isMember, ← hguard]
  | variableDeclarator =>
      have := isEvaluable_of_valueOf hv
      cases this
  | _ => simp [foldTarget?, hn, Kind.isFoldable]

/-! ## What folding replaces -/

/-- Folding comes to a place when the tree is `u`. -/
def FoldComesTo (state : RunState) (t : Node) (p : Position) (u : Node) : Prop :=
  ∃ earlier later count, t.places = earlier ++ p :: later ∧
    visitEach (foldAt state.decoderName (analyze t)) earlier ⟨t, 0⟩ = .ok ⟨u, count⟩

/-- A literal or a negated literal has come to a place.  Folding replaces calls, binary expressions,
accesses and initial values, so the kind of a target that it replaces changes. -/
def BecomesLiteral (t t' : Node) (p : Position) : Prop :=
  ∃ n m, t.get? p = some n ∧ t'.get? p = some m ∧ m.isLiteralLike = true ∧ m.kind ≠ n.kind

section
variable {state : RunState} {t t' u : Node} {p : Position} {changed : Bool}

/-- The rest of folding, from a place on. -/
theorem exists_rest_of_fold (h : (foldConstants state t).outcome = .ok (t', changed))
    {earlier later : List Position} (hsplit : t.places = earlier ++ p :: later) :
    ∃ r r₁ r', visitEach (foldAt state.decoderName (analyze t)) earlier ⟨t, 0⟩ = .ok r ∧
      foldAt state.decoderName (analyze t) r p = .ok r₁ ∧
      visitEach (foldAt state.decoderName (analyze t)) later r₁ = .ok r' ∧ r'.tree = t' := by
  obtain ⟨r', hr', he, -⟩ := foldConstants_eq_ok.mp h
  rw [hsplit] at hr'
  obtain ⟨r, r₁, hr, hvisit, hrest⟩ := visitEach_split hr'
  exact ⟨r, r₁, r', hr, hvisit, hrest, he⟩

/-- Folding comes to every place. -/
theorem exists_foldComesTo (h : (foldConstants state t).outcome = .ok (t', changed)) {n : Node}
    (hn : t.get? p = some n) : ∃ u, FoldComesTo state t p u := by
  obtain ⟨earlier, later, hsplit⟩ := List.append_of_mem (Node.mem_places_iff.mpr ⟨n, hn⟩)
  obtain ⟨⟨u, count⟩, -, -, hr, -⟩ := exists_rest_of_fold h hsplit
  exact ⟨u, earlier, later, count, hsplit, hr⟩

/-- When folding comes to a target, that is of its old kind. -/
theorem FoldComesTo.keepsKind (hu : FoldComesTo state t p u) (hp : AssignmentTarget t p) {n : Node}
    (hn : t.get? p = some n) : RevisedFrom t u ∧ KeepsKind n.kind u p := by
  obtain ⟨earlier, later, count, hsplit, hearlier⟩ := hu
  obtain ⟨q, s, m, rfl, hm, hcarries⟩ := hp.exists_parent hn
  have hstart : KeepsKind n.kind t (q ++ [s]) := by
    intro n' hn'
    rw [hn] at hn'
    cases hn'
    rfl
  have hrevised : RevisedFrom t u :=
    visitEach_induction (P := fun r => RevisedFrom t r.tree) (fun _ _ _ hf h => hf.foldAt h)
      (RevisedFrom.refl t) hearlier
  exact ⟨hrevised, keepsKind_visitEach hm hcarries (RevisedFrom.refl t)
    hstart hearlier (not_mem_of_split hsplit).1⟩

/-- A target that folding comes to and does not write keeps its kind. -/
theorem FoldComesTo.keepsKind_of_not_written (hu : FoldComesTo state t p u)
    (h : (foldConstants state t).outcome = .ok (t', changed)) (hp : AssignmentTarget t p) {n : Node}
    (hn : t.get? p = some n)
    (hnot : ∀ v, foldTarget? state.decoderName (analyze t) u p = some p →
      (Context.ofTree u (analyze t) state.decoderName).evaluate p ≠ .ok (.known v)) :
    KeepsKind n.kind t' p := by
  obtain ⟨hf, hbefore⟩ := hu.keepsKind hp hn
  obtain ⟨earlier, later, count, hsplit, hearlier⟩ := hu
  obtain ⟨r, r₁, r', hr, hvisit, hrest, rfl⟩ := exists_rest_of_fold h hsplit
  obtain rfl : r = ⟨u, count⟩ := Except.ok.inj (hr.symm.trans hearlier)
  obtain ⟨q, s, m, rfl, hm, hcarries⟩ := hp.exists_parent hn
  refine keepsKind_visitEach hm hcarries (hf.foldAt hvisit) ?_ hrest (not_mem_of_split hsplit).2
  by_cases htarget : foldTarget? state.decoderName (analyze t) u (q ++ [s]) = some (q ++ [s])
  · rcases foldAt_cases hvisit with rfl | ⟨target, v, l, htarget', hvalue, -, -⟩
    · exact hbefore
    · cases htarget.symm.trans htarget'
      exact absurd hvalue (hnot v htarget)
  · exact keepsKind_foldAt hf hm hcarries hbefore hvisit htarget

/-- A known value is written over the node that has it. -/
theorem FoldComesTo.get?_of_known (hu : FoldComesTo state t p u)
    (h : (foldConstants state t).outcome = .ok (t', changed)) {v : Value}
    (htarget : foldTarget? state.decoderName (analyze t) u p = some p)
    (hvalue : (Context.ofTree u (analyze t) state.decoderName).evaluate p = .ok (.known v)) :
    ∃ m, m.IsWritten ∧ t'.get? p = some m := by
  obtain ⟨n, hn, -, hliteral⟩ := evaluate_eq_known_iff.mp hvalue
  obtain ⟨m, hm⟩ := exists_literal?_of_isLiteral hliteral
  obtain ⟨earlier, later, count, hsplit, hearlier⟩ := hu
  obtain ⟨r, r₁, r', hr, hvisit, hrest, rfl⟩ := exists_rest_of_fold h hsplit
  obtain rfl : r = ⟨u, count⟩ := Except.ok.inj (hr.symm.trans hearlier)
  have hr₁ : r₁ = Revision.replace ⟨u, count⟩ p m := by
    simpa [foldAt, htarget, hvalue, hm, bind, Except.bind, pure, Except.pure] using hvisit.symm
  have hput : r₁.tree.get? p = some m := by
    have hget := u.get?_replaceAt_append m p []
    rw [List.append_nil, show u.get? p = some n from hn] at hget
    rw [hr₁]
    exact hget
  have hwritten := isWritten_literal? hm
  exact ⟨m, hwritten, get?_visitEach (fun hv => get?_foldAt_of_isWritten hv hwritten) hrest hput
    (not_prefix_of_later hsplit)⟩

/-- **The targets that folding replaces**: those with a known value that are calls, binary
expressions, or accesses that no node takes directly. -/
theorem becomesLiteral_iff (h : (foldConstants state t).outcome = .ok (t', changed))
    (hp : AssignmentTarget t p) (hu : FoldComesTo state t p u) :
    BecomesLiteral t t' p ↔ ∃ n v, u.get? p = some n ∧ n.kind.isFoldable = true ∧
      (n.kind.isMember = true → ¬ DirectTarget t p) ∧
        (Context.ofTree u (analyze t) state.decoderName).evaluate p = .ok (.known v) := by
  constructor
  · rintro ⟨n₀, m, hn₀, hm, -, hne⟩
    refine Classical.byContradiction fun hnone => hne ?_
    refine hu.keepsKind_of_not_written h hp hn₀ (fun v htarget hvalue => hnone ?_) m hm
    obtain ⟨n, hn, hnv, -⟩ := evaluate_eq_known_iff.mp hvalue
    obtain ⟨hfold, hmember⟩ :=
      (foldTarget?_eq_self_iff (hu.keepsKind hp hn₀).1 hp hn hnv).mp htarget
    exact ⟨n, v, hn, hfold, hmember, hvalue⟩
  · rintro ⟨n, v, hn, hfold, hmember, hvalue⟩
    obtain ⟨earlier, later, -, hsplit, -⟩ := id hu
    obtain ⟨n₀, hn₀⟩ : ∃ n, t.get? p = some n := Node.mem_places_iff.mp (by rw [hsplit]; simp)
    obtain ⟨hf, hkind⟩ := hu.keepsKind hp hn₀
    obtain ⟨n', hn', hnv, -⟩ := evaluate_eq_known_iff.mp hvalue
    obtain rfl : n = n' := Option.some.inj (hn.symm.trans hn')
    have htarget := (foldTarget?_eq_self_iff hf hp hn hnv).mpr ⟨hfold, hmember⟩
    obtain ⟨m, hwritten, hm⟩ := hu.get?_of_known h htarget hvalue
    refine ⟨n₀, m, hn₀, hm, hwritten.isLiteralLike, fun heq => ?_⟩
    rw [hkind n hn, ← heq, hwritten.not_isFoldable] at hfold
    cases hfold

/-- **When no target becomes a literal.**  Accesses that are assigned, stepped or deleted directly
never do.  No target does exactly if none of the others that folding may replace has a known value when
the pass comes to it. -/
theorem targets_kept_iff (h : (foldConstants state t).outcome = .ok (t', changed)) :
    (∀ p n, DirectTarget t p → t.get? p = some n → n.kind.isMember = true →
      ¬ BecomesLiteral t t' p) ∧
    ((∀ p, AssignmentTarget t p → ¬ BecomesLiteral t t' p) ↔
      ∀ p u n, AssignmentTarget t p → FoldComesTo state t p u → u.get? p = some n →
        n.kind.isFoldable = true → (n.kind.isMember = true → ¬ DirectTarget t p) →
          ∀ v, (Context.ofTree u (analyze t) state.decoderName).evaluate p ≠ .ok (.known v)) := by
  refine ⟨?_, ?_, ?_⟩
  · intro p n hdirect hn hmember hbecomes
    have hp := hdirect.assignmentTarget
    obtain ⟨u, hu⟩ := exists_foldComesTo h hn
    obtain ⟨n', -, hn', -, hnot, -⟩ := (becomesLiteral_iff h hp hu).mp hbecomes
    rw [← (hu.keepsKind hp hn).2 n' hn'] at hmember
    exact hnot hmember hdirect
  · intro hkept p u n hp hu hn hfold hmember v hvalue
    exact hkept p hp ((becomesLiteral_iff h hp hu).mpr ⟨n, v, hn, hfold, hmember, hvalue⟩)
  · intro hunknown p hp hbecomes
    obtain ⟨n₀, -, hn₀, -⟩ := id hbecomes
    obtain ⟨u, hu⟩ := exists_foldComesTo h hn₀
    obtain ⟨n, v, hn, hfold, hmember, hvalue⟩ := (becomesLiteral_iff h hp hu).mp hbecomes
    exact hunknown p u n hp hu hn hfold hmember v hvalue

end

/-- `["ab".length] = x;` -/
def accessInPattern : Node :=
  .programOf "script" [.statementOf (.binary2 (.assignment "=")
    (.mk .arrayPattern [.many [
      some (.memberOf false (.lit (.text "ab") "\"ab\"") (.ident "length"))]])
    (.ident "x"))]

/-- The access has the value `2`, which comes to stand to the left of the assignment. -/
theorem targets_kept_iff_accessInPattern :
    ∃ t' changed, (foldConstants {} accessInPattern).outcome = .ok (t', changed) ∧
      ¬ ∀ p, AssignmentTarget accessInPattern p → ¬ BecomesLiteral accessInPattern t' p := by
  obtain ⟨⟨t', changed⟩, hrun⟩ := Option.isSome_iff_exists.mp
    (show (foldConstants {} accessInPattern).outcome.toOption.isSome = true by decide +kernel)
  have hrun := eq_ok_of_toOption hrun
  refine ⟨t', changed, hrun, ?_⟩
  rw [(targets_kept_iff hrun).2]
  intro hunknown
  have htarget : AssignmentTarget accessInPattern [⟨0, some 0⟩, first, first, ⟨0, some 0⟩] :=
    ⟨[⟨0, some 0⟩, first], _, rfl, rfl, .part .here rfl rfl⟩
  have hcomes : FoldComesTo {} accessInPattern [⟨0, some 0⟩, first, first, ⟨0, some 0⟩]
      accessInPattern :=
    ⟨accessInPattern.places.take 4, accessInPattern.places.drop 5, 0, rfl, rfl⟩
  have hdirect : ¬ DirectTarget accessInPattern [⟨0, some 0⟩, first, first, ⟨0, some 0⟩] := by
    rintro ⟨r, n, -, -, he⟩
    have hlast := congrArg List.getLast? he
    rw [List.getLast?_concat] at hlast
    cases hlast
  exact hunknown _ _ _ htarget hcomes rfl rfl (fun _ => hdirect) (.number (.int 2))
    (eq_of_knownNumber? (by decide +kernel))

end Descramble

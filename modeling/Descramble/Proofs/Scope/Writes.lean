import Descramble.Proofs.Scope.Placement
import Descramble.Proofs.Tree.Layout
import Descramble.Evaluation

/-!
# What changes a binding

An identifier writes where an assignment, a step up or down, or a loop over members puts a new value
into it.  The analysis collects the names of a pattern to the left of an assignment, but of a loop over
members it sees a lone identifier only: the names of a pattern there count as read.

* `WriteTarget` — the identifiers that a tree writes.
* `LoopPatternName` — those of them inside a pattern to the left of a loop over members.
* `use_of_loopPatternName`, `writes_of_writeTarget`, `writeTarget_of_writes` — how they are used.
* `violates_iff_writeTarget` — which writes change a binding for the analysis.
-/

set_option autoImplicit false

namespace Descramble

/-- The loops that go through the keys or the members of an object. -/
def Kind.isMemberLoop : Kind → Bool
  | .forInStatement _ => true
  | .forOfStatement => true
  | _ => false

/-- The identifiers that the pattern in the first slot of the node at `r` names; a lone identifier
is a pattern, a declaration is none. -/
def TargetName (t : Node) (r p : Position) : Prop :=
  ∃ target, t.get? (r ++ [first]) = some target ∧
    p ∈ (patternNames (r ++ [first]) target).map Name.place

/-- The identifiers that a tree writes. -/
inductive WriteTarget (t : Node) (p : Position) : Prop
  | assigned {r : Position} {n : Node} {op : String} : t.get? r = some n →
      n.kind = .assignment op → TargetName t r p → WriteTarget t p
  | stepped {r : Position} {n : Node} {op : String} {leading : Bool} : t.get? r = some n →
      n.kind = .update op leading → p = r ++ [first] → WriteTarget t p
  | looped {r : Position} {n : Node} : t.get? r = some n → n.kind.isMemberLoop = true →
      TargetName t r p → WriteTarget t p

/-- The identifiers inside a pattern to the left of a loop over members. -/
def LoopPatternName (t : Node) (p : Position) : Prop :=
  ∃ r n, t.get? r = some n ∧ n.kind.isMemberLoop = true ∧ TargetName t r p ∧ p ≠ r ++ [first]

theorem targetName_iff {t : Node} {r p : Position} :
    TargetName t r p ↔ PatternPath t (r ++ [first]) p ∧
      ∃ name slots, t.get? p = some (.mk (.identifier name) slots) := by
  constructor
  · rintro ⟨target, htarget, hp⟩
    obtain ⟨name, hname, rfl⟩ := List.mem_map.mp hp
    obtain ⟨hpath, slots, hid⟩ := (mem_patternNames_iff htarget).mp hname
    exact ⟨hpath, _, slots, hid⟩
  · rintro ⟨hpath, name, slots, hid⟩
    obtain ⟨target, htarget⟩ := Node.exists_get?_of_prefix hid hpath.isPrefix
    exact ⟨target, htarget, List.mem_map.mpr
      ⟨⟨p, name⟩, (mem_patternNames_iff htarget).mpr ⟨hpath, slots, hid⟩, rfl⟩⟩

/-! ## Patterns that assign -/

theorem mem_assignedByPattern {t : Node} {p : Position} :
    p ∈ assignedByPattern t ↔ ∃ r n op target, r ≠ [] ∧ t.get? r = some n ∧
      n.kind = .assignment op ∧ n.child? ⟨0, none⟩ = some target ∧
      (∀ name, target.kind ≠ .identifier name) ∧ PatternPath t (r ++ [⟨0, none⟩]) p ∧
      ∃ name slots, t.get? p = some (.mk (.identifier name) slots) := by
  unfold assignedByPattern
  rw [List.mem_flatMap]
  constructor
  · rintro ⟨⟨place, node⟩, hsite, h⟩
    have hget := Node.mem_sites_iff.mp hsite
    simp only at hget h
    split at h
    · rename_i step path op target rest
      split at h
      · cases h
      · rename_i hne
        obtain ⟨name, hname, rfl⟩ := List.mem_map.mp h
        have htarget : t.get? (step :: path ++ [⟨0, none⟩]) = some target := by
          rw [Node.get?_concat, hget]
          rfl
        obtain ⟨hpath, slots, hid⟩ := (mem_patternNames_iff htarget).mp hname
        exact ⟨_, _, op, target, by simp, hget, rfl, rfl, hne, hpath, _, slots, hid⟩
    · cases h
  · rintro ⟨r, ⟨k, slots⟩, op, target, hr, hget, hk, htarget, hne, hpath, name, nslots, hid⟩
    have hgett : t.get? (r ++ [⟨0, none⟩]) = some target := by
      rw [Node.get?_concat, hget, Option.bind_some, htarget]
    have hmem : ⟨p, name⟩ ∈ patternNames (r ++ [⟨0, none⟩]) target :=
      (mem_patternNames_iff hgett).mpr ⟨hpath, nslots, hid⟩
    refine ⟨⟨r, .mk k slots⟩, Node.mem_sites_iff.mpr hget, ?_⟩
    cases hk
    obtain ⟨step, rest, rfl⟩ := List.exists_cons_of_ne_nil hr
    rw [Node.child?_mk] at htarget
    match slots, htarget with
    | .one (some _) :: _, rfl =>
        simp only
        exact List.mem_map.mpr ⟨_, hmem, rfl⟩

theorem useOf_assigned (parent : Option Node) (step : Option Step) :
    (useOf parent step true).writes = true := by
  unfold useOf
  split <;> rfl

/-- A name in a pattern is read, unless the pattern assigns it. -/
theorem useOf_pattern {parent : Node} (h : parent.kind.isPattern = true) (step : Option Step) :
    useOf (some parent) step false = .read := by
  obtain ⟨k, slots⟩ := parent
  simp only [Node.kind_mk, Kind.isPattern] at h
  split at h
  all_goals first | rfl | cases h

/-! ## How a written name is used -/

section

variable {t : Node} {p : Position} {name : String}

/-- The use of an identifier by its parent and its step. -/
theorem use_concat {r : Position} {s : Step} {n : Node} (hn : t.get? r = some n) :
    (occurrenceAt t (r ++ [s]) name).use =
      useOf (some n) (some s) ((assignedByPattern t).contains (r ++ [s])) := by
  have hparent : Position.parent? (r ++ [s]) = some r := Position.parent?_eq_some.mpr ⟨s, rfl⟩
  simp only [occurrenceAt, hparent, Option.bind_some, hn, List.getLast?_concat]

/-- A pattern that leads to an identifier passes no other target on the way. -/
theorem PatternPath.target_eq {r r' : Position} {n n' : Node} (hn : t.get? r = some n)
    (hn' : t.get? r' = some n') (hk : n.kind.isPattern = false) (hk' : n'.kind.isPattern = false)
    (h : PatternPath t (r ++ [first]) p) (h' : PatternPath t (r' ++ [first]) p) : r = r' := by
  -- a target strictly below the other one would be passed by its pattern
  have key : ∀ {a b : Position} {m : Node}, t.get? b = some m → m.kind.isPattern = false →
      PatternPath t (a ++ [first]) p → PatternPath t (b ++ [first]) p → a <+: b → a = b := by
    intro a b m hm hkm ha hb hab
    refine Classical.byContradiction fun hne => ?_
    have hbp : b <+: p := (List.prefix_append ..).trans hb.isPrefix
    have hbne : b ≠ p := by
      rintro rfl
      exact Position.not_append_prefix (by simp) hb.isPrefix
    have hbelow : a ++ [first] <+: b := by
      rcases Position.prefix_total ha.isPrefix hbp with hpre | hpre
      · exact hpre
      · rcases List.prefix_concat_iff.mp hpre with heq | hpre
        · exact Position.prefix_of_eq heq.symm
        · exact absurd (hab.eq_of_length_le hpre.length_le) hne
    have hpat := ha.isPattern_of_between hbelow hbp hbne hm
    rw [hkm] at hpat
    cases hpat
  rcases Position.prefix_total ((List.prefix_append ..).trans h.isPrefix)
    ((List.prefix_append ..).trans h'.isPrefix) with hpre | hpre
  · exact key hn' hk' h h' hpre
  · exact (key hn hk h' h hpre).symm

/-- **The names of a pattern to the left of a loop over members are read.** -/
theorem use_of_loopPatternName (h : LoopPatternName t p) :
    (occurrenceAt t p name).use = .read := by
  obtain ⟨r, n, hn, hk, htarget, hne⟩ := h
  obtain ⟨hpath, word, slots, hid⟩ := targetName_iff.mp htarget
  have hpat : n.kind.isPattern = false := by
    unfold Kind.isMemberLoop at hk
    split at hk
    all_goals first | (rename_i hk'; rw [hk']; rfl) | cases hk
  have hassigned : p ∉ assignedByPattern t := by
    intro hp
    obtain ⟨r', n', op, target, -, hn', hk', -, -, hpath', -⟩ := mem_assignedByPattern.mp hp
    obtain rfl := hpath.target_eq hn hn' hpat (by rw [hk']; rfl) hpath'
    rw [hn] at hn'
    cases hn'
    rw [hk'] at hk
    cases hk
  -- the parent of such a name is a part of the pattern
  obtain ⟨q, s, rfl⟩ : ∃ q s, p = q ++ [s] := by
    rcases List.eq_nil_or_concat p with rfl | ⟨q, s, rfl⟩
    · simpa using hpath.isPrefix
    · exact ⟨q, s, List.concat_eq_append ..⟩
  obtain ⟨m, hm⟩ := Node.exists_get?_of_prefix hid (List.prefix_append q [s])
  have hm' := hpath.isPattern_of_between
    (Position.prefix_of_prefix_append hpath.isPrefix (Ne.symm hne)) (List.prefix_append ..)
    (by simp) hm
  rw [use_concat hm, show (assignedByPattern t).contains (q ++ [s]) = false by simpa using hassigned]
  exact useOf_pattern hm' _

/-- **Every other name that is written counts as written.** -/
theorem writes_of_writeTarget (hroot : ∀ op, t.kind ≠ .assignment op) (h : WriteTarget t p)
    (hloop : ¬ LoopPatternName t p) : (occurrenceAt t p name).use.writes = true := by
  cases h with
  | @assigned r n op hn hk htarget =>
      obtain ⟨target, hget, -⟩ := id htarget
      obtain ⟨hpath, hid⟩ := targetName_iff.mp htarget
      by_cases hident : ∃ word, target.kind = .identifier word
      · obtain ⟨word, hword⟩ := hident
        have hp : r ++ [first] = p := by
          refine Classical.byContradiction fun hne => ?_
          have := hpath.isPattern_of_between (List.prefix_refl _) hpath.isPrefix hne hget
          rw [hword] at this
          cases this
        subst hp
        obtain ⟨k, slots⟩ := n
        cases hk
        rw [use_concat hn]
        rfl
      · have hr : r ≠ [] := by
          rintro rfl
          cases hn
          exact hroot op hk
        have hmem : p ∈ assignedByPattern t := by
          refine mem_assignedByPattern.mpr ⟨r, n, op, target, hr, hn, hk, ?_, ?_, hpath, hid⟩
          · rw [Node.get?_concat, hn] at hget
            exact hget
          · intro word hword
            exact hident ⟨word, hword⟩
        simp only [occurrenceAt, List.contains_iff_mem.mpr hmem]
        exact useOf_assigned _ _
  | @stepped r n op leading hn hk hp =>
      subst hp
      obtain ⟨k, slots⟩ := n
      cases hk
      rw [use_concat hn]
      cases h : (assignedByPattern t).contains (r ++ [first]) <;> rfl
  | @looped r n hn hk htarget =>
      have hp : p = r ++ [first] :=
        Classical.byContradiction fun hne => hloop ⟨r, n, hn, hk, htarget, hne⟩
      subst hp
      obtain ⟨k, slots⟩ := n
      rw [use_concat hn]
      simp only [Node.kind_mk, Kind.isMemberLoop] at hk
      split at hk
      · rfl
      · rfl
      · cases hk

/-- In a tree that keeps to the layout, a child in a single slot has no index. -/
theorem index_eq_none {n c : Node} {s : Step} (hfits : n.fits = true) (hc : n.child? s = some c)
    (hsingle : ∀ slot ∈ n.kind.slotNames, slot.isList = false) :
    s.index = none ∧ s.slot < n.kind.slotNames.length := by
  have hshape := Node.skeleton_of_child? hc
  have hskeleton : n.skeleton = n.kind.slotNames.map Kind.SlotName.isList := by
    simpa using Node.skeleton_of_fits hfits
  rw [hskeleton, List.getElem?_map, Option.map_eq_some_iff] at hshape
  obtain ⟨slot, hslot, hlist⟩ := hshape
  rw [hsingle slot (List.mem_of_getElem? hslot)] at hlist
  exact ⟨by simpa using hlist.symm, (List.getElem?_eq_some_iff.mp hslot).1⟩

/-- **What counts as written is written.** -/
theorem writeTarget_of_writes (hc : t.conforms = true) (hocc : Occurs t p name)
    (h : (occurrenceAt t p name).use.writes = true) : WriteTarget t p := by
  obtain ⟨slots, hid⟩ := hocc.get
  have hassigned : p ∈ assignedByPattern t → WriteTarget t p := by
    intro hp
    obtain ⟨r, n, op, target, -, hn, hk, -, -, hpath, hname⟩ := mem_assignedByPattern.mp hp
    exact .assigned hn hk (targetName_iff.mpr ⟨hpath, hname⟩)
  rcases List.eq_nil_or_concat p with rfl | ⟨r, s, rfl⟩
  · refine hassigned ?_
    by_cases hp : [] ∈ assignedByPattern t
    · exact hp
    · rw [← List.contains_iff_mem, Bool.not_eq_true] at hp
      simp only [occurrenceAt, hp] at h
      cases h
  · rw [List.concat_eq_append] at *
    have hget := hid
    rw [Node.get?_concat] at hget
    obtain ⟨n, hn, hchild⟩ := Option.bind_eq_some_iff.mp hget
    have hfits := Node.conforms_iff.mp hc r n hn
    have hown : s = first → TargetName t r (r ++ [s]) := by
      rintro rfl
      exact targetName_iff.mpr ⟨.here, name, slots, hid⟩
    have hsingle : ∀ {k : Kind}, n.kind = k → (k.slotNames.all fun slot => !slot.isList) = true →
        s.index = none ∧ s.slot < k.slotNames.length := by
      rintro k rfl hall
      exact index_eq_none hfits hchild (by simpa using hall)
    rw [use_concat hn] at h
    obtain ⟨k, nslots⟩ := n
    obtain ⟨slot, index⟩ := s
    unfold useOf at h
    split at h
    · rename_i heq hstep
      cases heq
      cases hstep
      obtain ⟨rfl, -⟩ := hsingle rfl rfl
      exact .assigned hn rfl (hown rfl)
    · rename_i heq hstep
      cases heq
      cases hstep
      obtain ⟨rfl, -⟩ := hsingle rfl rfl
      exact .looped hn rfl (hown rfl)
    · rename_i heq hstep
      cases heq
      cases hstep
      obtain ⟨rfl, -⟩ := hsingle rfl rfl
      exact .looped hn rfl (hown rfl)
    · rename_i heq
      cases heq
      obtain ⟨rfl, hslot⟩ := hsingle rfl rfl
      obtain rfl : slot = 0 := Nat.lt_one_iff.mp hslot
      exact .stepped hn rfl rfl
    · refine hassigned (List.contains_iff_mem.mp ?_)
      cases hp : (assignedByPattern t).contains (r ++ [⟨slot, index⟩]) with
      | true => rfl
      | false =>
          rw [hp] at h
          cases h

end

/-- No node that declares is an identifier. -/
theorem not_identifier_of_declares {t : Node} {d : Declaration} (hd : d ∈ declarations t)
    {name : String} {slots : List Slot} : t.get? d.place ≠ some (.mk (.identifier name) slots) := by
  intro hget
  obtain ⟨above, last, parent, node, s, home, hd⟩ := mem_declarations_iff.mp hd
  rw [hd.place_eq, hd.get_node] at hget
  cases hget
  rcases bindsBy_cases hd.binds with ⟨-, hk | hk⟩ | ⟨-, hk, -⟩ | ⟨hk, -⟩ <;> cases hk

/-- **Which writes change a binding.**  An identifier that refers to a binding violates it exactly
when the tree writes it, unless it stands inside a pattern to the left of a loop over members: such a
name counts as a reading reference, although the loop writes it. -/
theorem violates_iff_writeTarget {t : Node} {source : String} {p : Position} {i : Nat} {b : Binding}
    (hroot : t.kind = .program source) (hc : t.conforms = true)
    (hb : (analyze t).bindingFor? p = some (i, b)) :
    (p ∈ b.violations ↔ WriteTarget t p ∧ ¬ LoopPatternName t p) ∧
      (LoopPatternName t p → p ∈ b.references) ∧ (p ∈ b.violations → b.constant = false) := by
  obtain ⟨number, hnumber, hb⟩ := Option.bind_eq_some_iff.mp hb
  obtain ⟨b', hb', heq⟩ := Option.bind_eq_some_iff.mp hb
  cases heq
  obtain ⟨name, hocc, hbinding⟩ := bindingNumber?_eq_some.mp hnumber
  rw [getElem?_bindings, Option.map_eq_some_iff] at hb'
  obtain ⟨d, hd, rfl⟩ := hb'
  have huses : p ∈ (bindingOf (declarations t) (analyze t).occurrences d i).violations ↔
      (occurrenceAt t p name).use.writes = true := by
    rw [mem_violations_iff]
    constructor
    · rintro (⟨e, he, rfl⟩ | ⟨name', hocc', -, hw⟩)
      · obtain ⟨slots, hget⟩ := hocc.get
        have hmem := (List.mem_filter.mp (List.mem_of_mem_drop he)).1
        exact absurd hget (not_identifier_of_declares hmem)
      · rwa [hocc.name_eq hocc']
    · intro hw
      exact Or.inr ⟨name, hocc, hbinding, hw⟩
  refine ⟨?_, ?_, ?_⟩
  · rw [huses]
    constructor
    · intro hw
      refine ⟨writeTarget_of_writes hc hocc hw, fun hloop => ?_⟩
      rw [use_of_loopPatternName hloop] at hw
      cases hw
    · rintro ⟨hw, hloop⟩
      exact writes_of_writeTarget (by simp [hroot]) hw hloop
  · intro hloop
    exact mem_references_iff.mpr
      ⟨name, hocc, hbinding, by rw [use_of_loopPatternName hloop]; rfl⟩
  · intro hp
    exact Bool.eq_false_iff.mpr fun hempty => by
      rw [Binding.constant, List.isEmpty_iff] at hempty
      rw [hempty] at hp
      cases hp

/-- `var x = 1; for ([x] of y) x++;` -/
def loopOverPattern : Node :=
  .mk (.program "script") [.many [
    some (.mk (.variableDeclaration .var) [.many [
      some (.declarator (.ident "x") (some (.lit (.number (.int 1)) "1")))]]),
    some (.mk .forOfStatement [
      .one (some (.mk .arrayPattern [.many [some (.ident "x")]])),
      .one (some (.ident "y")),
      .one (some (.mk (.expressionStatement none) [
        .one (some (.unary1 (.update "++" false) (.ident "x")))]))])]]

/-- Of two writes of one binding, the analysis sees the step up and misses the head of the loop. -/
theorem violates_iff_writeTarget_loopOverPattern :
    ∃ b, (analyze loopOverPattern).bindingFor? [⟨0, some 1⟩, first, ⟨0, some 0⟩] = some (0, b) ∧
      (analyze loopOverPattern).bindingFor? [⟨0, some 1⟩, ⟨2, none⟩, first, first] = some (0, b) ∧
      WriteTarget loopOverPattern [⟨0, some 1⟩, first, ⟨0, some 0⟩] ∧
      [⟨0, some 1⟩, first, ⟨0, some 0⟩] ∉ b.violations ∧
      [⟨0, some 1⟩, first, ⟨0, some 0⟩] ∈ b.references ∧
      [⟨0, some 1⟩, ⟨2, none⟩, first, first] ∈ b.violations := by
  have hc : loopOverPattern.conforms = true := by decide
  have htarget : TargetName loopOverPattern [⟨0, some 1⟩] [⟨0, some 1⟩, first, ⟨0, some 0⟩] :=
    ⟨_, rfl, by decide⟩
  have hhead : LoopPatternName loopOverPattern [⟨0, some 1⟩, first, ⟨0, some 0⟩] :=
    ⟨[⟨0, some 1⟩], _, rfl, rfl, htarget, by decide⟩
  have hstep : ¬ LoopPatternName loopOverPattern [⟨0, some 1⟩, ⟨2, none⟩, first, first] := by
    intro h
    have huse : (occurrenceAt loopOverPattern [⟨0, some 1⟩, ⟨2, none⟩, first, first] "x").use = .read :=
      use_of_loopPatternName h
    revert huse
    decide
  refine ⟨_, rfl, rfl, .looped (r := [⟨0, some 1⟩]) rfl rfl htarget, ?_, ?_, ?_⟩
  · exact fun h => ((violates_iff_writeTarget rfl hc rfl).1.mp h).2 hhead
  · exact (violates_iff_writeTarget rfl hc rfl).2.1 hhead
  · exact (violates_iff_writeTarget rfl hc rfl).1.mpr
      ⟨.stepped (r := [⟨0, some 1⟩, ⟨2, none⟩, first]) rfl rfl rfl, hstep⟩

end Descramble

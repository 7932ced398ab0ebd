import Descramble.Proofs.DeadCode.Sweep
import Descramble.Proofs.Encoded.Script
import Descramble.Proofs.Evaluation.Literal
import Descramble.Proofs.Scope.Distinct

/-!
# The nodes of a script with a string table

* `EncodedScript.Statement` — the statements of the script by number.
* `EncodedScript.get?_tree` — what stands at a place.
* `Tame` — what holds of every node of the script: nothing there can be folded, written with a plain
  name or taken for a guard.
* `EncodedScript.everywhere_tame` — it does.
-/

set_option autoImplicit false

namespace Descramble

/-! ## Spelled integers -/

theorem isWritten_ofInt {v : Int} (h : Number.isSafe v = true) : (Node.ofInt v).IsWritten := by
  rcases ofInt_cases h with ⟨-, he⟩ | ⟨-, he⟩
  · exact Or.inl ⟨_, _, he⟩
  · exact Or.inr ⟨_, _, he⟩

/-! ## Looking below a node -/

namespace Node

theorem get?_leaf {k : Kind} {q : Position} {n : Node} :
    (Node.leaf k).get? q = some n ↔ q = [] ∧ n = .leaf k := by
  cases q with
  | nil => simp [eq_comm]
  | cons step q => simp [get?_cons, child?_mk]

theorem get?_unary1 {k : Kind} {c n : Node} {step : Step} {q : Position} :
    (Node.unary1 k c).get? (step :: q) = some n ↔ step = first ∧ c.get? q = some n := by
  obtain ⟨slot, index⟩ := step
  rw [get?_cons, child?_mk]
  match slot, index with
  | 0, none => simp [first]
  | 0, some j => simp [first]
  | slot + 1, index => simp [first]

theorem get?_callOf {callee n : Node} {arguments : List (Option Node)} {step : Step} {q : Position} :
    (Node.callOf callee arguments).get? (step :: q) = some n ↔
      (step = first ∧ callee.get? q = some n) ∨
        ∃ i c, step = ⟨1, some i⟩ ∧ arguments[i]? = some (some c) ∧ c.get? q = some n := by
  obtain ⟨slot, index⟩ := step
  rw [get?_cons, child?_mk]
  match slot, index with
  | 0, none => simp [first]
  | 0, some j => simp [first]
  | 1, none => simp [first]
  | 1, some j => simp [first, Option.bind_eq_some_iff, join_eq_some]
  | slot + 2, index => simp [first]

end Node

/-! ## Nodes that nothing can be done with -/

/-- The expression is, or starts from, a name other than `free`, or it calls a name. -/
def StartsFromName (free : String) : Node → Prop
  | .mk (.identifier name) _ => name ≠ free
  | .callOf (.mk (.identifier _) _) _ => True
  | .binary2 (.binary _) (.mk (.identifier name) _) _ => name ≠ free
  | .memberOf _ (.mk (.identifier name) _) _ => name ≠ free
  | _ => False

/-- What folding looks at starts from a name, or is an array. -/
def FoldSafe (free : String) : Node → Prop
  | .mk .variableDeclarator [_, .one (some init)] =>
    init.kind = .arrayExpression ∨ StartsFromName free init
  | .mk .call slots => StartsFromName free (.mk .call slots)
  | .mk (.binary operator) slots => StartsFromName free (.mk (.binary operator) slots)
  | .mk (.member computed) slots => StartsFromName free (.mk (.member computed) slots)
  | _ => True

/-- A node that fits its kind and that no pass has anything to do with, as long as the names other
than `free` have no values. -/
structure Tame (free : String) (n : Node) : Prop where
  fits : n.fits = true
  ordinary : n.kind.isOrdinary = true
  access : plainMember? n = none
  stub : isGuardStub n = false
  foldSafe : FoldSafe free n

theorem tame_iff {free : String} {n : Node} :
    Tame free n ↔ n.fits = true ∧ n.kind.isOrdinary = true ∧ plainMember? n = none ∧
      isGuardStub n = false ∧ FoldSafe free n :=
  ⟨fun h => ⟨h.fits, h.ordinary, h.access, h.stub, h.foldSafe⟩,
    fun ⟨h₁, h₂, h₃, h₄, h₅⟩ => ⟨h₁, h₂, h₃, h₄, h₅⟩⟩

theorem tame_lit (free : String) (value : Constant) (raw : String) :
    (Node.lit value raw).Everywhere (Tame free) :=
  Node.everywhere_leaf.mpr ⟨rfl, rfl, rfl, rfl, trivial⟩

theorem tame_ident (free name : String) : (Node.ident name).Everywhere (Tame free) :=
  Node.everywhere_leaf.mpr ⟨rfl, rfl, rfl, rfl, trivial⟩

theorem tame_ofInt (free : String) {v : Int} (h : Number.isSafe v = true) :
    (Node.ofInt v).Everywhere (Tame free) := by
  rcases ofInt_cases h with ⟨-, he⟩ | ⟨-, he⟩
  · rw [he]
    exact tame_lit _ _ _
  · rw [he, Node.negated, Node.everywhere_mk]
    exact ⟨⟨rfl, rfl, rfl, rfl, trivial⟩, tame_lit _ _ _, trivial⟩

namespace EncodedScript

variable {s : EncodedScript}

/-- The elements of the table's array are literals. -/
theorem lit_of_mem_entrySites {place : Position} {site : Site}
    (h : site ∈ Node.childSites place 0 0
      (s.entries.map fun entry => some (Node.lit (.text entry.text) entry.raw))) :
    ∃ value raw, site.node = .lit value raw := by
  obtain ⟨j, c, hc, hsite⟩ := Node.mem_childSites.mp h
  rw [List.getElem?_map, Option.map_eq_some_iff] at hc
  obtain ⟨entry, -, he⟩ := hc
  cases he
  cases List.mem_singleton.mp hsite
  exact ⟨_, _, rfl⟩

/-! ## Statements -/

/-- The statements of the script by number. -/
inductive Statement (args : List s.Argument) : Nat → Node → Prop
  | loader : Statement args 0 s.loaderNode
  | decoder : Statement args 1 s.decoderNode
  | aliased {j : Nat} {name target : String} (hname : s.aliases[j]? = some name)
      (htarget : s.callees[j]? = some target) : Statement args (j + 2) (.varOf name (.ident target))
  | use : Statement args (s.aliases.length + 2) (useNode args)

theorem length_aliasNodes : s.aliasNodes.length = s.aliases.length := by
  simp [aliasNodes, callees]

theorem getElem?_statements {args : List s.Argument} {i : Nat} {n : Node} :
    (s.prelude ++ [useNode args])[i]? = some n ↔ Statement args i n := by
  constructor
  · intro h
    match i with
    | 0 =>
        cases h
        exact .loader
    | 1 =>
        cases h
        exact .decoder
    | j + 2 =>
        simp only [prelude, List.cons_append, List.getElem?_cons_succ] at h
        by_cases hj : j < s.aliases.length
        · rw [List.getElem?_append_left (by rw [length_aliasNodes]; exact hj), aliasNodes,
            List.getElem?_zipWith_eq_some] at h
          obtain ⟨name, target, hname, htarget, rfl⟩ := h
          exact .aliased hname htarget
        · rw [List.getElem?_append_right (by rw [length_aliasNodes]; omega), length_aliasNodes,
            List.getElem?_singleton] at h
          split at h
          · obtain rfl : j = s.aliases.length := by omega
            cases h
            exact .use
          · cases h
  · intro h
    cases h with
    | loader => rfl
    | decoder => rfl
    | @aliased j name target hname htarget =>
        have hj : j < s.aliases.length := (List.getElem?_eq_some_iff.mp hname).1
        simp only [prelude, List.cons_append, List.getElem?_cons_succ]
        rw [List.getElem?_append_left (by rw [length_aliasNodes]; exact hj), aliasNodes,
          List.getElem?_zipWith_eq_some]
        exact ⟨name, target, hname, htarget, rfl⟩
    | use =>
        simp only [prelude, List.cons_append, List.getElem?_cons_succ]
        rw [List.getElem?_append_right (Nat.le_of_eq length_aliasNodes),
          length_aliasNodes, Nat.sub_self]
        rfl

/-- The step from the root to a statement, and from a block to one of its statements. -/
abbrev item (i : Nat) : Step := ⟨0, some i⟩

theorem get?_tree_cons {args : List s.Argument} {i : Nat} {n : Node} (h : Statement args i n)
    (q : Position) : (tree args).get? (item i :: q) = n.get? q := by
  rw [tree, Node.get?_cons, Node.child?_mk, Node.childOfSlots_many, List.getElem?_map,
    getElem?_statements.mpr h]
  rfl

/-- **What stands at a place** of the script: the script, or something in one of its statements. -/
theorem get?_tree {args : List s.Argument} {p : Position} {n : Node} :
    (tree args).get? p = some n ↔ (p = [] ∧ n = tree args) ∨
      ∃ i q m, p = item i :: q ∧ Statement args i m ∧ m.get? q = some n := by
  cases p with
  | nil =>
      constructor
      · intro h
        cases h
        exact Or.inl ⟨rfl, rfl⟩
      · rintro (⟨-, rfl⟩ | ⟨i, q, m, h, -⟩)
        · rfl
        · cases h
  | cons step q =>
      simp only [List.cons_ne_nil, false_and, false_or, List.cons.injEq]
      constructor
      · intro h
        rw [Node.get?_cons] at h
        obtain ⟨c, hc, hq⟩ := Option.bind_eq_some_iff.mp h
        obtain ⟨slot, index⟩ := step
        rw [tree, Node.child?_mk] at hc
        match slot, index with
        | 0, none => cases hc
        | 0, some i =>
            rw [Node.childOfSlots_many, Node.join_eq_some, List.getElem?_map,
              Option.map_eq_some_iff] at hc
            obtain ⟨m, hm, he⟩ := hc
            cases he
            exact ⟨i, q, c, ⟨rfl, rfl⟩, getElem?_statements.mp hm, hq⟩
        | slot + 1, index => simp at hc
      · rintro ⟨i, q, m, ⟨rfl, rfl⟩, hm, hq⟩
        rw [get?_tree_cons hm, hq]

/-- What stands in the use of the texts: the call, the name of the function, or something in an
argument. -/
theorem get?_useNode {args : List s.Argument} {q : Position} {n : Node}
    (h : (useNode args).get? q = some n) :
    (q = [] ∧ n = useNode args) ∨
      (q = [first] ∧ n = .callOf (.ident s.user) (args.map fun arg => some arg.node)) ∨
      (q = [first, first] ∧ n = .ident s.user) ∨
      ∃ i arg r, q = first :: ⟨1, some i⟩ :: r ∧ args[i]? = some arg ∧ arg.node.get? r = some n := by
  match q with
  | [] =>
      cases h
      exact Or.inl ⟨rfl, rfl⟩
  | [step] =>
      obtain ⟨rfl, h⟩ := Node.get?_unary1.mp h
      cases h
      exact Or.inr (Or.inl ⟨rfl, rfl⟩)
  | step :: step' :: r =>
      obtain ⟨rfl, h⟩ := Node.get?_unary1.mp h
      refine Or.inr (Or.inr ?_)
      rcases Node.get?_callOf.mp h with ⟨rfl, h⟩ | ⟨i, n', rfl, hn, h⟩
      · obtain ⟨rfl, rfl⟩ := Node.get?_leaf.mp h
        exact Or.inl ⟨rfl, rfl⟩
      · rw [List.getElem?_map, Option.map_eq_some_iff] at hn
        obtain ⟨arg, harg, he⟩ := hn
        cases he
        exact Or.inr ⟨i, arg, r, rfl, harg, h⟩

/-- What stands in a call of the decoder: the call, its name, or something in its number. -/
theorem get?_call {c : s.Call} {q : Position} {n : Node}
    (h : (Argument.call c).node.get? q = some n) :
    (q = [] ∧ n = (Argument.call c).node) ∨ (q = [first] ∧ n = .ident c.name) ∨
      ∃ r, q = ⟨1, some 0⟩ :: r ∧ (Node.ofInt c.value).get? r = some n := by
  cases q with
  | nil =>
      cases h
      exact Or.inl ⟨rfl, rfl⟩
  | cons step q =>
      rcases Node.get?_callOf.mp h with ⟨rfl, h⟩ | ⟨i, n', rfl, hn, h⟩
      · obtain ⟨rfl, rfl⟩ := Node.get?_leaf.mp h
        exact Or.inr (Or.inl ⟨rfl, rfl⟩)
      · rw [List.getElem?_singleton] at hn
        split at hn
        · cases hn
          exact Or.inr (Or.inr ⟨q, by simp [*], h⟩)
        · cases hn

/-! ## Names -/

/-- All names of the script but that of the function that is used. -/
def names (s : EncodedScript) : List String :=
  s.loader :: s.array :: s.decoder :: s.form.locals ++ s.aliases

theorem names_nodup : s.names.Nodup := (List.nodup_append.mp s.distinct).1

theorem ne_user {name : String} (h : name ∈ s.names) : name ≠ s.user :=
  (List.nodup_append.mp s.distinct).2.2 name h s.user (List.mem_singleton.mpr rfl)

theorem mem_names_of_local {name : String} (h : name ∈ s.form.locals) : name ∈ s.names := by
  simp [names, h]

theorem mem_names_of_callee {j : Nat} {name : String} (h : s.callees[j]? = some name) :
    name ∈ s.names := by
  have hmem := List.mem_of_getElem? h
  simp only [callees, List.mem_cons] at hmem
  rcases hmem with rfl | hmem <;> simp [names, *]

theorem Call.callee_eq (c : s.Call) : s.callees[c.callee.val]? = some c.name :=
  List.getElem?_eq_getElem c.callee.isLt

/-! ## Every node is tame -/

theorem tame_loaderNode : s.loaderNode.Everywhere (Tame s.user) := by
  simp [loaderNode, Node.everywhere_mk, Node.InSlots, tame_iff, Node.fits, Kind.slotNames,
    Kind.holdsOneValue, Slot.isList, Kind.isOrdinary, Kind.isPattern, plainMember?, isGuardStub,
    isLoopCall, FoldSafe, StartsFromName]
  -- which slots hold lists is left
  decide

theorem tame_decoderNode : s.decoderNode.Everywhere (Tame s.user) := by
  have hlocal : ∀ name ∈ s.form.locals, name ≠ s.user := fun _ h => ne_user (mem_names_of_local h)
  rw [decoderNode, offsetNode]
  cases hform : s.form with
  | direct param table entry =>
      simp only [hform, DecoderForm.locals, List.forall_mem_cons] at hlocal
      simp [DecoderForm.declaration, Node.everywhere_mk, Node.InSlots, tame_iff, Node.fits,
        Kind.slotNames, Kind.holdsOneValue, Slot.isList, Kind.isOrdinary, Kind.isPattern,
        plainMember?, isGuardStub, FoldSafe, StartsFromName, hlocal]
      decide
  | selfRedefining param spare table index other entry =>
      simp only [hform, DecoderForm.locals, List.forall_mem_cons] at hlocal
      simp [DecoderForm.declaration, Node.everywhere_mk, Node.InSlots, tame_iff, Node.fits,
        Kind.slotNames, Kind.holdsOneValue, Slot.isList, Kind.isOrdinary, Kind.isPattern,
        plainMember?, isGuardStub, isLoopCall, FoldSafe, StartsFromName, hlocal]
      decide

theorem tame_argument : ∀ arg : s.Argument, arg.node.Everywhere (Tame s.user)
  | .call c => by
      rw [Argument.node, Node.everywhere_mk]
      refine ⟨⟨rfl, rfl, rfl, rfl, trivial⟩, tame_ident _ _, ?_, trivial⟩
      intro n hn
      cases List.mem_singleton.mp hn
      exact tame_ofInt s.user c.safe
  | .text entry => tame_lit _ _ _

theorem tame_statement {args : List s.Argument} {i : Nat} {m : Node} (h : Statement args i m) :
    m.Everywhere (Tame s.user) := by
  cases h with
  | loader => exact tame_loaderNode
  | decoder => exact tame_decoderNode
  | aliased hname htarget =>
      have hne := ne_user (mem_names_of_callee htarget)
      simp [Node.everywhere_mk, Node.InSlots, tame_iff, Node.fits, Kind.slotNames,
        Kind.holdsOneValue, Slot.isList, Kind.isOrdinary, Kind.isPattern, plainMember?,
        isGuardStub, FoldSafe, StartsFromName, hne]
      decide
  | use =>
      rw [useNode, Node.everywhere_mk]
      refine ⟨⟨rfl, rfl, rfl, rfl, trivial⟩, ?_, trivial⟩
      rw [Node.everywhere_mk]
      refine ⟨⟨rfl, rfl, rfl, rfl, trivial⟩, tame_ident _ _, ?_, trivial⟩
      intro n hn
      obtain ⟨arg, -, he⟩ := List.mem_map.mp hn
      cases he
      exact tame_argument arg

/-- **Every node of the script is tame.** -/
theorem everywhere_tame (args : List s.Argument) : (tree args).Everywhere (Tame s.user) := by
  intro p n hn
  rcases get?_tree.mp hn with ⟨-, rfl⟩ | ⟨i, q, m, -, hm, hn⟩
  · exact ⟨rfl, rfl, rfl, rfl, trivial⟩
  · exact tame_statement hm q n hn

end EncodedScript

end Descramble

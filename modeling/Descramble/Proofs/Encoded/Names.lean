import Descramble.Proofs.Encoded.Nodes
import Descramble.Proofs.Scope.Walk

/-!
# The names of a script with a string table

* `EncodedScript.declared` — the declarations of the script, in the order of the walk.
* `EncodedScript.declarations_tree` — these are all, whatever the arguments.
-/

set_option autoImplicit false

namespace Descramble

/-- The step to the third child. -/
abbrev third : Step := ⟨2, none⟩

namespace EncodedScript

variable {s : EncodedScript}

/-- The step to a parameter of a function, and to an argument of a call. -/
abbrev argument (i : Nat) : Step := ⟨1, some i⟩

/-! ## Declarations -/

/-- A function that a statement of the script declares. -/
def functionAt (i : Nat) (name : String) : Declaration :=
  ⟨⟨[], true⟩, ⟨[item i, first], name⟩, .hoisted, [item i]⟩

/-- A parameter of the function at a place. -/
def paramAt (place : Position) (i : Nat) (name : String) : Declaration :=
  ⟨⟨place, true⟩, ⟨place ++ [argument i], name⟩, .param, place⟩

/-- A variable of the function at a place, declared at another place. -/
def varAt (scope place : Position) (name : String) : Declaration :=
  ⟨⟨scope, true⟩, ⟨place ++ [first], name⟩, .var, place⟩

/-- The place of the function that a decoder replaces itself by. -/
def redefinition : Position := [item 1, third, item 1, first, item 0, second]

end EncodedScript

open EncodedScript in
/-- What a decoder declares. -/
def DecoderForm.declared (decoder : String) : DecoderForm → List Declaration
  | direct param table entry =>
    [functionAt 1 decoder, paramAt [item 1] 0 param,
      varAt [item 1] [item 1, third, item 0, item 0] table,
      varAt [item 1] [item 1, third, item 1, item 0] entry]
  | selfRedefining param spare table index other entry =>
    [functionAt 1 decoder, paramAt [item 1] 0 param, paramAt [item 1] 1 spare,
      varAt [item 1] [item 1, third, item 0, item 0] table,
      paramAt redefinition 0 index, paramAt redefinition 1 other,
      varAt redefinition (redefinition ++ [third, item 1, item 0]) entry]

namespace EncodedScript

/-- The place of an alias. -/
abbrev aliasPlace (j : Nat) : Position := [item (j + 2), item 0]

/-- What the script declares, in the order of the walk. -/
def declared (s : EncodedScript) : List Declaration :=
  [functionAt 0 s.loader, varAt [item 0] [item 0, third, item 0, item 0] s.array] ++
    (s.form.declared s.decoder ++ s.aliases.mapIdx fun j name => varAt [] (aliasPlace j) name)

variable {s : EncodedScript}

theorem declaredFrom_loaderNode (s : EncodedScript) (slots : List Slot) :
    declaredFrom (.mk (.program s.source) slots) [⟨[], true⟩] [item 0] s.loaderNode =
      [functionAt 0 s.loader, varAt [item 0] [item 0, third, item 0, item 0] s.array] := by
  have hentries : ∀ parent outer place, declaredInChildren parent outer place 0 0
      (s.entries.map fun entry => some (Node.lit (.text entry.text) entry.raw)) = [] := by
    intro parent outer place
    refine declaredInChildren_eq_nil _ fun c hc => ?_
    obtain ⟨entry, -, he⟩ := List.mem_map.mp hc
    cases he
    exact Node.everywhere_leaf.mpr fun _ _ => rfl
  simp [loaderNode, declaredFrom, declaredInSlots, declaredInChildren, enterScope, opensScope?,
    declarationsAt, declareIn, ownName, parameterNames, patternNames, functionScope?,
    Kind.isFunction, BindingKind.ofVariable, hentries, functionAt, varAt, first]

theorem declaredFrom_decoderNode (s : EncodedScript) (slots : List Slot) :
    declaredFrom (.mk (.program s.source) slots) [⟨[], true⟩] [item 1] s.decoderNode =
      s.form.declared s.decoder := by
  rw [decoderNode, offsetNode]
  cases s.form with
  | direct param table entry =>
      simp [DecoderForm.declaration, declaredFrom, declaredInSlots, declaredInChildren, enterScope,
        opensScope?, declarationsAt, declareIn, ownName, parameterNames, patternNames,
        functionScope?, Kind.isFunction, BindingKind.ofVariable, List.zipIdx_cons,
        DecoderForm.declared, functionAt, paramAt, varAt, first]
  | selfRedefining param spare table index other entry =>
      simp [DecoderForm.declaration, declaredFrom, declaredInSlots, declaredInChildren, enterScope,
        opensScope?, declarationsAt, declareIn, ownName, parameterNames, patternNames,
        functionScope?, Kind.isFunction, BindingKind.ofVariable, List.zipIdx_cons,
        DecoderForm.declared, redefinition, functionAt, paramAt, varAt, first, second]

theorem bindsNothing_ofInt {v : Int} (h : Number.isSafe v = true) :
    (Node.ofInt v).Everywhere Node.BindsNothing := by
  rcases ofInt_cases h with ⟨-, he⟩ | ⟨-, he⟩
  · rw [he]
    exact Node.everywhere_leaf.mpr fun _ _ => rfl
  · rw [he, Node.negated, Node.everywhere_mk]
    exact ⟨fun _ _ => rfl, Node.everywhere_leaf.mpr fun _ _ => rfl, trivial⟩

theorem bindsNothing_argument : ∀ arg : s.Argument, arg.node.Everywhere Node.BindsNothing
  | .call c => by
      rw [Argument.node, Node.everywhere_mk]
      refine ⟨fun _ _ => rfl, Node.everywhere_leaf.mpr fun _ _ => rfl, ?_, trivial⟩
      intro n hn
      cases List.mem_singleton.mp hn
      exact bindsNothing_ofInt c.safe
  | .text entry => Node.everywhere_leaf.mpr fun _ _ => rfl

theorem bindsNothing_useNode (args : List s.Argument) :
    (useNode args).Everywhere Node.BindsNothing := by
  rw [useNode, Node.everywhere_mk]
  refine ⟨fun _ _ => rfl, ?_, trivial⟩
  rw [Node.everywhere_mk]
  refine ⟨fun _ _ => rfl, Node.everywhere_leaf.mpr fun _ _ => rfl, ?_, trivial⟩
  intro n hn
  obtain ⟨arg, -, he⟩ := List.mem_map.mp hn
  cases he
  exact bindsNothing_argument arg

theorem declaredInChildren_aliasNodes (source : String) (slots : List Slot) {last : Node}
    (hlast : last.Everywhere Node.BindsNothing) : ∀ (names targets : List String) (i : Nat),
      names.length ≤ targets.length →
        declaredInChildren (.mk (.program source) slots) [⟨[], true⟩] [] 0 i
            ((List.zipWith (fun name target => Node.varOf name (.ident target)) names targets ++
              [last]).map some) =
          names.mapIdx fun j name => varAt [] [item (i + j), item 0] name
  | [], _, _, _ => by
      simp only [List.zipWith_nil_left, List.nil_append, List.map_cons, List.map_nil,
        declaredInChildren, declaredFrom_eq_nil last hlast, List.mapIdx_nil]
  | name :: names, target :: targets, i, h => by
      have hrest := declaredInChildren_aliasNodes source slots hlast names targets (i + 1)
        (Nat.le_of_succ_le_succ h)
      simp only [List.zipWith_cons_cons, List.cons_append, List.map_cons, declaredInChildren,
        List.mapIdx_cons, hrest, Nat.add_assoc, Nat.add_comm 1]
      rfl
  | name :: names, [], _, h => by cases h

/-- **The declarations of the script**, whatever its arguments are. -/
theorem declarations_tree (args : List s.Argument) : declarations (tree args) = s.declared := by
  have haliases := declaredInChildren_aliasNodes s.source (tree args).slots
    (bindsNothing_useNode args) s.aliases s.callees 2 (Nat.le_succ _)
  simp only [Nat.add_comm 2] at haliases
  rw [declarations_eq_walk]
  show declaredInChildren (tree args) [⟨[], true⟩] [] 0 0 _ ++ [] = _
  rw [List.append_nil, prelude, List.cons_append, List.cons_append, List.map_cons, List.map_cons,
    declaredInChildren, declaredInChildren, aliasNodes]
  have hloader := declaredFrom_loaderNode s (tree args).slots
  have hdecoder := declaredFrom_decoderNode s (tree args).slots
  exact congr (congrArg HAppend.hAppend hloader) (congr (congrArg HAppend.hAppend hdecoder) haliases)

/-! ## Mentions -/

/-- The identifier at a site. -/
def identifier? (site : Site) : Option Name :=
  match site.node.kind with
  | .identifier name => some ⟨site.place, name⟩
  | _ => none

/-- The identifiers of a tree, in the order of the walk. -/
def identifiers (n : Node) : List Name := n.sites.filterMap identifier?

theorem mem_identifiers {n : Node} {q : Position} {name : String} :
    ⟨q, name⟩ ∈ identifiers n ↔ ∃ slots, n.get? q = some (.mk (.identifier name) slots) := by
  rw [identifiers, List.mem_filterMap]
  constructor
  · rintro ⟨⟨place, k, slots⟩, hsite, he⟩
    have hget := Node.mem_sites_iff.mp hsite
    cases k <;> simp only [identifier?, Node.kind_mk, Option.some.injEq, Name.mk.injEq,
      reduceCtorEq] at he
    obtain ⟨rfl, rfl⟩ := he
    exact ⟨slots, hget⟩
  · rintro ⟨slots, hget⟩
    exact ⟨⟨q, .mk (.identifier name) slots⟩, Node.mem_sites_iff.mpr hget, rfl⟩

/-- The names that the loader mentions, with their places in it. -/
def loaderMentions (s : EncodedScript) : List Name :=
  [⟨[third, item 1, first, first], s.loader⟩,
    ⟨[third, item 1, first, second, third, item 0, first], s.array⟩,
    ⟨[third, item 2, first, first], s.loader⟩]

end EncodedScript

open EncodedScript in
/-- The names that a decoder mentions, with their places in it. -/
def DecoderForm.mentions (loader decoder : String) : DecoderForm → List Name
  | direct param table entry =>
    [⟨[third, item 0, item 0, second, first], loader⟩,
      ⟨[third, item 1, item 0, second, first], table⟩,
      ⟨[third, item 1, item 0, second, second, first], param⟩,
      ⟨[third, item 2, first], entry⟩]
  | selfRedefining param spare table index _ entry =>
    [⟨[third, item 0, item 0, second, first], loader⟩,
      ⟨[third, item 1, first, item 0, first], decoder⟩,
      ⟨[third, item 1, first, item 0, second, third, item 0, first, first], index⟩,
      ⟨[third, item 1, first, item 0, second, third, item 0, first, second, first], index⟩,
      ⟨[third, item 1, first, item 0, second, third, item 1, item 0, second, first], table⟩,
      ⟨[third, item 1, first, item 0, second, third, item 1, item 0, second, second], index⟩,
      ⟨[third, item 1, first, item 0, second, third, item 2, first], entry⟩,
      ⟨[third, item 1, first, item 1, first], decoder⟩,
      ⟨[third, item 1, first, item 1, argument 0], param⟩,
      ⟨[third, item 1, first, item 1, argument 1], spare⟩]

namespace EncodedScript

variable {s : EncodedScript}

/-- An identifier of the loader declares, or it is a mention. -/
theorem identifiers_loaderNode : ∀ x ∈ identifiers s.loaderNode,
    (∃ d ∈ s.declared, d.name.place = item 0 :: x.place) ∨ x ∈ s.loaderMentions := by
  have hentries : ∀ place, (Node.childSites place 0 0 (s.entries.map fun entry =>
      some (Node.lit (.text entry.text) entry.raw))).filterMap identifier? = [] := by
    intro place
    refine List.filterMap_eq_nil_iff.mpr fun site hsite => ?_
    obtain ⟨value, raw, hnode⟩ := lit_of_mem_entrySites hsite
    rw [identifier?, hnode]
    rfl
  have hall : identifiers s.loaderNode = ⟨[first], s.loader⟩ ::
      ⟨[third, item 0, item 0, first], s.array⟩ :: s.loaderMentions := by
    simp only [identifiers, Node.sites, loaderNode, Node.sitesAt, Node.slotSites, Node.childSites,
      List.map_cons, List.map_nil, List.filterMap_cons, List.filterMap_append, List.filterMap_nil,
      hentries]
    rfl
  rw [hall]
  refine List.forall_mem_cons.mpr ⟨Or.inl ⟨functionAt 0 s.loader, ?_, rfl⟩, ?_⟩
  · simp [declared]
  · refine List.forall_mem_cons.mpr ⟨Or.inl 
      ⟨varAt [item 0] [item 0, third, item 0, item 0] s.array, ?_, rfl⟩, ?_⟩
    · simp [declared]
    · exact fun x hx => Or.inr hx

/-- An identifier of the decoder declares, or it is a mention. -/
theorem identifiers_decoderNode : ∀ x ∈ identifiers s.decoderNode,
    (∃ d ∈ s.form.declared s.decoder, d.name.place = item 1 :: x.place) ∨
      x ∈ s.form.mentions s.loader s.decoder := by
  rw [decoderNode, offsetNode]
  cases s.form with
  | direct param table entry =>
      simp [identifiers, Node.sites, DecoderForm.declaration, Node.sitesAt, Node.slotSites,
        Node.childSites, identifier?, DecoderForm.declared, DecoderForm.mentions, functionAt,
        paramAt, varAt, first, second, or_imp, forall_and]
  | selfRedefining param spare table index other entry =>
      simp [identifiers, Node.sites, DecoderForm.declaration, Node.sitesAt, Node.slotSites,
        Node.childSites, identifier?, DecoderForm.declared, DecoderForm.mentions, redefinition,
        functionAt, paramAt, varAt, first, second, or_imp, forall_and]

theorem get?_loaderMentions : ∀ x ∈ s.loaderMentions, s.loaderNode.get? x.place = some (.ident x.name) := by
  simp only [loaderMentions, List.forall_mem_cons, List.not_mem_nil, false_implies, implies_true,
    and_true]
  exact ⟨rfl, rfl, rfl⟩

theorem get?_decoderMentions : ∀ x ∈ s.form.mentions s.loader s.decoder,
    s.decoderNode.get? x.place = some (.ident x.name) := by
  rw [decoderNode]
  cases s.form with
  | direct param table entry =>
      simp only [DecoderForm.mentions, List.forall_mem_cons, List.not_mem_nil, false_implies,
        implies_true, and_true]
      exact ⟨rfl, rfl, rfl, rfl⟩
  | selfRedefining param spare table index other entry =>
      simp only [DecoderForm.mentions, List.forall_mem_cons, List.not_mem_nil, false_implies,
        implies_true, and_true]
      exact ⟨rfl, rfl, rfl, rfl, rfl, rfl, rfl, rfl, rfl, rfl⟩

/-- The place of an argument. -/
abbrev argumentPlace (s : EncodedScript) (i : Nat) : Position :=
  [item (s.aliases.length + 2), first, argument i]

/-- The identifiers of the script that do not declare. -/
inductive Mentions (args : List s.Argument) : Position → String → Prop
  | loader {q : Position} {name : String} (h : ⟨q, name⟩ ∈ s.loaderMentions) :
      Mentions args (item 0 :: q) name
  | decoder {q : Position} {name : String} (h : ⟨q, name⟩ ∈ s.form.mentions s.loader s.decoder) :
      Mentions args (item 1 :: q) name
  | aliased {j : Nat} {target : String} (hj : j < s.aliases.length)
      (htarget : s.callees[j]? = some target) : Mentions args (aliasPlace j ++ [second]) target
  | user : Mentions args [item (s.aliases.length + 2), first, first] s.user
  | callee {i : Nat} {c : s.Call} (hc : args[i]? = some (.call c)) :
      Mentions args (s.argumentPlace i ++ [first]) c.name

theorem mentions_of_argument {args : List s.Argument} {i : Nat} {arg : s.Argument} {q : Position}
    {name : String} {slots : List Slot} (harg : args[i]? = some arg)
    (h : arg.node.get? q = some (.mk (.identifier name) slots)) :
    Mentions args (s.argumentPlace i ++ q) name := by
  cases arg with
  | text entry => cases (Node.get?_leaf.mp h).2
  | call c =>
      rcases get?_call h with ⟨-, he⟩ | ⟨rfl, he⟩ | ⟨r, -, hr⟩
      · cases he
      · cases he
        exact .callee harg
      · rcases (isWritten_ofInt c.safe).isNameless r _ hr with ⟨_, _, _, hk⟩ | ⟨_, _, hk⟩ <;> cases hk

theorem mem_declared {d : Declaration} :
    d ∈ s.declared ↔ d = functionAt 0 s.loader ∨
      d = varAt [item 0] [item 0, third, item 0, item 0] s.array ∨
      d ∈ s.form.declared s.decoder ∨
      ∃ j name, s.aliases[j]? = some name ∧ d = varAt [] (aliasPlace j) name := by
  simp only [declared, List.mem_append, List.mem_cons, List.not_mem_nil, or_false, or_assoc,
    List.mem_mapIdx]
  constructor
  · rintro (h | h | h | ⟨j, hj, rfl⟩)
    · exact Or.inl h
    · exact Or.inr (Or.inl h)
    · exact Or.inr (Or.inr (Or.inl h))
    · exact Or.inr (Or.inr (Or.inr ⟨j, _, List.getElem?_eq_getElem hj, rfl⟩))
  · rintro (h | h | h | ⟨j, name, hj, rfl⟩)
    · exact Or.inl h
    · exact Or.inr (Or.inl h)
    · exact Or.inr (Or.inr (Or.inl h))
    · obtain ⟨hlt, rfl⟩ := List.getElem?_eq_some_iff.mp hj
      exact Or.inr (Or.inr (Or.inr ⟨j, hlt, rfl⟩))

theorem mem_declared_alias {j : Nat} {name : String} (h : s.aliases[j]? = some name) :
    varAt [] (aliasPlace j) name ∈ s.declared :=
  mem_declared.mpr (Or.inr (Or.inr (Or.inr ⟨j, name, h, rfl⟩)))

/-- What a decoder declares stands in it, and not where it mentions a name. -/
theorem declared_decoder : ∀ d ∈ s.form.declared s.decoder,
    (∃ q, d.name.place = item 1 :: q) ∧
      ∀ x ∈ s.form.mentions s.loader s.decoder, d.name.place ≠ item 1 :: x.place := by
  cases s.form with
  | direct param table entry =>
      simp [DecoderForm.declared, DecoderForm.mentions, functionAt, paramAt, varAt, first, second]
  | selfRedefining param spare table index other entry =>
      simp [DecoderForm.declared, DecoderForm.mentions, redefinition, functionAt, paramAt, varAt,
        first, second]

theorem Mentions.not_declaring {args : List s.Argument} {p : Position} {name : String}
    (h : Mentions args p name) : ∀ d ∈ s.declared, d.name.place ≠ p := by
  have hloader : ∀ x ∈ s.loaderMentions, [item 0, first] ≠ item 0 :: x.place ∧
      [item 0, third, item 0, item 0, first] ≠ item 0 :: x.place := by
    simp [loaderMentions, first, second]
  intro d hd
  rcases mem_declared.mp hd with rfl | rfl | hd | ⟨j, word, -, rfl⟩
  · cases h with
    | loader h => exact (hloader _ h).1
    | _ => simp [functionAt]
  · cases h with
    | loader h => exact (hloader _ h).2
    | _ => simp [varAt]
  · obtain ⟨⟨q, hq⟩, hmentions⟩ := declared_decoder d hd
    cases h with
    | decoder h => exact hmentions _ h
    | _ => simp [hq]
  · cases h with
    | _ => simp [varAt, first, second]

theorem get?_argument {args : List s.Argument} {i : Nat} {arg : s.Argument}
    (h : args[i]? = some arg) (q : Position) :
    (tree args).get? (s.argumentPlace i ++ q) = arg.node.get? q := by
  refine (get?_tree_cons .use ([first, argument i] ++ q)).trans (Option.ext fun n => ?_)
  rw [useNode, List.cons_append, Node.get?_unary1, List.cons_append, List.nil_append,
    Node.get?_callOf]
  simp [h, first]

theorem Mentions.get {args : List s.Argument} {p : Position} {name : String}
    (h : Mentions args p name) : (tree args).get? p = some (.ident name) := by
  cases h with
  | loader h => rw [get?_tree_cons .loader, get?_loaderMentions _ h]
  | decoder h => rw [get?_tree_cons .decoder, get?_decoderMentions _ h]
  | @aliased j _ hj htarget =>
      exact get?_tree_cons (.aliased (List.getElem?_eq_getElem hj) htarget) [item 0, second]
  | user => exact get?_tree_cons .use [first, first]
  | callee hc => exact get?_argument hc [first]

theorem mentions_of_occurs {args : List s.Argument} {p : Position} {name : String}
    (h : Occurs (tree args) p name) : Mentions args p name := by
  obtain ⟨slots, hget⟩ := h.get
  rcases get?_tree.mp hget with ⟨-, he⟩ | ⟨i, q, m, rfl, hm, hq⟩
  · cases he
  · have hnot : ∀ d ∈ s.declared, d.name.place ≠ item i :: q := by
      rw [← declarations_tree args]
      exact h.not_declaring
    cases hm with
    | loader =>
        rcases identifiers_loaderNode _ (mem_identifiers.mpr ⟨slots, hq⟩) with ⟨d, hd, he⟩ | h
        · exact absurd he (hnot d hd)
        · exact .loader h
    | decoder =>
        rcases identifiers_decoderNode _ (mem_identifiers.mpr ⟨slots, hq⟩) with ⟨d, hd, he⟩ | h
        · exact absurd he (hnot d (by simp [declared, hd]))
        · exact .decoder h
    | @aliased j word target hname htarget =>
        have hall : ⟨q, name⟩ ∈ [⟨[item 0, first], word⟩, (⟨[item 0, second], target⟩ : Name)] :=
          mem_identifiers.mpr ⟨slots, hq⟩
        simp only [List.mem_cons, List.not_mem_nil, or_false, Name.mk.injEq] at hall
        rcases hall with ⟨rfl, rfl⟩ | ⟨rfl, rfl⟩
        · exact absurd rfl (hnot _ (mem_declared_alias hname))
        · exact .aliased (List.getElem?_eq_some_iff.mp hname).1 htarget
    | use =>
        rcases get?_useNode hq with ⟨-, he⟩ | ⟨-, he⟩ | ⟨rfl, he⟩ | ⟨i, arg, r, rfl, harg, hr⟩
        · cases he
        · cases he
        · cases he
          exact .user
        · exact mentions_of_argument harg hr

theorem ordinary_tree (args : List s.Argument) : (tree args).Ordinary :=
  fun p n hn => (everywhere_tame args p n hn).ordinary

/-- **The occurrences of the script** are its mentions. -/
theorem occurs_iff {args : List s.Argument} {p : Position} {name : String} :
    Occurs (tree args) p name ↔ Mentions args p name := by
  refine ⟨mentions_of_occurs, fun h => (ordinary_tree args).occurs_iff.mpr ⟨⟨[], h.get⟩, ?_⟩⟩
  rw [declarations_tree]
  exact h.not_declaring

/-! ## What names refer to -/

theorem map_name_declared : s.declared.map (fun d => d.name.name) = s.names := by
  have haliases : (s.aliases.mapIdx fun j name => varAt [] (aliasPlace j) name).map
      (fun d => d.name.name) = s.aliases := by
    refine List.ext_getElem? fun i => ?_
    simp [varAt, Function.comp_def]
  rw [declared, List.map_append, List.map_append, haliases]
  cases hform : s.form <;> simp [names, hform, DecoderForm.locals, DecoderForm.declared, functionAt, varAt, paramAt]

theorem declaredOnce_tree (args : List s.Argument) : DeclaredOnce (tree args) := by
  rw [DeclaredOnce, declarations_tree, map_name_declared]
  exact names_nodup

/-- The names that the statements in front declare: the loader, the decoder and its aliases. -/
def heads (s : EncodedScript) : List String := s.loader :: s.callees

/-- The declaration by which a statement in front gives its name. -/
def headAt : Nat → String → Declaration
  | 0, name => functionAt 0 name
  | 1, name => functionAt 1 name
  | j + 2, name => varAt [] (aliasPlace j) name

theorem name_headAt (i : Nat) (name : String) : (headAt i name).name.name = name := by
  match i with
  | 0 => rfl
  | 1 => rfl
  | _ + 2 => rfl

theorem scope_headAt (i : Nat) (name : String) : (headAt i name).scope = ⟨[], true⟩ := by
  match i with
  | 0 => rfl
  | 1 => rfl
  | _ + 2 => rfl

theorem headAt_mem {i : Nat} {name : String} (h : s.heads[i]? = some name) :
    headAt i name ∈ s.declared := by
  match i with
  | 0 =>
      cases h
      exact mem_declared.mpr (Or.inl rfl)
  | 1 =>
      cases h
      refine mem_declared.mpr (Or.inr (Or.inr (Or.inl ?_)))
      cases s.form <;> exact List.mem_cons_self
  | j + 2 => exact mem_declared_alias h

theorem declared_of_callee {j : Nat} {name : String} (h : s.callees[j]? = some name) (p : Position) :
    ∃ d ∈ s.declared, d.name.name = name ∧ d.scope.place <+: p := by
  refine ⟨headAt (j + 1) name, headAt_mem h, name_headAt _ _, ?_⟩
  rw [scope_headAt]
  exact List.nil_prefix

/-- A name that the decoder mentions is the loader's, or the decoder declares it around the mention. -/
theorem decoderMentions_declared : ∀ x ∈ s.form.mentions s.loader s.decoder, x.name = s.loader ∨
    ∃ d ∈ s.form.declared s.decoder, d.name.name = x.name ∧ d.scope.place <+: item 1 :: x.place := by
  cases s.form with
  | direct param table entry =>
      simp [DecoderForm.declared, DecoderForm.mentions, functionAt, paramAt, varAt, first, second]
  | selfRedefining param spare table index other entry =>
      simp [DecoderForm.declared, DecoderForm.mentions, redefinition, functionAt, paramAt, varAt,
        first, second]

/-- **Every mention but that of the function that is used** stands below the scope of a declaration of
its name. -/
theorem Mentions.declared {args : List s.Argument} {p : Position} {name : String}
    (h : Mentions args p name) : name = s.user ∨
      ∃ d ∈ s.declared, d.name.name = name ∧ d.scope.place <+: p := by
  have hloader : ∀ p, ∃ d ∈ s.declared, d.name.name = s.loader ∧ d.scope.place <+: p :=
    fun p => ⟨functionAt 0 s.loader, mem_declared.mpr (Or.inl rfl), rfl, List.nil_prefix⟩
  cases h with
  | loader h =>
      right
      simp only [loaderMentions, List.mem_cons, List.not_mem_nil, or_false, Name.mk.injEq] at h
      rcases h with ⟨-, rfl⟩ | ⟨-, rfl⟩ | ⟨-, rfl⟩
      · exact hloader _
      · exact ⟨_, mem_declared.mpr (Or.inr (Or.inl rfl)), rfl, by simp [varAt]⟩
      · exact hloader _
  | decoder h =>
      right
      rcases decoderMentions_declared _ h with rfl | ⟨d, hd, hname, hscope⟩
      · exact hloader _
      · exact ⟨d, mem_declared.mpr (Or.inr (Or.inr (Or.inl hd))), hname, hscope⟩
  | aliased hj htarget => exact Or.inr (declared_of_callee htarget _)
  | user => exact Or.inl rfl
  | callee hc => exact Or.inr (declared_of_callee (Call.callee_eq _) _)

end EncodedScript

end Descramble

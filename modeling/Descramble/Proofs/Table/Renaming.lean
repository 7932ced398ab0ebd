import Mathlib.Data.List.Basic
import Mathlib.Logic.Equiv.Basic
import Descramble.Proofs.Evaluation.Computes
import Descramble.Proofs.Tree.Renaming
import Descramble.Table.Shape

/-!
# Recognition up to names

The shapes of a loader and of a decoder compare names with each other, and never with a word of their
own.  So a tree and the tree with other names for its identifiers have the same loader and the same
decoder.

* `functionParts?_renamed`, `firstDeclarator?_renamed`, … — the parts of a renamed function are the
  renamed parts.
* `loader?_renamed`, `offset?_renamed`, `decoder?_renamed` — one function.
* `recognition_renamed` — the search through a tree.
-/

set_option autoImplicit false

namespace Descramble

variable {r : String → String}

/-- The children of a list slot, renamed. -/
abbrev renamedChildren (r : String → String) : List (Option Node) → List (Option Node) :=
  List.map (Option.map (Node.renamed r))

/-- The loader under its new name. -/
def Loader.renamed (r : String → String) (loader : Loader) : Loader :=
  { loader with name := r loader.name }

/-- The decoder under its new name. -/
def Decoder.renamed (r : String → String) (decoder : Decoder) : Decoder :=
  { decoder with name := r decoder.name }

/-- The table and its parameters under their new names. -/
def Lookup.renamed (r : String → String) (lookup : Lookup) : Lookup :=
  ⟨r lookup.table, lookup.params.map r⟩

/-! ## Parts of functions -/

theorem head?_join_renamed (children : List (Option Node)) :
    (renamedChildren r children).head?.join = children.head?.join.map (Node.renamed r) := by
  cases children <;> rfl

theorem getLast?_join_renamed (children : List (Option Node)) :
    (renamedChildren r children).getLast?.join = children.getLast?.join.map (Node.renamed r) := by
  rw [renamedChildren, List.getLast?_map]
  cases children.getLast? <;> rfl

theorem functionParts?_renamed (n : Node) :
    functionParts? (n.renamed r) = (functionParts? n).map fun (name, params, body) =>
      (r name, renamedChildren r params, body.renamed r) := by
  generalize hm : n.renamed r = m
  unfold functionParts?
  split
  · simp [Kind.renamed_eq_iff, List.map_eq_cons_iff] at hm
    obtain ⟨body, params, slots, name, rfl, ⟨rfl, -⟩, rfl, rfl⟩ := hm
    rfl
  · -- what is none with its new names is none
    rename_i hno
    split
    · exact (hno _ _ _ _ _ hm.symm).elim
    · rfl

theorem blockStatements?_renamed (n : Node) :
    blockStatements? (n.renamed r) = (blockStatements? n).map (renamedChildren r) := by
  generalize hm : n.renamed r = m
  unfold blockStatements?
  split
  · simp [Kind.renamed_eq_iff] at hm
    obtain ⟨statements, rfl, rfl⟩ := hm
    rfl
  · rename_i hno
    split
    · exact (hno _ hm.symm).elim
    · rfl

theorem firstDeclarator?_renamed (statement : Option Node) :
    firstDeclarator? (statement.map (Node.renamed r)) = (firstDeclarator? statement).map
      fun (target, init) => (target.renamed r, init.map (Node.renamed r)) := by
  generalize hm : statement.map (Node.renamed r) = m
  unfold firstDeclarator?
  split
  · simp [Kind.renamed_eq_iff, List.map_eq_cons_iff] at hm
    obtain ⟨rest, init, target, rfl, ⟨rfl, rfl⟩, rfl⟩ := hm
    rfl
  · rename_i hno
    split
    · simp [Kind.renamed] at hm
      exact (hno _ _ _ _ hm.symm).elim
    · rfl

theorem selfRedefinition?_renamed (hr : Function.Injective r) (name : String) (n : Option Node) :
    selfRedefinition? (r name) (n.map (Node.renamed r)) =
      (selfRedefinition? name n).map (Node.renamed r) := by
  generalize hm : n.map (Node.renamed r) = m
  unfold selfRedefinition?
  split
  · simp [Kind.renamed_eq_iff, List.map_eq_cons_iff] at hm
    obtain ⟨slots, target, rfl, rfl, rfl⟩ := hm
    simp only [show some (r name) = (some name).map r from rfl, Node.isIdentifier_renamed hr]
    split <;> simp [Kind.renamed]
  · rename_i hno
    split
    · simp [Kind.renamed] at hm
      exact (hno _ _ _ hm.symm).elim
    · rfl

theorem literalTexts?_renamed (elements : List (Option Node)) :
    literalTexts? (renamedChildren r elements) = literalTexts? elements := by
  induction elements with
  | nil => rfl
  | cons element rest ih =>
      cases element with
      | none => rfl
      | some n =>
          obtain ⟨k, slots⟩ := n
          cases k with
          | literal value raw regex =>
              cases value with
              | text s => simp [literalTexts?, Kind.renamed, ih]
              | _ => simp [literalTexts?, Kind.renamed]
          | _ => simp [literalTexts?, Kind.renamed]

theorem isReturn_renamed (statement : Option Node) :
    isReturn (statement.map (Node.renamed r)) = isReturn statement := by
  cases statement with
  | none => rfl
  | some n =>
      obtain ⟨k, slots⟩ := n
      cases k <;> simp [isReturn, Kind.renamed]

theorem statementExpression?_renamed (statement : Option Node) :
    statementExpression? (statement.map (Node.renamed r)) =
      (statementExpression? statement).map (Node.renamed r) := by
  generalize hm : statement.map (Node.renamed r) = m
  unfold statementExpression?
  split
  · simp [Kind.renamed_eq_iff] at hm
    obtain ⟨expression, rfl, rfl⟩ := hm
    rfl
  · rename_i hno
    split
    · simp [Kind.renamed] at hm
      exact (hno _ _ hm.symm).elim
    · rfl

/-! ## The loader -/

/-- **A renamed function is a loader** just when the function is one, and has its table. -/
theorem loader?_renamed (hr : Function.Injective r) (function : Node) :
    loader? (function.renamed r) = (loader? function).map (Loader.renamed r) := by
  simp only [loader?, functionParts?_renamed]
  cases functionParts? function with
  | none => rfl
  | some parts =>
      obtain ⟨name, params, body⟩ := parts
      simp only [Option.map_some, Option.bind_eq_bind, Option.bind_some, blockStatements?_renamed]
      cases blockStatements? body with
      | none => rfl
      | some statements =>
          simp only [Option.map_some, Option.bind_some]
          rcases statements with _ | ⟨a, _ | ⟨b, _ | ⟨c, _ | ⟨d, rest⟩⟩⟩⟩
          · rfl
          · rfl
          · rfl
          · simp only [List.map_cons, List.map_nil, firstDeclarator?_renamed, isReturn_renamed,
              statementExpression?_renamed, selfRedefinition?_renamed hr]
            cases firstDeclarator? a with
            | none => rfl
            | some declarator =>
                obtain ⟨target, init⟩ := declarator
                cases init with
                | none => rfl
                | some value =>
                    simp only [Option.map_some, Option.bind_some]
                    generalize hm : value.renamed r = m
                    split
                    · simp [Kind.renamed_eq_iff] at hm
                      obtain ⟨elements, rfl, rfl⟩ := hm
                      simp only [literalTexts?_renamed]
                      cases literalTexts? elements with
                      | none => rfl
                      | some table =>
                        cases selfRedefinition? name (statementExpression? b) with
                        | none => rfl
                        | some redefined => cases isReturn c <;> rfl
                    · rename_i hno
                      split
                      · exact (hno _ hm.symm).elim
                      · rfl
          · rfl

/-! ## The offset -/

theorem subtracted?_renamed {accepts accepts' : Node → Bool}
    (h : ∀ n : Node, accepts' (n.renamed r) = accepts n) (n : Node) :
    subtracted? accepts' (n.renamed r) = subtracted? accepts n := by
  generalize hm : n.renamed r = m
  unfold subtracted?
  split
  · simp [Kind.renamed_eq_iff, List.map_eq_cons_iff] at hm
    obtain ⟨right, left, rfl, rfl, rfl⟩ := hm
    simp only [h, Node.integerLiteral?_renamed]
  · rename_i hno
    split
    · exact (hno _ _ hm.symm).elim
    · rfl

theorem isOneOf_renamed (hr : Function.Injective r) (names : List String) (n : Node) :
    isOneOf (names.map r) (n.renamed r) = isOneOf names n := by
  obtain ⟨k, slots⟩ := n
  cases k with
  | identifier name =>
      simp [isOneOf, Kind.renamed, Node.kind, hr.eq_iff]
  | _ => simp [isOneOf, Kind.renamed, Node.kind]

theorem offsetAt?_renamed (hr : Function.Injective r) (lookup : Option Lookup) (n : Node) :
    offsetAt? (lookup.map (Lookup.renamed r)) (n.renamed r) = offsetAt? lookup n := by
  generalize hm : n.renamed r = m
  unfold offsetAt?
  split
  · simp [Kind.renamed_eq_iff, List.map_eq_cons_iff] at hm
    obtain ⟨value, slots, name, rfl, ⟨rfl, -⟩, rfl⟩ := hm
    exact subtracted?_renamed (fun m => Node.isIdentifier_renamed hr m (some name)) value
  · simp [Kind.renamed_eq_iff, List.map_eq_cons_iff] at hm
    obtain ⟨index, object, rfl, rfl, rfl⟩ := hm
    cases lookup with
    | none => rfl
    | some l =>
        have htable : (object.renamed r).isIdentifier (some (r l.table)) =
            object.isIdentifier (some l.table) := Node.isIdentifier_renamed hr object (some l.table)
        have hindex : subtracted? (isOneOf (l.params.map r)) (index.renamed r) =
            subtracted? (isOneOf l.params) index :=
          subtracted?_renamed (isOneOf_renamed hr l.params) index
        simp only [Option.map_some, Lookup.renamed, htable, hindex]
  · rename_i hassignment hmember
    split
    · exact (hassignment _ _ _ hm.symm).elim
    · exact (hmember _ _ hm.symm).elim
    · rfl

theorem firstResult?_map {α β γ δ : Type} {f : α → Except Fault (Option β)}
    {f' : γ → Except Fault (Option δ)} {g : α → γ} {h : β → δ}
    (hf : ∀ a, f' (g a) = (f a).map (Option.map h)) (as : List α) :
    firstResult? f' (as.map g) = (firstResult? f as).map (Option.map h) := by
  induction as with
  | nil => rfl
  | cons a as ih =>
      rw [List.map_cons, firstResult?, firstResult?, hf, ih]
      cases f a with
      | error fault => rfl
      | ok result => cases result <;> rfl

/-- Offsets are numbers, so they stay. -/
theorem offset?_renamed (hr : Function.Injective r) (lookup : Option Lookup) (n : Node) :
    offset? (lookup.map (Lookup.renamed r)) (n.renamed r) = offset? lookup n := by
  rw [offset?, offset?, Node.sites_renamed]
  induction n.sites with
  | nil => rfl
  | cons site sites ih =>
      rw [List.map_cons, firstResult?, firstResult?, ih, Site.renamed, offsetAt?_renamed hr]

/-! ## The decoder -/

theorem plainParameters_renamed (params : List (Option Node)) :
    plainParameters (renamedChildren r params) = (plainParameters params).map r := by
  unfold plainParameters
  rw [List.filterMap_map, List.map_filterMap]
  refine List.filterMap_congr fun param hparam => ?_
  cases param with
  | none => rfl
  | some n =>
      obtain ⟨k, slots⟩ := n
      cases k <;> simp [Kind.renamed]

theorem returnedFirst?_renamed (statement : Option Node) :
    returnedFirst? (statement.map (Node.renamed r)) =
      (returnedFirst? statement).map (Node.renamed r) := by
  generalize hm : statement.map (Node.renamed r) = m
  unfold returnedFirst?
  split
  · simp [Kind.renamed_eq_iff, List.map_eq_cons_iff] at hm
    obtain ⟨expression, rest, rfl, rfl, rfl⟩ := hm
    rfl
  · rename_i hno
    split
    · simp [Kind.renamed] at hm
      exact (hno _ _ hm.symm).elim
    · rfl

theorem redefinedDecoder?_renamed (hr : Function.Injective r) (name : String)
    (statements : List (Option Node)) :
    redefinedDecoder? (r name) (renamedChildren r statements) =
      (redefinedDecoder? name statements).map (Node.renamed r) := by
  rcases statements with _ | ⟨a, _ | ⟨b, _ | ⟨c, rest⟩⟩⟩
  · rfl
  · rfl
  · simp only [redefinedDecoder?, List.map_cons, List.map_nil, returnedFirst?_renamed,
      selfRedefinition?_renamed hr]
  · rfl

theorem callsLoader_renamed (hr : Function.Injective r) (loader : Option String) (init : Option Node) :
    callsLoader (loader.map r) (init.map (Node.renamed r)) = callsLoader loader init := by
  generalize hm : init.map (Node.renamed r) = m
  unfold callsLoader
  split
  · simp [Kind.renamed_eq_iff, List.map_eq_cons_iff] at hm
    obtain ⟨rest, callee, rfl, rfl, rfl⟩ := hm
    exact Node.isIdentifier_renamed hr callee loader
  · rename_i hno
    split
    · simp [Kind.renamed] at hm
      exact (hno _ _ hm.symm).elim
    · rfl

/-- **A renamed function is a decoder** just when the function is one, and has its offset. -/
theorem decoder?_renamed (hr : Function.Injective r) (loader : Option String) (function : Node) :
    decoder? (loader.map r) (function.renamed r) =
      (decoder? loader function).map (Option.map (Decoder.renamed r)) := by
  simp only [decoder?, functionParts?_renamed]
  cases functionParts? function with
  | none => rfl
  | some parts =>
      obtain ⟨name, params, body⟩ := parts
      simp only [Option.map_some, blockStatements?_renamed]
      cases blockStatements? body with
      | none => rfl
      | some statements =>
          have hloader : (loader.map r = some (r name)) ↔ loader = some name :=
            (Option.map_injective hr).eq_iff (b := some name)
          simp only [Option.map_some, head?_join_renamed, getLast?_join_renamed,
            firstDeclarator?_renamed, isReturn_renamed, hloader]
          cases firstDeclarator? statements.head?.join with
          | none => rfl
          | some declarator =>
              obtain ⟨target, init⟩ := declarator
              simp only [Option.map_some, callsLoader_renamed hr, redefinedDecoder?_renamed hr,
                plainParameters_renamed, Node.kind_renamed]
              split
              · rfl
              · cases redefinedDecoder? name statements with
                | some inner =>
                    have hinner : offset? none (inner.renamed r) = offset? none inner :=
                      offset?_renamed hr none inner
                    simp only [Option.map_some, hinner]
                    cases offset? none inner with
                    | error fault => rfl
                    | ok offset => cases offset <;> rfl
                | none =>
                    simp only [Option.map_none]
                    cases target.kind with
                    | identifier table =>
                        have hbody := offset?_renamed hr (some ⟨table, plainParameters params⟩) body
                        simp only [Option.map_some, Lookup.renamed] at hbody
                        simp only [Kind.renamed, hbody]
                        cases offset? (some ⟨table, plainParameters params⟩) body with
                        | error fault => rfl
                        | ok offset => cases offset <;> rfl
                    | _ => rfl

/-! ## Searching -/

theorem functionDeclarations_renamed (t : Node) :
    functionDeclarations (t.renamed r) = (functionDeclarations t).map (Node.renamed r) := by
  have hnodes : (t.renamed r).sites.map Site.node = (t.sites.map Site.node).map (Node.renamed r) := by
    rw [Node.sites_renamed, List.map_map, List.map_map]
    rfl
  rw [functionDeclarations, functionDeclarations, hnodes, List.filter_map]
  congr 1
  refine List.filter_congr fun n hn => ?_
  simp only [Function.comp_apply, Node.kind_renamed]
  cases n.kind <;> rfl

/-- **Recognition does not depend on names.**  If the identifiers of a tree get other names, different
ones for different names, the search finds the same loader, with the same table and under its new
name; and for every loader name that is searched with, or none, it finds under the new loader name
the same decoder, with the same offset and under its new name.  Nothing is found, or the search fails,
just where it did before. -/
theorem recognition_renamed {r : String → String} (hr : Function.Injective r) (t : Node) :
    findLoader? (t.renamed r) = (findLoader? t).map (Loader.renamed r) ∧
      ∀ loader : Option String, findDecoder? (loader.map r) (t.renamed r) =
        (findDecoder? loader t).map (Option.map (Decoder.renamed r)) := by
  constructor
  · rw [findLoader?, findLoader?, functionDeclarations_renamed, List.findSome?_map,
      List.map_findSome?]
    exact congrArg (List.findSome? · _) (funext fun function => loader?_renamed hr function)
  · intro loader
    rw [findDecoder?, findDecoder?, functionDeclarations_renamed]
    exact firstResult?_map (decoder?_renamed hr loader) _

/-- `function A() { var t = ["x", "y"]; A = function () { return t; }; return A(); }` and
`function B(a) { var b = A(); return b[a - 1]; }` -/
def tableWithDecoder : Node :=
  .mk (.program "script") [.many [
    some (.mk (.functionDeclaration ⟨false, false, false⟩) [
      .one (some (.ident "A")),
      .many [],
      .one (some (.mk .block [.many [
        some (.mk (.variableDeclaration .var) [.many [some (.declarator (.ident "t")
          (some (.mk .arrayExpression [.many [
            some (.lit (.text "x") "\"x\""), some (.lit (.text "y") "\"y\"")]])))]]),
        some (.mk (.expressionStatement none) [.one (some (.binary2 (.assignment "=") (.ident "A")
          (.mk (.functionExpression ⟨false, false, false⟩) [.one none, .many [], .one (some
            (.mk .block [.many [
              some (.mk .returnStatement [.one (some (.ident "t"))])]]))])))]),
        some (.mk .returnStatement [.one (some (.callOf (.ident "A") []))])]]))]),
    some (.mk (.functionDeclaration ⟨false, false, false⟩) [
      .one (some (.ident "B")),
      .many [some (.ident "a")],
      .one (some (.mk .block [.many [
        some (.mk (.variableDeclaration .var) [.many [
          some (.declarator (.ident "b") (some (.callOf (.ident "A") [])))]]),
        some (.mk .returnStatement [.one (some (.memberOf true (.ident "b")
          (.binary2 (.binary "-") (.ident "a") (.lit (.number (.int 1)) "1"))))])]]))])]]

/-- The two functions exchange their names. -/
theorem recognition_renamed_exchanged :
    Function.Injective (Equiv.swap "A" "B") ∧
      findLoader? (tableWithDecoder.renamed (Equiv.swap "A" "B")) = some ⟨"B", ["x", "y"]⟩ ∧
      findDecoder? (some "B") (tableWithDecoder.renamed (Equiv.swap "A" "B")) =
        .ok (some ⟨"A", 1⟩) := by
  have hr : Function.Injective (Equiv.swap "A" "B") := (Equiv.swap "A" "B").injective
  obtain ⟨hloader, hdecoder⟩ := recognition_renamed hr tableWithDecoder
  have hfound : (findDecoder? (some "A") tableWithDecoder).toOption = some (some ⟨"B", 1⟩) := by
    decide +kernel
  refine ⟨hr, hloader.trans rfl, (hdecoder (some "A")).trans ?_⟩
  rw [eq_ok_of_toOption hfound]
  rfl

end Descramble

import Descramble.Proofs.Number.Exact
import Descramble.Source.Printer

/-!
# Trees that have a text

A node has a text wherever it stands if its parts do, its names are names, and its numbers are
doubles.

* `Succeeds` — a computation that gives a result, with the rules for its steps.
* `Printable` — a node that has a text wherever it stands.
* One lemma for each form of node: what it needs of its parts.
-/

set_option autoImplicit false

namespace Descramble

open Source

/-! ## Computations that succeed -/

section

variable {ε α β : Type}

/-- The computation gives a result. -/
def Succeeds (x : Except ε α) : Prop := ∃ a, x = .ok a

theorem succeeds_pure (a : α) : Succeeds (pure a : Except ε α) := ⟨a, rfl⟩

theorem Succeeds.bind {x : Except ε α} {f : α → Except ε β} (hx : Succeeds x)
    (hf : ∀ a, Succeeds (f a)) : Succeeds (x >>= f) := by
  obtain ⟨a, rfl⟩ := hx
  exact hf a

theorem Succeeds.ite {p : Prop} [Decidable p] {x y : Except ε α} (hx : Succeeds x)
    (hy : Succeeds y) : Succeeds (if p then x else y) := by
  by_cases hp : p
  · rwa [if_pos hp]
  · rwa [if_neg hp]

end

/-! ## Nodes with a text -/

/-- The node has a text wherever it stands. -/
def Printable (n : Node) : Prop := ∀ p, Succeeds ((pieceOf n).print p)

/-- All children of a list are there and have texts. -/
def AllPrintable (children : List (Option Node)) : Prop :=
  ∀ child ∈ children, ∃ n, child = some n ∧ Printable n

theorem allPrintable_nil : AllPrintable [] := by simp [AllPrintable]

theorem allPrintable_cons {n : Node} {children : List (Option Node)} (hn : Printable n)
    (hrest : AllPrintable children) : AllPrintable (some n :: children) :=
  List.forall_mem_cons.mpr ⟨⟨n, rfl, hn⟩, hrest⟩

theorem allPrintable_map {α : Type} {f : α → Node} {xs : List α} (h : ∀ x ∈ xs, Printable (f x)) :
    AllPrintable (xs.map fun x => some (f x)) := by
  intro child hchild
  obtain ⟨x, hx, rfl⟩ := List.mem_map.mp hchild
  exact ⟨f x, rfl, h x hx⟩

theorem print_of_printable {n : Node} (h : Printable n) : Succeeds (print n) := h _

section

variable {n left right : Node} {children : List (Option Node)}

theorem Printable.printed (h : Printable n) (p : Place) :
    Succeeds (printed (some (pieceOf n)) p) := h p

theorem AllPrintable.mapM_printed (h : AllPrintable children) (p : Place) :
    Succeeds ((pieces children).mapM (Source.printed · p)) := by
  induction children with
  | nil => exact succeeds_pure _
  | cons child children ih =>
      obtain ⟨⟨n, rfl, hn⟩, hrest⟩ := List.forall_mem_cons.mp h
      rw [pieces, List.mapM_cons]
      exact (hn p).bind fun text => (ih hrest).bind fun texts => succeeds_pure _

/-! ## Names and constants -/

theorem printable_ident {name : String} (h : isName name.toList = true) : Printable (.ident name) := by
  intro p
  show Succeeds (spelledName name)
  rw [spelledName, if_pos h]
  exact ⟨_, rfl⟩

theorem printable_text (text raw : String) : Printable (.lit (.text text) raw) :=
  fun _ => ⟨_, rfl⟩

theorem printable_number {k : Number} {raw : String} (h : Succeeds (spelledNumber k)) :
    Printable (.lit (.number k) raw) := fun _ =>
  h.bind fun _ => succeeds_pure _

/-- An integer below `2^53` has a text. -/
theorem printable_int {v : Int} (h : Number.isSafe v = true) (raw : String) :
    Printable (.lit (.number (.int v)) raw) := by
  obtain ⟨rank, hrank, -⟩ := Double.exists_ofInt h
  refine printable_number ?_
  rw [spelledNumber, hrank]
  exact ⟨_, rfl⟩

/-! ## Expressions -/

theorem printable_unary {operator : String} {leading : Bool} (h : Printable n) :
    Printable (.unary1 (.unary operator leading) n) := fun _ =>
  (h.printed _).bind fun _ => succeeds_pure _

theorem printable_binary {operator : String} (hleft : Printable left) (hright : Printable right) :
    Printable (.binary2 (.binary operator) left right) := fun _ =>
  (hleft.printed _).bind fun _ => (hright.printed _).bind fun _ =>
    (succeeds_pure _).ite ((succeeds_pure _).ite (succeeds_pure _))

theorem printable_assignment {operator : String} (hleft : Printable left)
    (hright : Printable right) : Printable (.binary2 (.assignment operator) left right) := fun _ =>
  (hleft.printed _).bind fun _ => (hright.printed _).bind fun _ => succeeds_pure _

theorem printable_sequence (h : AllPrintable children) :
    Printable (.mk .sequence [.many children]) := fun _ =>
  (h.mapM_printed _).bind fun _ => succeeds_pure _

theorem printable_call (hn : Printable n) (h : AllPrintable children) :
    Printable (.callOf n children) := fun _ =>
  (hn.printed _).bind fun _ =>
    ((h.mapM_printed _).bind fun _ => succeeds_pure _).bind fun _ =>
      (succeeds_pure _).ite (succeeds_pure _)

theorem printable_index (hleft : Printable left) (hright : Printable right) :
    Printable (.memberOf true left right) := fun _ =>
  (hleft _).bind fun _ => (hright.printed _).bind fun _ => succeeds_pure _

theorem AllPrintable.elementTexts (h : AllPrintable children) (p : Place) :
    Succeeds (elementTexts p (pieces children)) := by
  induction children with
  | nil => exact succeeds_pure _
  | cons child children ih =>
      obtain ⟨⟨n, rfl, hn⟩, hrest⟩ := List.forall_mem_cons.mp h
      exact (hn _).bind fun text => (ih hrest).bind fun texts => succeeds_pure _

theorem printable_array (h : AllPrintable children) :
    Printable (.mk .arrayExpression [.many children]) := fun _ =>
  (h.elementTexts _).bind fun
    | [] => succeeds_pure _
    | [_] => succeeds_pure _
    | _ :: _ :: _ => succeeds_pure _

/-! ## Statements and functions -/

theorem printable_program {source : String} (h : AllPrintable children) :
    Printable (.mk (.program source) [.many children]) := fun _ =>
  (h.mapM_printed _).bind fun _ => succeeds_pure _

theorem printable_block (h : AllPrintable children) : Printable (.mk .block [.many children]) := fun _ =>
  (h.mapM_printed _).bind fun _ => succeeds_pure _

theorem printable_return (h : Printable n) : Printable (.unary1 .returnStatement n) := fun _ =>
  (h _).bind fun _ => succeeds_pure _

theorem printable_statement (h : Printable n) :
    Printable (.unary1 (.expressionStatement none) n) := fun _ =>
  Succeeds.ite (succeeds_pure _) ((h _).bind fun _ => (succeeds_pure _).ite (succeeds_pure _))

theorem printable_declarator (hleft : Printable left) (hright : Printable right) :
    Printable (.declarator left (some right)) := fun _ =>
  (hleft.printed _).bind fun _ => (hright _).bind fun _ => succeeds_pure _

theorem printable_declaration {kind : VariableKind} (hn : Printable n) (h : AllPrintable children) :
    Printable (.mk (.variableDeclaration kind) [.many (some n :: children)]) := fun _ =>
  Succeeds.ite ((hn.printed _).bind fun _ => succeeds_pure _)
    (((allPrintable_cons hn h).mapM_printed _).bind fun _ => succeeds_pure _)

/-- The parameters and the body of a function have a text. -/
theorem succeeds_functionRest {params statements : List (Option Node)} (hparams : AllPrintable params)
    (hbody : AllPrintable statements) (p : Place) :
    Succeeds (printFunctionRest (pieces params) (some (pieceOf (.mk .block [.many statements]))) p) :=
  ((hparams.mapM_printed _).bind fun _ => succeeds_pure _).bind fun _ =>
    ((printable_block hbody _).bind fun _ => succeeds_pure _).bind fun _ => succeeds_pure _

theorem printable_functionDeclaration {flags : FunctionFlags} {params statements : List (Option Node)}
    (hn : Printable n) (hparams : AllPrintable params) (hbody : AllPrintable statements) :
    Printable (.mk (.functionDeclaration flags)
      [.one (some n), .many params, .one (some (.mk .block [.many statements]))]) := fun _ =>
  Succeeds.ite (succeeds_functionRest hparams hbody _)
    ((hn _).bind fun _ => (succeeds_functionRest hparams hbody _).bind fun _ => succeeds_pure _)

theorem printable_functionExpression {flags : FunctionFlags} {params statements : List (Option Node)}
    (hparams : AllPrintable params) (hbody : AllPrintable statements) :
    Printable (.mk (.functionExpression flags)
      [.one none, .many params, .one (some (.mk .block [.many statements]))]) := fun _ =>
  Succeeds.ite (succeeds_functionRest hparams hbody _)
    ((succeeds_functionRest hparams hbody _).bind fun _ => succeeds_pure _)

end

end Descramble

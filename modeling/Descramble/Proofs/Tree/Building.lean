import Descramble.Tree.Literal

/-!
# Building trees

Short forms for the statements and expressions that scripts with a string table are made of.
-/

set_option autoImplicit false

namespace Descramble

namespace Node

abbrev programOf (source : String) (statements : List Node) : Node :=
  .mk (.program source) [.many (statements.map some)]

abbrev blockOf (statements : List Node) : Node := .mk .block [.many (statements.map some)]

/-- `function name(params) { body }` -/
abbrev functionNamed (name : String) (params : List String) (body : List Node) : Node :=
  .mk (.functionDeclaration ⟨false, false, false⟩)
    [.one (some (.ident name)), .many (params.map fun param => some (.ident param)),
      .one (some (blockOf body))]

/-- `function (params) { body }` -/
abbrev functionOf (params : List String) (body : List Node) : Node :=
  .mk (.functionExpression ⟨false, false, false⟩)
    [.one none, .many (params.map fun param => some (.ident param)), .one (some (blockOf body))]

/-- `var name = init;` -/
abbrev varOf (name : String) (init : Node) : Node :=
  .mk (.variableDeclaration .var) [.many [some (.declarator (.ident name) (some init))]]

abbrev returnOf (value : Node) : Node := .unary1 .returnStatement value

/-- An expression as a statement. -/
abbrev statementOf (expression : Node) : Node := .unary1 (.expressionStatement none) expression

/-- `name = value` -/
abbrev assigned (name : String) (value : Node) : Node :=
  .binary2 (.assignment "=") (.ident name) value

/-- `name - value` -/
abbrev lessened (name : String) (value : Node) : Node := .binary2 (.binary "-") (.ident name) value

/-- The node that spells an integer. -/
def ofInt (n : Int) : Node := (ofNumber (.int n)).toOption.getD default

end Node

end Descramble

import Descramble.Tree.Kind

/-!
# The tree format

In the tree format a node is a record: the name of its kind, named attributes and named child slots.
This module lists the attributes of a kind and reads a kind back from them.

* `Attribute` — the value of a named attribute.
* `Kind.attributes` — the attributes of a kind.
* `Kind.ofAttributes?` — the kind with a name and attributes; absent flags are false.
-/

set_option autoImplicit false

namespace Descramble

/-- The value of an attribute of a node record. -/
inductive Attribute where
  | constant (c : Constant)
  | regex (p : Pattern)
  | template (raw : String) (cooked : Option String)
  deriving DecidableEq, Repr

namespace Attribute

def flag (b : Bool) : Attribute := .constant (.bool b)

def word (s : String) : Attribute := .constant (.text s)

end Attribute

namespace VariableKind

def word : VariableKind → String
  | .var => "var"
  | .let => "let"
  | .const => "const"

def ofWord? (s : String) : Option VariableKind :=
  match s with
  | "var" => some .var
  | "let" => some .let
  | "const" => some .const
  | _ => none

end VariableKind

namespace PropertyKind

def word : PropertyKind → String
  | .init => "init"
  | .get => "get"
  | .set => "set"

def ofWord? (s : String) : Option PropertyKind :=
  match s with
  | "init" => some .init
  | "get" => some .get
  | "set" => some .set
  | _ => none

end PropertyKind

namespace MethodKind

def word : MethodKind → String
  | .constructor => "constructor"
  | .method => "method"
  | .get => "get"
  | .set => "set"

def ofWord? (s : String) : Option MethodKind :=
  match s with
  | "constructor" => some .constructor
  | "method" => some .method
  | "get" => some .get
  | "set" => some .set
  | _ => none

end MethodKind

namespace Kind

private def functionAttributes (flags : FunctionFlags) : List (String × Attribute) :=
  [("generator", .flag flags.generator), ("isAsync", .flag flags.isAsync),
    ("expression", .flag flags.expression)]

/-- The named attributes of a kind. -/
def attributes : Kind → List (String × Attribute)
  | .arrowFunction flags => functionAttributes flags
  | .assignment operator => [("operator", .word operator)]
  | .binary operator => [("operator", .word operator)]
  | .expressionStatement (some directive) => [("directive", .word directive)]
  | .forInStatement each => [("each", .flag each)]
  | .functionDeclaration flags => functionAttributes flags
  | .functionExpression flags => functionAttributes flags
  | .identifier name => [("name", .word name)]
  | .literal value raw none => [("value", .constant value), ("raw", .word raw)]
  | .literal value raw (some p) =>
    [("value", .constant value), ("raw", .word raw), ("regex", .regex p)]
  | .logical operator => [("operator", .word operator)]
  | .member computed => [("computed", .flag computed)]
  | .methodDefinition computed kind isStatic =>
    [("computed", .flag computed), ("kind", .word kind.word), ("static", .flag isStatic)]
  | .program sourceType => [("sourceType", .word sourceType)]
  | .property computed kind method shorthand =>
    [("computed", .flag computed), ("kind", .word kind.word), ("method", .flag method),
      ("shorthand", .flag shorthand)]
  | .templateElement raw cooked tail => [("value", .template raw cooked), ("tail", .flag tail)]
  | .unary operator leading => [("operator", .word operator), ("prefix", .flag leading)]
  | .update operator leading => [("operator", .word operator), ("prefix", .flag leading)]
  | .variableDeclaration kind => [("kind", .word kind.word)]
  | .yield delegate => [("delegate", .flag delegate)]
  | _ => []

/-- The attributes of a record, by name. -/
abbrev Record := String → Option Attribute

private def getFlag (r : Record) (name : String) : Bool := r name == some (.flag true)

private def getWord? (r : Record) (name : String) : Option String :=
  match r name with
  | some (.constant (.text s)) => some s
  | _ => none

private def getFunctionFlags (r : Record) : FunctionFlags :=
  ⟨getFlag r "generator", getFlag r "isAsync", getFlag r "expression"⟩

private def getRegex? (r : Record) : Option Pattern :=
  match r "regex" with
  | some (.regex p) => some p
  | _ => none

private def getConstant (r : Record) : Constant :=
  match r "value" with
  | some (.constant c) => c
  | _ => .null

private def getTemplate? (r : Record) : Option (String × Option String) :=
  match r "value" with
  | some (.template raw cooked) => some (raw, cooked)
  | _ => none

/-- The kind with the given name and attributes. -/
def ofAttributes? (typeName : String) (r : Record) : Option Kind :=
  match typeName with
  | "ArrayExpression" => some .arrayExpression
  | "ArrayPattern" => some .arrayPattern
  | "ArrowParameterPlaceHolder" => some .arrowParameters
  | "ArrowFunctionExpression" => some (.arrowFunction (getFunctionFlags r))
  | "AssignmentExpression" => (getWord? r "operator").map .assignment
  | "AssignmentPattern" => some .assignmentPattern
  | "AwaitExpression" => some .await
  | "BinaryExpression" => (getWord? r "operator").map .binary
  | "BlockStatement" => some .block
  | "BreakStatement" => some .breakStatement
  | "CallExpression" => some .call
  | "CatchClause" => some .catchClause
  | "ClassBody" => some .classBody
  | "ClassDeclaration" => some .classDeclaration
  | "ClassExpression" => some .classExpression
  | "ConditionalExpression" => some .conditional
  | "ContinueStatement" => some .continueStatement
  | "DebuggerStatement" => some .debuggerStatement
  | "DoWhileStatement" => some .doWhileStatement
  | "EmptyStatement" => some .emptyStatement
  | "ExpressionStatement" => some (.expressionStatement (getWord? r "directive"))
  | "ForInStatement" => some (.forInStatement (getFlag r "each"))
  | "ForOfStatement" => some .forOfStatement
  | "ForStatement" => some .forStatement
  | "FunctionDeclaration" => some (.functionDeclaration (getFunctionFlags r))
  | "FunctionExpression" => some (.functionExpression (getFunctionFlags r))
  | "Identifier" => (getWord? r "name").map .identifier
  | "IfStatement" => some .ifStatement
  | "Import" => some .importWord
  | "LabeledStatement" => some .labeled
  | "Literal" => some (.literal (getConstant r) ((getWord? r "raw").getD "") (getRegex? r))
  | "LogicalExpression" => (getWord? r "operator").map .logical
  | "MemberExpression" => some (.member (getFlag r "computed"))
  | "MetaProperty" => some .metaProperty
  | "MethodDefinition" =>
    ((getWord? r "kind").bind MethodKind.ofWord?).map
      (.methodDefinition (getFlag r "computed") · (getFlag r "static"))
  | "NewExpression" => some .newExpression
  | "ObjectExpression" => some .objectExpression
  | "ObjectPattern" => some .objectPattern
  | "Program" => some (.program ((getWord? r "sourceType").getD "script"))
  | "Property" =>
    ((getWord? r "kind").bind PropertyKind.ofWord?).map
      (.property (getFlag r "computed") · (getFlag r "method") (getFlag r "shorthand"))
  | "RestElement" => some .restElement
  | "ReturnStatement" => some .returnStatement
  | "SequenceExpression" => some .sequence
  | "SpreadElement" => some .spread
  | "Super" => some .superExpression
  | "SwitchCase" => some .switchCase
  | "SwitchStatement" => some .switchStatement
  | "TaggedTemplateExpression" => some .taggedTemplate
  | "TemplateElement" =>
    (getTemplate? r).map (fun t => .templateElement t.1 t.2 (getFlag r "tail"))
  | "TemplateLiteral" => some .templateLiteral
  | "ThisExpression" => some .thisExpression
  | "ThrowStatement" => some .throwStatement
  | "TryStatement" => some .tryStatement
  | "UnaryExpression" => (getWord? r "operator").map (.unary · (getFlag r "prefix"))
  | "UpdateExpression" => (getWord? r "operator").map (.update · (getFlag r "prefix"))
  | "VariableDeclaration" =>
    ((getWord? r "kind").bind VariableKind.ofWord?).map .variableDeclaration
  | "VariableDeclarator" => some .variableDeclarator
  | "WhileStatement" => some .whileStatement
  | "WithStatement" => some .withStatement
  | "YieldExpression" => some (.yield (getFlag r "delegate"))
  | _ => none

end Kind

end Descramble

import Descramble.Number

/-!
# Kinds of syntax nodes

A node of a script's syntax tree has a kind.  The kind carries what the node holds besides its
children: names, operators, literal values and flags.

* `Kind` — one constructor for each kind of the tree format.
* `Kind.typeName` — the name of the kind in the tree format.
* `Kind.slotNames` — the names of the child slots, in the order in which they are visited.
-/

set_option autoImplicit false

namespace Descramble

/-- The value of a literal. -/
inductive Constant where
  | null
  | bool (b : Bool)
  | number (n : Number)
  | text (s : String)
  deriving DecidableEq, Repr

/-- The body and the flags of a regular expression. -/
structure Pattern where
  body : String
  flags : String
  deriving DecidableEq, Repr

/-- The flags of a function. -/
structure FunctionFlags where
  generator : Bool
  isAsync : Bool
  /-- Is the body an expression? -/
  expression : Bool
  deriving DecidableEq, Repr

/-- The keyword of a variable declaration. -/
inductive VariableKind where
  | var
  | let
  | const
  deriving DecidableEq, Repr

/-- What a property of an object defines. -/
inductive PropertyKind where
  | init
  | get
  | set
  deriving DecidableEq, Repr

/-- What a member of a class defines. -/
inductive MethodKind where
  | constructor
  | method
  | get
  | set
  deriving DecidableEq, Repr

/-- The kind of a node with the node's own data. -/
inductive Kind where
  | arrayExpression
  | arrayPattern
  /-- Parenthesized parameters without an arrow behind them. -/
  | arrowParameters
  | arrowFunction (flags : FunctionFlags)
  | assignment (operator : String)
  | assignmentPattern
  | await
  | binary (operator : String)
  | block
  | breakStatement
  | call
  | catchClause
  | classBody
  | classDeclaration
  | classExpression
  | conditional
  | continueStatement
  | debuggerStatement
  | doWhileStatement
  | emptyStatement
  | expressionStatement (directive : Option String)
  | forInStatement (each : Bool)
  | forOfStatement
  | forStatement
  | functionDeclaration (flags : FunctionFlags)
  | functionExpression (flags : FunctionFlags)
  | identifier (name : String)
  | ifStatement
  /-- The word `import` where it is called. -/
  | importWord
  | labeled
  | literal (value : Constant) (raw : String) (regex : Option Pattern)
  | logical (operator : String)
  | member (computed : Bool)
  | metaProperty
  | methodDefinition (computed : Bool) (kind : MethodKind) (isStatic : Bool)
  | newExpression
  | objectExpression
  | objectPattern
  | program (sourceType : String)
  | property (computed : Bool) (kind : PropertyKind) (method shorthand : Bool)
  | restElement
  | returnStatement
  | sequence
  | spread
  | superExpression
  | switchCase
  | switchStatement
  | taggedTemplate
  | templateElement (raw : String) (cooked : Option String) (tail : Bool)
  | templateLiteral
  | thisExpression
  | throwStatement
  | tryStatement
  | unary (operator : String) (leading : Bool)
  | update (operator : String) (leading : Bool)
  | variableDeclaration (kind : VariableKind)
  | variableDeclarator
  | whileStatement
  | withStatement
  | yield (delegate : Bool)
  deriving DecidableEq, Repr

namespace Kind

/-- The name of the kind in the tree format. -/
def typeName : Kind → String
  | .arrayExpression => "ArrayExpression"
  | .arrayPattern => "ArrayPattern"
  | .arrowParameters => "ArrowParameterPlaceHolder"
  | .arrowFunction _ => "ArrowFunctionExpression"
  | .assignment _ => "AssignmentExpression"
  | .assignmentPattern => "AssignmentPattern"
  | .await => "AwaitExpression"
  | .binary _ => "BinaryExpression"
  | .block => "BlockStatement"
  | .breakStatement => "BreakStatement"
  | .call => "CallExpression"
  | .catchClause => "CatchClause"
  | .classBody => "ClassBody"
  | .classDeclaration => "ClassDeclaration"
  | .classExpression => "ClassExpression"
  | .conditional => "ConditionalExpression"
  | .continueStatement => "ContinueStatement"
  | .debuggerStatement => "DebuggerStatement"
  | .doWhileStatement => "DoWhileStatement"
  | .emptyStatement => "EmptyStatement"
  | .expressionStatement _ => "ExpressionStatement"
  | .forInStatement _ => "ForInStatement"
  | .forOfStatement => "ForOfStatement"
  | .forStatement => "ForStatement"
  | .functionDeclaration _ => "FunctionDeclaration"
  | .functionExpression _ => "FunctionExpression"
  | .identifier _ => "Identifier"
  | .ifStatement => "IfStatement"
  | .importWord => "Import"
  | .labeled => "LabeledStatement"
  | .literal _ _ _ => "Literal"
  | .logical _ => "LogicalExpression"
  | .member _ => "MemberExpression"
  | .metaProperty => "MetaProperty"
  | .methodDefinition _ _ _ => "MethodDefinition"
  | .newExpression => "NewExpression"
  | .objectExpression => "ObjectExpression"
  | .objectPattern => "ObjectPattern"
  | .program _ => "Program"
  | .property _ _ _ _ => "Property"
  | .restElement => "RestElement"
  | .returnStatement => "ReturnStatement"
  | .sequence => "SequenceExpression"
  | .spread => "SpreadElement"
  | .superExpression => "Super"
  | .switchCase => "SwitchCase"
  | .switchStatement => "SwitchStatement"
  | .taggedTemplate => "TaggedTemplateExpression"
  | .templateElement _ _ _ => "TemplateElement"
  | .templateLiteral => "TemplateLiteral"
  | .thisExpression => "ThisExpression"
  | .throwStatement => "ThrowStatement"
  | .tryStatement => "TryStatement"
  | .unary _ _ => "UnaryExpression"
  | .update _ _ => "UpdateExpression"
  | .variableDeclaration _ => "VariableDeclaration"
  | .variableDeclarator => "VariableDeclarator"
  | .whileStatement => "WhileStatement"
  | .withStatement => "WithStatement"
  | .yield _ => "YieldExpression"

/-- The name of a child slot, and whether it holds a list. -/
structure SlotName where
  name : String
  isList : Bool
  deriving DecidableEq, Repr

private def single (name : String) : SlotName := ⟨name, false⟩

private def several (name : String) : SlotName := ⟨name, true⟩

/-- The child slots of a kind, in the order in which they are visited. -/
def slotNames : Kind → List SlotName
  | .arrayExpression => [several "elements"]
  | .arrayPattern => [several "elements"]
  | .arrowParameters => [several "params"]
  | .arrowFunction _ => [several "params", single "body"]
  | .assignment _ => [single "left", single "right"]
  | .assignmentPattern => [single "left", single "right"]
  | .await => [single "argument"]
  | .binary _ => [single "left", single "right"]
  | .block => [several "body"]
  | .breakStatement => [single "label"]
  | .call => [single "callee", several "arguments"]
  | .catchClause => [single "param", single "body"]
  | .classBody => [several "body"]
  | .classDeclaration => [single "id", single "superClass", single "body"]
  | .classExpression => [single "id", single "superClass", single "body"]
  | .conditional => [single "test", single "consequent", single "alternate"]
  | .continueStatement => [single "label"]
  | .debuggerStatement => []
  | .doWhileStatement => [single "body", single "test"]
  | .emptyStatement => []
  | .expressionStatement _ => [single "expression"]
  | .forInStatement _ => [single "left", single "right", single "body"]
  | .forOfStatement => [single "left", single "right", single "body"]
  | .forStatement => [single "init", single "test", single "update", single "body"]
  | .functionDeclaration _ => [single "id", several "params", single "body"]
  | .functionExpression _ => [single "id", several "params", single "body"]
  | .identifier _ => []
  | .ifStatement => [single "test", single "consequent", single "alternate"]
  | .importWord => []
  | .labeled => [single "label", single "body"]
  | .literal _ _ _ => []
  | .logical _ => [single "left", single "right"]
  | .member _ => [single "object", single "property"]
  | .metaProperty => [single "meta", single "property"]
  | .methodDefinition _ _ _ => [single "key", single "value"]
  | .newExpression => [single "callee", several "arguments"]
  | .objectExpression => [several "properties"]
  | .objectPattern => [several "properties"]
  | .program _ => [several "body"]
  | .property _ _ _ _ => [single "key", single "value"]
  | .restElement => [single "argument"]
  | .returnStatement => [single "argument"]
  | .sequence => [several "expressions"]
  | .spread => [single "argument"]
  | .superExpression => []
  | .switchCase => [single "test", several "consequent"]
  | .switchStatement => [single "discriminant", several "cases"]
  | .taggedTemplate => [single "tag", single "quasi"]
  | .templateElement _ _ _ => []
  | .templateLiteral => [several "quasis", several "expressions"]
  | .thisExpression => []
  | .throwStatement => [single "argument"]
  | .tryStatement => [single "block", single "handler", single "finalizer"]
  | .unary _ _ => [single "argument"]
  | .update _ _ => [single "argument"]
  | .variableDeclaration _ => [several "declarations"]
  | .variableDeclarator => [single "id", single "init"]
  | .whileStatement => [single "test", single "body"]
  | .withStatement => [single "object", single "body"]
  | .yield _ => [single "argument"]

/-- A function declaration, a function expression or an arrow function. -/
def isFunction : Kind → Bool
  | .functionDeclaration _ => true
  | .functionExpression _ => true
  | .arrowFunction _ => true
  | _ => false

/-- The kind without the spelling of a literal. -/
def withoutSpelling : Kind → Kind
  | .literal value _ regex => .literal value "" regex
  | kind => kind

end Kind

end Descramble

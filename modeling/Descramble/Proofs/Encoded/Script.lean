import Descramble.Proofs.Number.Exact
import Descramble.Proofs.Tree.Building
import Descramble.Source.Printer.Spelling
import Descramble.Value.Builtin

/-!
# Scripts with a string table

A script that keeps its texts in a table has a loader that holds the table, a decoder that looks up
its argument less an offset, aliases of the decoder, and one statement that hands decoded texts to a
function of its surroundings:

```
function A() { var t = ["..", ..]; A = function () { return t; }; return A(); }
function B(a) { var b = A(); var c = b[a - N]; return c; }
var k1 = B; var k2 = k1; ..
use(k1(v1), B(v2), ..);
```

* `EncodedScript` — the table, the offset and the names of such a script.
* `EncodedScript.Argument` — a call of the decoder, under any of its names, or a text.
* `EncodedScript.tree` — the tree of the script with given arguments.
* `EncodedScript.decoded` — what becomes of a call: the entry of the table, if there is one.
* `EncodedScript.cleaned` — the script with the declarations that its arguments still need.
-/

set_option autoImplicit false

namespace Descramble

/-! ## The script -/

/-- A text of the table with its spelling. -/
structure TableEntry where
  text : String
  raw : String

/-- The two forms of a decoder with their local names. -/
inductive DecoderForm where
  /-- `function B(param) { var table = A(); var entry = table[param - N]; return entry; }` -/
  | direct (param table entry : String)
  /-- `function B(param, spare) { var table = A(); return B = function (index, other) {
  index = index - N; var entry = table[index]; return entry; }, B(param, spare); }` -/
  | selfRedefining (param spare table index other entry : String)

namespace DecoderForm

/-- The local names of a decoder, in the order of their declarations. -/
def locals : DecoderForm → List String
  | direct param table entry => [param, table, entry]
  | selfRedefining param spare table index other entry =>
    [param, spare, table, index, other, entry]

/-- The declaration of a decoder. -/
def declaration (loader decoder : String) (offset : Node) : DecoderForm → Node
  | direct param table entry =>
    .functionNamed decoder [param] [
      .varOf table (.callOf (.ident loader) []),
      .varOf entry (.memberOf true (.ident table) (.lessened param offset)),
      .returnOf (.ident entry)]
  | selfRedefining param spare table index other entry =>
    .functionNamed decoder [param, spare] [
      .varOf table (.callOf (.ident loader) []),
      .returnOf (.mk .sequence [.many [
        some (.assigned decoder (.functionOf [index, other] [
          .statementOf (.assigned index (.lessened index offset)),
          .varOf entry (.memberOf true (.ident table) (.ident index)),
          .returnOf (.ident entry)])),
        some (.callOf (.ident decoder) [some (.ident param), some (.ident spare)])]])]

end DecoderForm

/-- A script with a string table: all its names are different, and the function that the texts are
handed to is declared nowhere and is not one that static evaluation knows. -/
structure EncodedScript where
  source : String
  loader : String
  array : String
  decoder : String
  form : DecoderForm
  aliases : List String
  user : String
  entries : List TableEntry
  offset : Nat
  offsetRaw : String
  offset_safe : Number.isSafe offset = true
  distinct : (loader :: array :: decoder :: form.locals ++ aliases ++ [user]).Nodup
  valid : ∀ name ∈ loader :: array :: decoder :: form.locals ++ aliases ++ [user],
    Source.isName name.toList = true
  unlisted : Builtin.ofName? user = none

namespace EncodedScript

variable (s : EncodedScript)

/-- The names that a call of the decoder can use: its own and its aliases. -/
def callees : List String := s.decoder :: s.aliases

/-- A call of the decoder under one of its names, with an integer below `2^53` in magnitude. -/
structure Call where
  callee : Fin s.callees.length
  value : Int
  safe : Number.isSafe value = true

/-- What is handed to the function. -/
inductive Argument where
  | call (c : s.Call)
  | text (text : String)

variable {s}

def Call.name (c : s.Call) : String := s.callees.get c.callee

def Argument.node : s.Argument → Node
  | call c => .callOf (.ident c.name) [some (.ofInt c.value)]
  | text entry => .ofText entry

variable (s)

/-- `function A() { var t = [..]; A = function () { return t; }; return A(); }` -/
def loaderNode : Node :=
  .functionNamed s.loader [] [
    .varOf s.array (.mk .arrayExpression [.many
      (s.entries.map fun entry => some (.lit (.text entry.text) entry.raw))]),
    .statementOf (.assigned s.loader (.functionOf [] [.returnOf (.ident s.array)])),
    .returnOf (.callOf (.ident s.loader) [])]

def offsetNode : Node := .lit (.number (.int s.offset)) s.offsetRaw

def decoderNode : Node := s.form.declaration s.loader s.decoder s.offsetNode

/-- `var k1 = B; var k2 = k1; ..` -/
def aliasNodes : List Node :=
  List.zipWith (fun name target => .varOf name (.ident target)) s.aliases s.callees

/-- What stands in front of the use of the texts. -/
def prelude : List Node := s.loaderNode :: s.decoderNode :: s.aliasNodes

variable {s}

/-- `use(..);` -/
def useNode (args : List s.Argument) : Node :=
  .statementOf (.callOf (.ident s.user) (args.map fun arg => some arg.node))

/-- The script with the given arguments. -/
def tree (args : List s.Argument) : Node := .programOf s.source (s.prelude ++ [useNode args])

/-! ## What becomes of it -/

variable (s)

/-- The text that the decoder gives for a number: the entry of the table at the number less the
offset. -/
def entry? (value : Int) : Option String :=
  if 0 ≤ value - s.offset then (s.entries.map TableEntry.text)[(value - s.offset).toNat]? else none

variable {s}

/-- A call that has a text becomes that text, any other call stays. -/
def decoded (c : s.Call) : s.Argument :=
  match s.entry? c.value with
  | some text => .text text
  | none => .call c

/-- The number of declarations in front that an argument needs: a call needs the loader, the decoder
and the aliases up to its own. -/
def Argument.needs : s.Argument → Nat
  | call c => c.callee + 2
  | text _ => 0

/-- The number of declarations in front that some argument needs. -/
def needs (args : List s.Argument) : Nat := (args.map Argument.needs).foldr max 0

/-- The script without the declarations that no argument needs. -/
def cleaned (args : List s.Argument) : Node :=
  .programOf s.source (s.prelude.take (needs args) ++ [useNode args])

end EncodedScript

end Descramble

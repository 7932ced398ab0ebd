import Descramble.Number.Reading
import Descramble.Source.Formatter.Extent
import Descramble.Text.Utf8

/-!
# Packed scripts

A script may be packed in three ways, and each is undone before the script is formatted.

* `Table` — its texts stand in a table in front of it, and it refers to them by index.
* `percentDecoded` — its characters are written by their codes.
* `Package` — its words are written as numbers, which are places in a dictionary.
* `unpacked` — a script without these packings.
-/

set_option autoImplicit false

namespace Descramble.Packed

/-! ## Searching -/

/-- The text behind a start, if it has that start. -/
def past? (start : String) (cs : List Char) : Option (List Char) :=
  if start.toList.isPrefixOf cs then some (cs.drop start.length) else none

def pastBlanks (cs : List Char) : List Char := cs.dropWhile (· == ' ')

/-- The text behind one blank, if there is one. -/
def pastBlank : List Char → List Char
  | ' ' :: rest => rest
  | cs => cs

/-- The first result along the ends of a text, with the place where it arises. -/
def leftmost? {α : Type} (find? : List Char → Option α) : (place : Nat) → List Char →
    Option (Nat × α)
  | place, [] => (find? []).map (place, ·)
  | place, c :: rest =>
    match find? (c :: rest) with
    | some a => some (place, a)
    | none => leftmost? find? (place + 1) rest

/-- The last result along the ends of a text, with what stands in front of it. -/
def rightmost? {α : Type} (find? : List Char → Option α) : List Char → Option (List Char × α)
  | [] => (find? []).map ([], ·)
  | c :: rest =>
    match rightmost? find? rest with
    | some (before, a) => some (c :: before, a)
    | none => (find? (c :: rest)).map ([], ·)

/-- The text up to the first occurrence of a stop, and the text behind the stop. -/
def upTo? (stop : String) (cs : List Char) : Option (List Char × List Char) :=
  (Text.findAt? stop.toList 0 cs).map fun n => (cs.take n, cs.drop (n + stop.length))

/-- The text with each occurrence of a part replaced. -/
def replaceAll (part replacement cs : List Char) : List Char :=
  Text.joinWith replacement (Text.splitOn part cs)

/-! ## Tables of texts -/

/-- A table of texts: its name, what it holds, and the length of its definition. -/
structure Table where
  name : List Char
  body : List Char
  length : Nat
  deriving Repr

/-- The reference to an entry of a table. -/
def reference (name : List Char) (index : Nat) : List Char :=
  name ++ '[' :: (intText index).toList ++ [']']

/-- A script in which references to a table are replaced by the entries. -/
def withEntries (name : List Char) (entries : List (List Char)) (cs : List Char) : List Char :=
  (entries.zip (List.range entries.length)).foldl
    (fun cs (entry, index) => replaceAll (reference name index) entry cs) cs

/-- The name of a table that is defined here, and the text behind its opening bracket.  The name ends
in hexadecimal digits. -/
def tableHead? (isDigit : Char → Bool) (cs : List Char) : Option (List Char × List Char) := do
  let rest ← past? "var _0x" cs
  let digits := rest.takeWhile fun c => ('a' ≤ c && c ≤ 'f') || isDigit c
  guard !digits.isEmpty
  let rest ← past? "=" (pastBlank (rest.drop digits.length))
  let rest ← past? "[" (pastBlank rest)
  return ("_0x".toList ++ digits, rest)

/-- Does the script start with a table? -/
def startsWithTable (cs : List Char) : Bool := (tableHead? Char.isDigit cs).isSome

/-- The table that is defined here in one line. -/
def tableAt? (cs : List Char) : Option Table := do
  let (name, rest) ← tableHead? Unicode.isDecimal cs
  let (body, after) ← upTo? "];" rest
  guard !body.contains '\n'
  return ⟨name, body, cs.length - after.length⟩

/-- The texts between double quotes, with their quotes.  `inside` holds the text that is open, in
reverse. -/
def quotedTexts : (inside : Option (List Char)) → List Char → Except FormatError (List (List Char))
  | none, [] => .ok []
  | some _, [] => .error .brokenTable
  | none, c :: rest => quotedTexts (if c == '"' then some [c] else none) rest
  | some text, '\\' :: c :: rest => quotedTexts (some (c :: '\\' :: text)) rest
  | some text, c :: rest =>
    if c == '"' then do
      let texts ← quotedTexts none rest
      return (c :: text).reverse :: texts
    else quotedTexts (some (c :: text)) rest

/-- The script with the texts of its first table in place.  As many characters as the definition has
are taken from the front. -/
def withoutTable (cs : List Char) : Except FormatError (List Char) := do
  match leftmost? tableAt? 0 cs with
  | none => return cs
  | some (_, table) =>
    let texts ← quotedTexts none table.body
    return withEntries table.name texts (cs.drop table.length)

/-! ## Characters by their codes -/

/-- Is the script written by codes?  It has no blank, but the code of one or several other codes. -/
def isPercentCoded (cs : List Char) : Bool :=
  !cs.contains ' ' && (Text.contains "%20".toList cs || 3 < cs.count '%')

/-- The bytes of an ASCII text in which bytes may be written by their codes. -/
def percentBytes : List Char → List Nat
  | '%' :: a :: b :: rest =>
    if Formatter.isHexDigit a && Formatter.isHexDigit b then
      let value (c : Char) : Nat := (IntegerText.digitValue? c).getD 0
      (16 * value a + value b) :: percentBytes rest
    else '%'.toNat :: percentBytes (a :: b :: rest)
  | c :: rest => c.toNat :: percentBytes rest
  | [] => []

/-- The script without codes; a plus stands for a blank. -/
def percentDecoded (cs : List Char) : List Char :=
  let isAscii (c : Char) : Bool := c.toNat < 128
  let spaced := cs.map fun c => if c == '+' then ' ' else c
  let runs := spaced.splitBy fun a b => isAscii a == isAscii b
  runs.flatMap fun run => if run.all isAscii then Text.decode (percentBytes run) else run

/-! ## Words as places in a dictionary -/

/-- What is packed: the script, the dictionary, and the base of the places. -/
structure Package where
  script : List Char
  dictionary : List (List Char)
  base : Nat
  deriving Repr

/-- The words and marks that start the program which unpacks a package. -/
def unpackerStart : List String :=
  ["eval", "(", "function", "(", "p", ",", "a", ",", "c", ",", "k", ",", "e", ","]

/-- The text behind words and marks that blanks may separate. -/
def pastAll? : List String → List Char → Option (List Char)
  | [], cs => some cs
  | word :: words, cs => do pastAll? words (pastBlanks (← past? word cs))

/-- What stands around a package: everything in front of its program, and everything behind the first
end of its arguments. -/
structure Surroundings where
  before : List Char
  after : List Char
  deriving Repr

/-- What stands around the first package of a script. -/
def surroundings? (cs : List Char) : Option Surroundings := do
  let (place, _) ← leftmost? (pastAll? unpackerStart) 0 cs
  let program := cs.drop place
  let after := match upTo? "')))" program with
    | some (_, after) => after
    | none => ((upTo? "\x7d))" program).map Prod.snd).getD []
  return ⟨cs.take place, after⟩

/-- A number and the text behind it. -/
def number? (cs : List Char) : Option (List Char × List Char) :=
  let digits := cs.takeWhile Unicode.isDecimal
  if digits.isEmpty then none else some (digits, cs.drop digits.length)

/-- Do the two further arguments follow that some programs take? -/
def endsLong (cs : List Char) : Bool :=
  let arguments : Option (List Char) := do
    let rest ← past? "," cs
    let (_, rest) ← number? (pastBlanks rest)
    past? "," rest
  (arguments.map (Text.contains "))".toList)).getD false

/-- The arguments behind the packed script: the base, the number of words, and the dictionary.  The
base may be an empty list, which stands for the greatest one. -/
def argumentsAt? (ends : List Char → Bool) (cs : List Char) :
    Option (List Char × List Char × List Char) := do
  let rest := pastBlanks (← past? "'," cs)
  let (base, rest) ← match number? rest with
    | some found => some found
    | none => (past? "[]" rest).map ("62".toList, ·)
  let (count, rest) ← number? (pastBlanks (← past? "," rest))
  let rest ← past? "'" (pastBlanks (← past? "," rest))
  let (dictionary, _) ← rightmost?
    (fun cs => do
      let rest ← past? "'.split('|')" cs
      guard (ends rest)) rest
  return (base, count, dictionary)

/-- The bases that have digits. -/
def hasDigits (base : Nat) : Bool := (2 ≤ base && base ≤ 62) || base = 95

/-- The package of a script, read with one form of its arguments; none if its parts do not fit
together. -/
def packageWith? (ends : List Char → Bool) (cs : List Char) : Option (Option Package) := do
  let (_, rest) ← upTo? "\x7d('" cs
  let (script, base, count, dictionary) ← rightmost? (argumentsAt? ends) rest
  let dictionary := Text.splitOn ['|'] dictionary
  return do
    let base ← IntegerText.read? 10 base
    let count ← IntegerText.read? 10 count
    guard (count = dictionary.length && hasDigits base.toNat)
    return ⟨script, dictionary, base.toNat⟩

/-- The package of a script.  The long form of the arguments goes before the short one. -/
def package? (cs : List Char) : Option Package :=
  match packageWith? endsLong cs with
  | some package => package
  | none => (packageWith? (fun _ => true) cs).join

/-- The value of a digit in a base above 36: digits, small letters and capitals, or for the greatest
base every printable character in the order of its code. -/
def digitOf (base : Nat) (c : Char) : Except FormatError Nat :=
  let value :=
    if base = 95 then c.toNat - 32
    else if c.isDigit then c.toNat - 48
    else if c.isLower then c.toNat - 87
    else if c.isUpper then c.toNat - 29
    else base
  if value < base then .ok value else .error (.unknownDigit c)

/-- The value of digits in a base above 36, the last digit first. -/
def valueOf (base : Nat) : List Char → Except FormatError Nat
  | [] => .ok 0
  | c :: rest => do
    let digit ← digitOf base c
    let others ← valueOf base rest
    return digit + base * others

/-- The place that a packed word stands for. -/
def placeOf (base : Nat) (word : List Char) : Except FormatError Nat :=
  if base ≤ 36 then
    match IntegerText.read? base word with
    | some place => .ok place.toNat
    | none => .error (.notANumber base (String.ofList word))
  else valueOf base word.reverse

/-- The word at a place of the dictionary; an empty entry leaves the packed word. -/
def lookUp (package : Package) (word : List Char) : Except FormatError (List Char) := do
  let place ← placeOf package.base word
  match package.dictionary[place]? with
  | some [] => return word
  | some entry => return entry
  | none => .error .beyondDictionary

/-- The script of a package with the words of its dictionary. -/
def Package.words (package : Package) : Except FormatError (List Char) := do
  let isWordChar (c : Char) : Bool := c.isAlphanum || c == '_'
  let script := replaceAll "\\\\".toList "\\".toList package.script
  let script := replaceAll "\\'".toList "'".toList script
  let runs := script.splitBy fun a b => isWordChar a == isWordChar b
  let parts ← runs.mapM fun run => if run.all isWordChar then lookUp package run else .ok run
  return parts.flatten

/-- The table of texts that is defined here, with double quotes around every text. -/
def innerTableAt? (cs : List Char) : Option Table := do
  let rest ← past? "_" (pastBlanks (← past? "var" cs))
  let name := rest.takeWhile Unicode.isAlphanumeric
  guard !name.isEmpty
  let rest ← past? "=[\"" (rest.drop name.length)
  let (body, after) ← upTo? "\"];" rest
  return ⟨'_' :: name, body, cs.length - after.length⟩

/-- The script of a package between its surroundings.  One with a table of texts stands alone, with
the texts in place. -/
def Package.unfolded (package : Package) (surroundings : Surroundings) :
    Except FormatError (List Char) := do
  let script ← package.words
  match leftmost? innerTableAt? 0 script with
  | some (_, table) =>
    let texts := (Text.splitOn "\",\"".toList table.body).map fun text => '"' :: text ++ ['"']
    return (withEntries table.name texts script).drop table.length
  | none => return surroundings.before ++ script ++ surroundings.after

/-- The script without its packings.  A script whose package cannot be read stays as it is. -/
def unpacked (cs : List Char) : Except FormatError (List Char) := do
  let tabled ← if startsWithTable cs then withoutTable cs else .ok cs
  let decoded := if isPercentCoded cs then percentDecoded tabled else tabled
  match surroundings? cs with
  | none => return decoded
  | some surroundings =>
    match package? decoded with
    | some package => package.unfolded surroundings
    | none => return cs

end Descramble.Packed

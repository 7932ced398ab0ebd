import Descramble.Number.Reading
import Descramble.Unicode.Identifier

/-!
# Well-formed regular expressions

A script may hold only those regular expressions whose body has a meaning.  The body is checked in
three steps.

* `Regex.units` — escapes of the form `\uXXXX` and `\u{X}` become the characters they stand for; what
  lies beyond the basic plane becomes one stand-in character.
* `Regex.signs` — the units are paired with the backslashes in front of them.
* `Regex.alternation` — the grammar: alternatives, quantifiers, character classes and groups.

`Regex.isWellFormed` puts them together.  The dialect is strict: a quantifier needs something to
repeat, a letter behind a backslash needs a meaning, a reference needs a group that is closed, and
what is looked for behind a place must have a fixed length.
-/

set_option autoImplicit false

namespace Descramble.Source.Regex

/-! ## Units -/

def isHexDigit (c : Char) : Bool := (IntegerText.digitIn? 16 c).isSome

def hexNumber (digits : List Char) : Nat := (IntegerText.positional? 16 0 digits).getD 0

/-- The number behind a backslash and a `u`: digits in braces, or four digits. -/
def escapedUnit? (cs : List Char) : Option (Nat × List Char) :=
  match cs with
  | '{' :: rest =>
    let digits := rest.takeWhile isHexDigit
    match digits, rest.drop digits.length with
    | _ :: _, '}' :: after => some (hexNumber digits, after)
    | _, _ => none
  | _ =>
    let digits := cs.take 4
    if digits.length = 4 && digits.all isHexDigit then some (hexNumber digits, cs.drop 4) else none

/-- What stands for a character beyond the basic plane. -/
def standIn : Nat := 0xffff

/-- The units of a body; none if an escape stands for no character. -/
def unitsOf : (fuel : Nat) → List Char → Option (List Nat)
  | 0, _ => some []
  | _, [] => some []
  | fuel + 1, c :: rest =>
    match c, rest with
    | '\\', 'u' :: more =>
      match escapedUnit? more with
      | some (n, after) => do
        if 0x10ffff < n then none
        else return (if n ≤ 0xffff then n else standIn) :: (← unitsOf fuel after)
      | none => do return c.toNat :: (← unitsOf fuel rest)
    | _, _ => do return c.toNat :: (← unitsOf fuel rest)

/-- Two halves of a character become one. -/
def joinHalves : List Nat → List Nat
  | high :: low :: rest =>
    if 0xd800 ≤ high && high ≤ 0xdbff && 0xdc00 ≤ low && low ≤ 0xdfff then
      standIn :: joinHalves rest
    else high :: joinHalves (low :: rest)
  | rest => rest

def units (body : List Char) : Option (List Nat) :=
  (unitsOf (body.length + 1) body).map joinHalves

/-! ## Signs -/

/-- A unit, perhaps with a backslash in front of it. -/
structure Sign where
  escaped : Bool
  code : Nat
  deriving DecidableEq, Repr

/-- Is the sign this character, without a backslash? -/
def Sign.is (s : Sign) (c : Char) : Bool := !s.escaped && s.code == c.toNat

/-- Is the sign one of these characters, without a backslash? -/
def Sign.isOneOf (s : Sign) (cs : String) : Bool := cs.toList.any s.is

/-- The signs of units; none if the last one is a lone backslash. -/
def signs : List Nat → Option (List Sign)
  | [] => some []
  | code :: rest =>
    if code = '\\'.toNat then
      match rest with
      | [] => none
      | next :: rest => do return ⟨true, next⟩ :: (← signs rest)
    else do return ⟨false, code⟩ :: (← signs rest)

/-! ## Lengths -/

/-- The least and the greatest length of what a part matches. -/
structure Width where
  least : Nat
  greatest : Nat
  deriving DecidableEq, Repr

namespace Width

def zero : Width := ⟨0, 0⟩

def one : Width := ⟨1, 1⟩

/-- Lengths are not told apart from here on. -/
def bound : Nat := 0x10000000000000000

def add (a b : Width) : Width :=
  ⟨min (a.least + b.least) bound, min (a.greatest + b.greatest) bound⟩

def either (a b : Width) : Width := ⟨min a.least b.least, max a.greatest b.greatest⟩

/-- The length of `low` up to `high` repetitions, or of `low` and more. -/
def times (a : Width) (low : Nat) (high : Option Nat) : Width :=
  let greatest := match high with
    | some high => a.greatest * high
    | none => if a.greatest = 0 then 0 else bound
  ⟨min (a.least * low) bound, min greatest bound⟩

end Width

/-! ## Items -/

/-- What a quantifier finds in front of it. -/
inductive ItemKind where
  /-- A place, which cannot be repeated. -/
  | anchor
  /-- A repetition, which cannot be repeated again. -/
  | repetition
  | plain
  deriving DecidableEq, Repr

structure Item where
  kind : ItemKind
  width : Width
  deriving DecidableEq, Repr

namespace Item

def anchor : Item := ⟨.anchor, Width.zero⟩

def unit : Item := ⟨.plain, Width.one⟩

def plain (w : Width) : Item := ⟨.plain, w⟩

end Item

/-- The items of a sequence: the length of all but the last, and the last. -/
structure Items where
  before : Width := Width.zero
  last : Option Item := none
  deriving DecidableEq, Repr

namespace Items

def width (items : Items) : Width :=
  items.before.add ((items.last.map Item.width).getD Width.zero)

def push (items : Items) (item : Item) : Items := ⟨items.width, some item⟩

end Items

/-! ## The state of the check -/

/-- What is left to check, and the groups that were met. -/
structure Survey where
  rest : List Sign
  /-- The lengths of the groups in the order of their opening; an open group has none yet. -/
  groups : List (Option Width) := []
  names : List (List Nat × Nat) := []
  /-- The number of the first group of the outermost look behind. -/
  behind : Option Nat := none
  /-- The groups that conditions name. -/
  wanted : List Nat := []
  /-- The flags that hold everywhere. -/
  flags : List Char := []
  deriving Repr

abbrev Checker := StateT Survey Option

/-- The number that the next group will have. -/
def Survey.nextGroup (s : Survey) : Nat := s.groups.length + 1

/-- The length of a group that is closed. -/
def Survey.closed? (s : Survey) (group : Nat) : Option Width :=
  if group = 0 then none else (s.groups[group - 1]?).join

def peek? : Checker (Option Sign) := do return (← get).rest.head?

/-- The next sign, of which there must be one. -/
def next : Checker Sign := do
  let s ← get
  match s.rest with
  | [] => failure
  | sign :: rest =>
    set { s with rest := rest }
    return sign

/-- Reads this character if it is next. -/
def accept (c : Char) : Checker Bool := do
  let s ← get
  match s.rest with
  | sign :: rest =>
    if sign.is c then
      set { s with rest := rest }
      return true
    else return false
  | [] => return false

def expect (c : Char) : Checker Unit := do
  if ← accept c then return else failure

/-- Reads at most so many characters of a class. -/
def takeUpTo (p : Char → Bool) : (count : Nat) → Checker (List Char)
  | 0 => return []
  | count + 1 => do
    let s ← get
    match s.rest with
    | sign :: rest =>
      let c := Char.ofNat sign.code
      if !sign.escaped && p c then
        set { s with rest := rest }
        return c :: (← takeUpTo p count)
      else return []
    | [] => return []

/-- Reads characters of a class. -/
def takeWhile (p : Char → Bool) : Checker (List Char) := do takeUpTo p (← get).rest.length

def isOctalDigit (c : Char) : Bool := '0' ≤ c && c ≤ '7'

/-- A name up to a character, which is read too. -/
def nameBefore (stop : Char) : (fuel : Nat) → Checker (List Nat)
  | 0 => failure
  | fuel + 1 => do
    let sign ← next
    if sign.is stop then return []
    else if sign.escaped then failure
    else return sign.code :: (← nameBefore stop fuel)

/-- A name up to a character; it must not be empty. -/
def nameUntil (stop : Char) : Checker (List Nat) := do
  let name ← nameBefore stop ((← get).rest.length + 1)
  if name.isEmpty then failure else return name

/-- Is this the name of a group? -/
def isGroupName (name : List Nat) : Bool :=
  match name.map Char.ofNat with
  | [] => false
  | c :: rest => c != '$' && Unicode.isIdStart c && rest.all fun c => c != '$' && Unicode.isIdPart c

/-! ## Groups -/

/-- A group may be named inside a look behind only if it was closed before. -/
def checkBehind (group : Nat) : Checker Unit := do
  let s ← get
  match s.behind with
  | none => return
  | some first => if (s.closed? group).isSome && group < first then return else failure

/-- What a closed group matched. -/
def reference (group : Nat) : Checker Item := do
  let some w := (← get).closed? group | failure
  checkBehind group
  return .plain w

/-- Opens a group and gives its number. -/
def openGroup (name : Option (List Nat)) : Checker Nat := do
  let s ← get
  let group := s.nextGroup
  match name with
  | none => set { s with groups := s.groups ++ [none] }
  | some name =>
    if (s.names.lookup name).isSome then failure
    set { s with groups := s.groups ++ [none], names := (name, group) :: s.names }
  return group

def closeGroup (group : Nat) (w : Width) : Checker Unit :=
  modify fun s => { s with groups := s.groups.set (group - 1) (some w) }

/-! ## Escapes -/

/-- A code of a fixed number of hexadecimal digits. -/
def hexCode (width : Nat) : Checker Nat := do
  let digits ← takeUpTo isHexDigit width
  if digits.length ≠ width || 0x10ffff < hexNumber digits then failure
  else return hexNumber digits

def octalNumber (digits : List Char) : Nat := (IntegerText.positional? 8 0 digits).getD 0

/-- The letters that stand for a control character behind a backslash. -/
def isControlLetter (c : Char) : Bool := "afnrtv".toList.contains c

/-- The letters that stand for a class behind a backslash. -/
def isClassLetter (c : Char) : Bool := "dDsSwW".toList.contains c

/-- An escape that gives its code in digits, if it is one. -/
def numericEscape? (c : Char) : Option (Checker Nat) :=
  match c with
  | 'x' => some (hexCode 2)
  | 'u' => some (hexCode 4)
  | 'U' => some (hexCode 8)
  | _ => none

/-- Two digits name a group, three octal ones a character. -/
def digitEscape (first : Char) : Checker Item := do
  let more ← takeUpTo Char.isDigit 1
  let digits := first :: more
  let last ←
    if more.length = 1 && digits.all isOctalDigit then takeUpTo isOctalDigit 1 else pure []
  if last.length = 1 then
    if 0o377 < octalNumber (digits ++ last) then failure else return .unit
  else reference ((IntegerText.positional? 10 0 digits).getD 0)

/-- What an escaped character stands for. -/
def escape (code : Nat) : Checker Item := do
  let c := Char.ofNat code
  if "AbBZ".toList.contains c then return .anchor
  else if isClassLetter c || isControlLetter c then return .unit
  else if c == '0' then
    let _ ← takeUpTo isOctalDigit 2
    return .unit
  else if c.isDigit then digitEscape c
  else
    match numericEscape? c with
    | some read =>
      let _ ← read
      return .unit
    | none => if c.isAlpha then failure else return .unit

/-- What an escaped character stands for in a class: a code, or none for a class of its own. -/
def classEscape (code : Nat) : Checker (Option Nat) := do
  let c := Char.ofNat code
  if isClassLetter c then return none
  else if c == 'b' || isControlLetter c then return some (if c == 'a' then 7 else
    if c == 'b' then 8 else if c == 't' then 9 else if c == 'n' then 10 else
    if c == 'v' then 11 else if c == 'f' then 12 else 13)
  else if isOctalDigit c then
    let more ← takeUpTo isOctalDigit 2
    if 0o377 < octalNumber (c :: more) then failure else return some (octalNumber (c :: more))
  else
    match numericEscape? c with
    | some read => return some (← read)
    | none => if c.isAlphanum then failure else return some code

/-! ## Character classes -/

/-- An end of a range; none if it is a class of its own. -/
def rangeEnd (sign : Sign) : Checker (Option Nat) :=
  if sign.escaped then classEscape sign.code else return some sign.code

/-- The rest of a character class.  A closing bracket that comes first is a member. -/
def characterClass : (fuel : Nat) → (isFirst : Bool) → Checker Unit
  | 0, _ => failure
  | fuel + 1, isFirst => do
    let sign ← next
    if sign.is ']' && !isFirst then return
    let low ← rangeEnd sign
    if ← accept '-' then
      let sign ← next
      if sign.is ']' then return
      match low, ← rangeEnd sign with
      | some low, some high => if high < low then failure else characterClass fuel false
      | _, _ => failure
    else characterClass fuel false

/-! ## Quantifiers -/

/-- So many repetitions cannot be asked for. -/
def repeatBound : Nat := 0xffffffff

/-- The numbers of a quantifier; its first character has been read.  A brace that opens no quantifier
gives none. -/
def quantifier (sign : Sign) : Checker (Option (Nat × Option Nat)) := do
  if sign.is '?' then return some (0, some 1)
  else if sign.is '*' then return some (0, none)
  else if sign.is '+' then return some (1, none)
  else
    let s ← get
    if (s.rest.head?.map (Sign.is · '}')).getD false then return none
    let low ← takeWhile Char.isDigit
    let high ← if ← accept ',' then takeWhile Char.isDigit else pure low
    if ← accept '}' then
      let least := (IntegerText.positional? 10 0 low).getD 0
      let greatest := (IntegerText.positional? 10 0 high).getD 0
      if repeatBound ≤ least || repeatBound ≤ greatest then failure
      if high.isEmpty then return some (least, none)
      if greatest < least then failure
      return some (least, some greatest)
    else
      set s
      return none

/-- Repeats the last item. -/
def repeatLast (items : Items) (low : Nat) (high : Option Nat) : Checker Items := do
  match items.last with
  | some ⟨.plain, w⟩ =>
    if !(← accept '?') then let _ ← accept '+'
    return { items with last := some ⟨.repetition, w.times low high⟩ }
  | _ => failure

/-! ## Flags inside a body -/

def isFlagLetter (c : Char) : Bool := "iLmsxatu".toList.contains c

/-- Flags that say how characters are classified. -/
def isTypeFlag (c : Char) : Bool := "aLu".toList.contains c

/-- The flags that are switched off, up to the colon. -/
def flagsOff : (fuel : Nat) → Char → Checker (List Char)
  | 0, _ => failure
  | fuel + 1, c => do
    if !isFlagLetter c || isTypeFlag c || c == 't' then failure
    let sign ← next
    if sign.is ':' then return [c]
    else if sign.escaped then failure
    else return c :: (← flagsOff fuel (Char.ofNat sign.code))

/-- The flags that are switched on, and the character behind them. -/
def flagsOn : (fuel : Nat) → Char → Checker (List Char × Char)
  | 0, _ => failure
  | fuel + 1, c => do
    if !isFlagLetter c || c == 'L' then failure
    let sign ← next
    if sign.isOneOf ")-:" then return ([c], Char.ofNat sign.code)
    else if sign.escaped then failure
    else
      let (more, stop) ← flagsOn fuel (Char.ofNat sign.code)
      return (c :: more, stop)

/-- What flags switch on: everywhere, or in the group that follows. -/
inductive FlagScope where
  | everywhere (on : List Char)
  | inGroup (on off : List Char)
  deriving DecidableEq, Repr

/-- The flags of which the first character has been read. -/
def readFlags (first : Char) : Checker FlagScope := do
  let fuel := (← get).rest.length + 1
  let (on, stop) ← if first == '-' then pure ([], '-') else flagsOn fuel first
  if on.contains 'a' && on.contains 'u' then failure
  if stop == ')' then return .everywhere on
  if on.contains 't' then failure
  if stop == '-' then
    let sign ← next
    if sign.escaped then failure
    let off ← flagsOff fuel (Char.ofNat sign.code)
    if on.any off.contains then failure
    return .inGroup on off
  else return .inGroup on []

/-! ## The grammar -/

/-- How the inside of a group starts. -/
inductive GroupForm where
  /-- A comment or flags, of which nothing is left. -/
  | nothing
  /-- A reference by name. -/
  | item (i : Item)
  | capture (name : Option (List Nat))
  /-- A group that is not numbered, with the flags of its own. -/
  | grouping (on off : List Char)
  | ahead
  | behind
  | condition (group : Nat)

/-- The number of the group that a condition names. -/
def conditionGroup : Checker Nat := do
  let name ← nameUntil ')'
  let group ←
    if isGroupName name then
      match (← get).names.lookup name with
      | some group => pure group
      | none => failure
    else
      match IntegerText.read? 10 (name.map Char.ofNat) with
      | some n =>
        if n ≤ 0 then failure
        modify fun s => { s with wanted := n.toNat :: s.wanted }
        pure n.toNat
      | none => failure
  checkBehind group
  return group

/-- A group whose name is marked with a `P`. -/
def namedForm : Checker GroupForm := do
  if ← accept '<' then
    let name ← nameUntil '>'
    if isGroupName name then return .capture (some name) else failure
  else if ← accept '=' then
    let name ← nameUntil ')'
    match (← get).names.lookup name with
    | some group => return .item (← reference group)
    | none => failure
  else failure

/-- Past a comment. -/
def skipComment : Checker Unit := do
  let s ← get
  match s.rest.dropWhile (fun sign => !sign.is ')') with
  | [] => failure
  | _ :: rest => set { s with rest := rest }

/-- The start of a group; its parenthesis has been read.  Flags for everywhere may stand only at the
start of the body. -/
def groupForm (atStart : Bool) : Checker GroupForm := do
  if !(← accept '?') then return .capture none
  let sign ← next
  if sign.escaped then failure
  match Char.ofNat sign.code with
  | 'P' => namedForm
  | ':' => return .grouping [] []
  | '>' => return .grouping [] []
  | '#' =>
    skipComment
    return .nothing
  | '=' => return .ahead
  | '!' => return .ahead
  | '<' =>
    let sign ← next
    if sign.isOneOf "=!" then return .behind else failure
  | '(' => return .condition (← conditionGroup)
  | c =>
    if isFlagLetter c || c == '-' then
      match ← readFlags c with
      | .inGroup on off => return .grouping on off
      | .everywhere on =>
        if !atStart then failure
        modify fun s => { s with flags := on ++ s.flags }
        return .nothing
    else failure

/-- Reads what stands behind a place, inside of which groups of its own cannot be named. -/
def lookingBehind (inner : Checker Width) : Checker Width := do
  let outer := (← get).behind
  modify fun s => { s with behind := outer <|> some s.nextGroup }
  let w ← inner
  modify fun s => { s with behind := outer }
  if w.least ≠ w.greatest || 0xffffffff < w.least then failure
  return w

def isSpace (sign : Sign) : Bool := sign.isOneOf " \t\n\r\x0b\x0c"

/-- Past a note that ends with its line. -/
def skipNote : Checker Unit :=
  modify fun s => { s with rest := (s.rest.dropWhile fun sign => !sign.is '\n').drop 1 }

mutual

/-- Alternatives; `spaced` says that blanks do not count, and `top` that nothing is around them. -/
def alternation : (fuel : Nat) → (spaced top : Bool) → Checker Width
  | 0, _, _ => failure
  | fuel + 1, spaced, top => do
    let w ← sequence fuel spaced top {}
    alternatives fuel spaced top w

/-- The alternatives behind the first ones. -/
def alternatives : (fuel : Nat) → (spaced top : Bool) → Width → Checker Width
  | 0, _, _, _ => failure
  | fuel + 1, spaced, top, w => do
    if ← accept '|' then
      let everywhere := (← get).flags.contains 'x'
      let spaced := if top then everywhere else spaced
      let v ← sequence fuel spaced false {}
      alternatives fuel spaced top (w.either v)
    else return w

/-- The items of one alternative; `first` says that it starts the body. -/
def sequence : (fuel : Nat) → (spaced first : Bool) → Items → Checker Width
  | 0, _, _, _ => failure
  | fuel + 1, spaced, first, items => do
    match ← peek? with
    | none => return items.width
    | some sign =>
      if sign.isOneOf "|)" then return items.width
      let _ ← next
      if spaced && isSpace sign then sequence fuel spaced first items
      else if spaced && sign.is '#' then
        skipNote
        sequence fuel spaced first items
      else if sign.escaped then sequence fuel spaced first (items.push (← escape sign.code))
      else if sign.is '[' then
        let _ ← accept '^'
        characterClass ((← get).rest.length + 1) true
        sequence fuel spaced first (items.push .unit)
      else if sign.isOneOf "*+?\x7b" then
        match ← quantifier sign with
        | some (low, high) => sequence fuel spaced first (← repeatLast items low high)
        | none => sequence fuel spaced first (items.push .unit)
      else if sign.isOneOf "^$" then sequence fuel spaced first (items.push .anchor)
      else if sign.is '(' then
        let form ← groupForm (first && items.last.isNone)
        match ← groupRest fuel spaced form with
        | some item => sequence fuel spaced first (items.push item)
        | none =>
          let everywhere := (← get).flags.contains 'x'
          sequence fuel (if first && items.last.isNone then spaced || everywhere else spaced) first
            items
      else sequence fuel spaced first (items.push .unit)

/-- The inside of a group and its end. -/
def groupRest : (fuel : Nat) → (spaced : Bool) → GroupForm → Checker (Option Item)
  | 0, _, _ => failure
  | fuel + 1, spaced, form => do
    match form with
    | .nothing => return none
    | .item i => return some i
    | .capture name =>
      let group ← openGroup name
      let w ← alternation fuel spaced false
      expect ')'
      closeGroup group w
      return some (.plain w)
    | .grouping on off =>
      let w ← alternation fuel ((spaced || on.contains 'x') && !off.contains 'x') false
      expect ')'
      return some (.plain w)
    | .ahead =>
      let _ ← alternation fuel spaced false
      expect ')'
      return some (.plain Width.zero)
    | .behind =>
      let _ ← lookingBehind (alternation fuel spaced false)
      expect ')'
      return some (.plain Width.zero)
    | .condition _ =>
      let yes ← sequence fuel spaced false {}
      let w ← if ← accept '|' then pure (yes.either (← sequence fuel spaced false {}))
        else pure (yes.either Width.zero)
      expect ')'
      return some (.plain w)

end

/-- A whole body: nothing is left over, and the groups that conditions name exist. -/
def body : Checker Unit := do
  let _ ← alternation (4 * ((← get).rest.length + 2)) false true
  let s ← get
  if !s.rest.isEmpty || s.wanted.any (fun group => s.nextGroup ≤ group) ||
      (s.flags.contains 'a' && s.flags.contains 'u') then failure

/-- Does the body of a regular expression have a meaning? -/
def isWellFormed (cs : List Char) : Bool :=
  match (units cs).bind signs with
  | some rest => (body.run { rest := rest }).isSome
  | none => false

end Descramble.Source.Regex

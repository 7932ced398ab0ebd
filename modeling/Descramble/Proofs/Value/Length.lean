import Descramble.Proofs.Number.Spelling

/-!
# Texts within the limit

Only concatenation, `concat` and `join` measure the text that they make.  Most other operations cannot
make a text longer than those that they are given; what is left over are the changes of case, the
conversion of an array to text, and the characters made from codes.

* `Text.Short`, `Value.Short` — no text is longer than the limit.
* `Value.IsScalar` — the value is neither a text nor an array, and so has no text in it.
* `BinaryOp.apply_short`, `UnaryOp.apply_short` — operators, whatever they are given.
* `Builtin.apply_short`, `Value.callMethod_short`, `Value.member_short` — functions, methods and members.
-/

set_option autoImplicit false

namespace Descramble

/-! ## Texts -/

namespace Text

/-- The text is not longer than the limit. -/
def Short (cs : List Char) : Prop := cs.length ≤ maxTextLength

instance (cs : List Char) : Decidable (Short cs) :=
  inferInstanceAs (Decidable (cs.length ≤ maxTextLength))

theorem Short.mono {cs ds : List Char} (h : Short ds) (hle : cs.length ≤ ds.length) : Short cs :=
  Nat.le_trans hle h

/-- A piece is not longer than what has been read of it together with what is still to be read. -/
theorem length_le_of_mem_splitScan {separator : List Char} {skip : Nat} {piece cs : List Char} :
    ∀ p ∈ splitScan separator skip piece cs, p.length ≤ piece.length + cs.length := by
  fun_induction splitScan separator skip piece cs with
  | case1 skip piece =>
      intro p hp
      rw [List.mem_singleton.mp hp, List.length_reverse]
      exact Nat.le_add_right _ _
  | case2 piece skip c rest ih =>
      intro p hp
      have := ih p hp
      rw [List.length_cons]
      omega
  | case3 piece c rest hstart ih =>
      intro p hp
      rw [List.length_cons]
      rcases List.mem_cons.mp hp with rfl | hp
      · rw [List.length_reverse]
        omega
      · have := ih p hp
        rw [List.length_nil] at this
        omega
  | case4 piece c rest hstart ih =>
      intro p hp
      have := ih p hp
      simp only [List.length_cons] at this ⊢
      omega

theorem length_trim_le (drop : Char → Bool) (cs : List Char) : (trim drop cs).length ≤ cs.length := by
  unfold trim
  rw [List.length_reverse]
  refine Nat.le_trans (List.dropWhile_sublist drop).length_le ?_
  rw [List.length_reverse]
  exact (List.dropWhile_sublist drop).length_le

end Text

/-! ## Values -/

namespace Value

mutual

/-- No text in the value is longer than the limit. -/
def Short : Value → Prop
  | .text s => Text.Short s.toList
  | .array items => ShortItems items
  | _ => True

def ShortItems : List Value → Prop
  | [] => True
  | v :: rest => Short v ∧ ShortItems rest

end

theorem shortItems_cons {v : Value} {rest : List Value} :
    ShortItems (v :: rest) ↔ v.Short ∧ ShortItems rest := Iff.rfl

theorem shortItems_iff : ∀ {items : List Value}, ShortItems items ↔ ∀ v ∈ items, Short v
  | [] => iff_of_true trivial (by simp)
  | v :: rest => by rw [shortItems_cons, shortItems_iff, List.forall_mem_cons]

@[simp] theorem short_text {s : String} : (text s).Short ↔ Text.Short s.toList := Iff.rfl

@[simp] theorem short_array {items : List Value} : (array items).Short ↔ ∀ v ∈ items, v.Short :=
  shortItems_iff

theorem short_ofList {cs : List Char} (h : Text.Short cs) : (text (String.ofList cs)).Short := by
  rw [short_text, String.toList_ofList]
  exact h

/-- The value is neither a text nor an array. -/
def IsScalar : Value → Prop
  | .text _ => False
  | .array _ => False
  | _ => True

theorem IsScalar.short {v : Value} (h : v.IsScalar) : v.Short := by
  cases v with
  | text s => exact h.elim
  | array items => exact h.elim
  | _ => trivial

theorem ensures_short_of_scalar {r : Except Fault Value} (h : Ensures IsScalar r) : Ensures Short r :=
  fun v hv => (h v hv).short

/-- The text of a value other than an array is not longer than the limit. -/
theorem toText_short {v : Value} (h : v.Short) (harray : v.isArray = false) :
    Ensures (fun s => Text.Short s.toList) v.toText := by
  cases v with
  | undefined => exact Ensures.ok (by decide)
  | null => exact Ensures.ok (by decide)
  | bool b => cases b <;> exact Ensures.ok (by decide)
  | number n =>
      intro s hs
      rw [Text.Short, String.length_toList]
      exact n.length_text_le s hs
  | text s => exact Ensures.ok (short_text.mp h)
  | array items => cases harray
  | foreign => exact Ensures.error _

/-! ## Operators -/

theorem checkedText_short (cs : List Char) : Ensures Short (checkedText cs) := by
  unfold checkedText
  split
  · exact Ensures.error _
  · rename_i h
    exact Ensures.ok (short_ofList (Nat.le_of_not_lt h))

theorem arithmetic_scalar (op : Double → Double → Double) (left right : Value) :
    Ensures IsScalar (arithmetic op left right) :=
  Ensures.andThen fun _ => Ensures.andThen fun _ => Ensures.ok trivial

theorem bitwise_scalar (op : Int → Int → Int) (left right : Value) :
    Ensures IsScalar (bitwise op left right) :=
  Ensures.andThen fun _ => Ensures.andThen fun _ => Ensures.ok trivial

theorem power_scalar (left right : Value) : Ensures IsScalar (left.power right) := by
  refine Ensures.andThen fun base => Ensures.andThen fun exponent => ?_
  split
  · exact Ensures.error _
  · split <;> exact Ensures.ok trivial

/-- A concatenation is measured, however long its sides are. -/
theorem add_short (left right : Value) : Ensures Short (left.add right) := by
  refine Ensures.andThen fun l => Ensures.andThen fun r => ?_
  split
  · exact Ensures.andThen fun a => Ensures.andThen fun b => checkedText_short _
  · exact ensures_short_of_scalar (arithmetic_scalar _ _ _)

end Value

theorem BinaryOp.apply_scalar {op : BinaryOp} (hop : op ≠ .add) (left right : Value) :
    Ensures Value.IsScalar (op.apply left right) := by
  cases op with
  | add => exact absurd rfl hop
  | sub => exact Value.arithmetic_scalar _ _ _
  | mul => exact Value.arithmetic_scalar _ _ _
  | div => exact Value.arithmetic_scalar _ _ _
  | mod => exact Value.arithmetic_scalar _ _ _
  | power => exact Value.power_scalar _ _
  | bitAnd => exact Value.bitwise_scalar _ _ _
  | bitOr => exact Value.bitwise_scalar _ _ _
  | bitXor => exact Value.bitwise_scalar _ _ _
  | shiftLeft => exact Ensures.andThen fun _ => Ensures.andThen fun _ => Ensures.ok trivial
  | shiftRight => exact Ensures.andThen fun _ => Ensures.andThen fun _ => Ensures.ok trivial
  | shiftRightUnsigned => exact Ensures.andThen fun _ => Ensures.andThen fun _ => Ensures.ok trivial
  | strictEq => exact Ensures.andThen fun _ => Ensures.ok trivial
  | strictNe => exact Ensures.andThen fun _ => Ensures.ok trivial
  | looseEq => exact Ensures.andThen fun _ => Ensures.ok trivial
  | looseNe => exact Ensures.andThen fun _ => Ensures.ok trivial
  | relation r => exact Ensures.andThen fun _ => Ensures.ok trivial

/-- **The result of a binary operator has no text beyond the limit**, whatever the operands are. -/
theorem BinaryOp.apply_short (op : BinaryOp) (left right : Value) :
    Ensures Value.Short (op.apply left right) := by
  by_cases hop : op = .add
  · subst hop
    exact Value.add_short left right
  · exact Value.ensures_short_of_scalar (apply_scalar hop left right)

theorem Value.typeName_short (v : Value) : Ensures (fun s => Text.Short s.toList) v.typeName := by
  cases v with
  | foreign => exact Ensures.error _
  | _ => exact Ensures.ok (by decide)

theorem UnaryOp.apply_short (op : UnaryOp) (v : Value) : Ensures Value.Short (op.apply v) := by
  have hscalar : ∀ w : Value, w.IsScalar → Ensures Value.Short (.ok w) :=
    fun w hw => Ensures.ok hw.short
  cases op with
  | neg => exact Ensures.andThen fun _ => hscalar _ trivial
  | pos => exact Ensures.andThen fun _ => hscalar _ trivial
  | not => exact Ensures.andThen fun _ => hscalar _ trivial
  | bitNot => exact Ensures.andThen fun _ => hscalar _ trivial
  | typeOf => exact Ensures.bind v.typeName_short fun s hs => Ensures.ok (Value.short_text.mpr hs)
  | void => exact hscalar _ trivial

/-! ## Functions, methods and members -/

theorem MathFunction.apply_scalar (f : MathFunction) (args : List Value) :
    Ensures Value.IsScalar (f.apply args) := by
  cases f with
  | pow => exact Value.power_scalar _ _
  | _ => exact Ensures.andThen fun _ => Ensures.andThen fun _ => Ensures.ok trivial

/-- **A global function makes no text beyond the limit**, unless it writes an array or characters with
given codes. -/
theorem Builtin.apply_short {f : Builtin} {args : List Value} (hcodes : f ≠ .fromCharCode)
    (harray : f = .string → ∀ items rest, args ≠ .array items :: rest)
    (hargs : ∀ v ∈ args, v.Short) : Ensures Value.Short (f.apply args) := by
  have hscalar : ∀ w : Value, w.IsScalar → Ensures Value.Short (.ok w) :=
    fun w hw => Ensures.ok hw.short
  cases f with
  | parseInt =>
      refine Ensures.andThen fun s => ?_
      split
      · exact hscalar _ trivial
      · exact Ensures.andThen fun _ => hscalar _ trivial
  | parseFloat => exact Ensures.andThen fun _ => hscalar _ trivial
  | number =>
      cases args with
      | nil => exact hscalar _ trivial
      | cons v args => exact Ensures.andThen fun _ => hscalar _ trivial
  | string =>
      cases args with
      | nil => exact Ensures.ok (Value.short_text.mpr (by decide))
      | cons v args =>
          have hv : v.isArray = false := by
            cases v with
            | array items => exact absurd rfl (harray rfl items args)
            | _ => rfl
          exact Ensures.bind (Value.toText_short (hargs v List.mem_cons_self) hv) fun s hs =>
            Ensures.ok (Value.short_text.mpr hs)
  | boolean =>
      cases args with
      | nil => exact hscalar _ trivial
      | cons v args => exact Ensures.andThen fun _ => hscalar _ trivial
  | isNaN => exact Ensures.andThen fun _ => hscalar _ trivial
  | isFinite => exact Ensures.andThen fun _ => hscalar _ trivial
  | math f => exact Value.ensures_short_of_scalar (f.apply_scalar args)
  | fromCharCode => exact absurd rfl hcodes

namespace Value

theorem length_between_le {α : Type} (start stop : Nat) (xs : List α) :
    (between start stop xs).length ≤ xs.length := by
  simp only [between, List.length_drop, List.length_take]
  omega

theorem slice_length {α : Type} (xs : List α) (start stop : Value) :
    Ensures (fun part : List α => part.length ≤ xs.length) (Value.slice xs start stop) :=
  Ensures.andThen fun _ => Ensures.andThen fun _ => Ensures.ok (length_between_le _ _ xs)

theorem substring_length (cs : List Char) (start stop : Value) :
    Ensures (fun part : List Char => part.length ≤ cs.length) (Value.substring cs start stop) :=
  Ensures.andThen fun _ => Ensures.andThen fun _ => Ensures.ok (length_between_le _ _ cs)

theorem pieces_short {cs : List Char} (h : Text.Short cs) (separator : Value) :
    Ensures (fun parts => ∀ p ∈ parts, Text.Short p) (pieces cs separator) := by
  unfold pieces
  split
  · exact Ensures.ok (by simpa using h)
  · refine Ensures.andThen fun s => Ensures.ok ?_
    split
    · intro p hp
      obtain ⟨c, -, rfl⟩ := List.mem_map.mp hp
      exact (by decide : 1 ≤ maxTextLength)
    · intro p hp
      refine h.mono ?_
      simpa using Text.length_le_of_mem_splitScan p hp

theorem split_short {cs : List Char} (h : Text.Short cs) (separator limit : Value) :
    Ensures Short (Value.split cs separator limit) := by
  refine Ensures.bind (pieces_short h separator) fun parts hparts => ?_
  have harray : ∀ kept : List (List Char), kept ⊆ parts →
      (Value.array (kept.map fun p => .text (String.ofList p))).Short := by
    intro kept hkept
    rw [short_array]
    intro v hv
    obtain ⟨p, hp, rfl⟩ := List.mem_map.mp hv
    exact short_ofList (hparts p (hkept hp))
  split
  · exact Ensures.ok (harray parts (List.Subset.refl _))
  · refine Ensures.andThen fun n => ?_
    exact Ensures.ok (harray _ (List.take_subset n parts))

theorem ofPlace_scalar (place : Option Nat) : (ofPlace place).IsScalar := by
  unfold ofPlace
  split <;> trivial

/-- **The methods of texts make no longer texts**, the changes of case apart. -/
theorem TextMethod.apply_short {m : TextMethod} (hupper : m ≠ .toUpperCase) (hlower : m ≠ .toLowerCase)
    {cs : List Char} (h : Text.Short cs) (args : List Value) : Ensures Short (m.apply cs args) := by
  unfold TextMethod.apply
  split
  · exact Ensures.error _
  · cases m with
    | charAt =>
        refine Ensures.andThen fun found => ?_
        split
        · exact Ensures.ok (short_ofList (by decide : 1 ≤ maxTextLength))
        · exact Ensures.ok (short_text.mpr (by decide))
    | charCodeAt =>
        refine Ensures.andThen fun found => ?_
        split <;> exact Ensures.ok (IsScalar.short trivial)
    | toUpperCase => exact absurd rfl hupper
    | toLowerCase => exact absurd rfl hlower
    | slice =>
        exact Ensures.bind (slice_length cs _ _) fun part hpart =>
          Ensures.ok (short_ofList (h.mono hpart))
    | substring =>
        exact Ensures.bind (substring_length cs _ _) fun part hpart =>
          Ensures.ok (short_ofList (h.mono hpart))
    | indexOf =>
        exact Ensures.andThen fun i => Ensures.andThen fun s => Ensures.ok (ofPlace_scalar _).short
    | trim => exact Ensures.ok (short_ofList (h.mono (Text.length_trim_le _ cs)))
    | concat => exact Ensures.andThen fun parts => checkedText_short _
    | split => exact split_short h _ _

theorem join_short (items : List Value) (separator : Value) : Ensures Short (join items separator) := by
  have hjoin : ∀ s : String, Ensures Short
      (do let parts ← itemTexts items; checkedText (Text.joinWith s.toList parts)) :=
    fun s => Ensures.andThen fun parts => checkedText_short _
  unfold join
  split
  · exact hjoin ","
  · exact Ensures.andThen hjoin

theorem ArrayMethod.apply_short (m : ArrayMethod) {items : List Value}
    (hitems : ∀ v ∈ items, v.Short) (args : List Value) : Ensures Short (m.apply items args) := by
  unfold ArrayMethod.apply
  split
  · exact Ensures.error _
  · cases m with
    | join => exact join_short _ _
    | indexOf =>
        exact Ensures.andThen fun i => Ensures.andThen fun place =>
          Ensures.ok (ofPlace_scalar _).short
    | slice =>
        exact Ensures.bind (slice_subset items _ _) fun part hpart =>
          Ensures.ok (short_array.mpr fun v hv => hitems v (hpart hv))

/-- Does a method change the case of a text? -/
def ChangesCase (name : String) : Prop := name = "toUpperCase" ∨ name = "toLowerCase"

theorem changesCase_of_ofName? {name : String} {m : TextMethod} (h : TextMethod.ofName? name = some m)
    (hm : m = .toUpperCase ∨ m = .toLowerCase) : ChangesCase name := by
  unfold TextMethod.ofName? at h
  split at h <;> cases h
  case h_3 => exact Or.inl rfl
  case h_4 => exact Or.inr rfl
  all_goals rcases hm with hm | hm <;> cases hm

/-- **A method call makes no text beyond the limit**, unless it changes the case of a text. -/
theorem callMethod_short {receiver : Value} {name : String}
    (hname : receiver.isText = true → ¬ ChangesCase name) (h : receiver.Short) (args : List Value) :
    Ensures Short (receiver.callMethod name args) := by
  unfold callMethod
  split
  · split
    · rename_i m hm
      refine TextMethod.apply_short ?_ ?_ (short_text.mp h) args
      · exact fun hupper => hname rfl (changesCase_of_ofName? hm (Or.inl hupper))
      · exact fun hlower => hname rfl (changesCase_of_ofName? hm (Or.inr hlower))
    · exact Ensures.error _
  · split
    · exact ArrayMethod.apply_short _ (short_array.mp h) args
    · exact Ensures.error _
  · exact Ensures.error _

theorem member_short {receiver : Value} (key : Value) (h : receiver.Short) :
    Ensures Short (receiver.member key) := by
  have hmember : ∀ (length : Nat) (item : Nat → Option Value) (word : String),
      (∀ i v, item i = some v → v.Short) → Ensures Short (memberOf length item word) := by
    intro length item word hitem
    unfold memberOf
    split
    · exact Ensures.ok (IsScalar.short trivial)
    · refine Ensures.andThen fun index => ?_
      split
      · rename_i i
        refine Ensures.ok ?_
        cases hi : item i with
        | none => exact IsScalar.short trivial
        | some v => exact hitem i v hi
      · exact Ensures.error _
  unfold member
  split
  · refine Ensures.andThen fun word => hmember _ _ word fun i v hv => ?_
    obtain ⟨c, -, rfl⟩ := Option.map_eq_some_iff.mp hv
    exact short_ofList (by decide : 1 ≤ maxTextLength)
  · refine Ensures.andThen fun word => hmember _ _ word fun i v hv => ?_
    exact short_array.mp h v (List.mem_of_getElem? hv)
  · exact Ensures.error _

end Value

end Descramble

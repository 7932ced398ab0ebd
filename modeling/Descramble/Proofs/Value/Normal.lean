import Descramble.Proofs.Number.Exact
import Descramble.Value.Builtin
import Descramble.Value.Method

/-!
# Values up to the form of their numbers

A small whole number can be held as an exact integer or as a double.  No operation tells the two
apart.

* `Value.normal` — the value with all numbers in normal form.
* `Value.toText_normal`, `Value.toDouble_normal`, `Value.truthy_normal`, … — the conversions.
* `BinaryOp.apply_normal`, `UnaryOp.apply_normal` — the operators.
* `Builtin.apply_normal`, `Value.callMethod_normal`, `Value.member_normal` — functions, methods and
  members; what they return is the same up to the form of numbers.
-/

set_option autoImplicit false

namespace Descramble

namespace Value

mutual

/-- The value with all numbers in normal form. -/
def normal : Value → Value
  | .number n => .number n.normalize
  | .array items => .array (normalItems items)
  | v => v

def normalItems : List Value → List Value
  | [] => []
  | v :: rest => normal v :: normalItems rest

end

theorem normalItems_cons (v : Value) (rest : List Value) :
    normalItems (v :: rest) = v.normal :: normalItems rest := rfl

theorem normalItems_eq_map : ∀ items : List Value, normalItems items = items.map normal
  | [] => rfl
  | v :: rest => by rw [normalItems_cons, normalItems_eq_map rest, List.map_cons]

@[simp] theorem normal_array (items : List Value) :
    (array items).normal = .array (items.map normal) :=
  congrArg array (normalItems_eq_map items)

@[simp] theorem normal_number (n : Number) : (number n).normal = .number n.normalize := rfl

@[simp] theorem normal_text (s : String) : (text s).normal = .text s := rfl

@[simp] theorem normal_bool (b : Bool) : (bool b).normal = .bool b := rfl

@[simp] theorem normal_undefined : undefined.normal = .undefined := rfl

@[simp] theorem normal_null : null.normal = .null := rfl

@[simp] theorem normal_foreign : foreign.normal = .foreign := rfl

mutual

@[simp] theorem normal_normal : ∀ v : Value, v.normal.normal = v.normal
  | .undefined => by simp
  | .null => by simp
  | .bool b => by simp
  | .number n => by simp
  | .text s => by simp
  | .array items => by rw [normal, normal, normalItems_normalItems items]
  | .foreign => by simp

theorem normalItems_normalItems : ∀ items : List Value,
    normalItems (normalItems items) = normalItems items
  | [] => by rw [normalItems, normalItems]
  | v :: rest => by
      rw [normalItems, normalItems, normal_normal v, normalItems_normalItems rest]

end

/-! ## Conversions -/

mutual

@[simp] theorem toText_normal : ∀ v : Value, v.normal.toText = v.toText
  | .undefined => by simp
  | .null => by simp
  | .bool b => by simp
  | .number n => by simp [toText]
  | .text s => by simp
  | .array items => by rw [normal, toText, toText, itemTexts_normalItems items]
  | .foreign => by simp

theorem itemTexts_normalItems : ∀ items : List Value, itemTexts (normalItems items) = itemTexts items
  | [] => by rw [normalItems]
  | .undefined :: rest => by
      rw [normalItems, normal_undefined, itemTexts, itemTexts, itemTexts_normalItems rest]
  | .null :: rest => by
      rw [normalItems, normal_null, itemTexts, itemTexts, itemTexts_normalItems rest]
  | .bool b :: rest => by
      rw [normalItems, normal_bool]
      simp only [itemTexts, itemTexts_normalItems rest]
  | .number n :: rest => by
      rw [normalItems, normal_number]
      simp only [itemTexts, itemTexts_normalItems rest, toText, Number.text_normalize]
  | .text s :: rest => by
      rw [normalItems, normal_text]
      simp only [itemTexts, itemTexts_normalItems rest]
  | .array items :: rest => by
      rw [normalItems, normal]
      simp only [itemTexts, itemTexts_normalItems rest, toText, itemTexts_normalItems items]
  | .foreign :: rest => by
      rw [normalItems, normal_foreign]
      simp only [itemTexts, itemTexts_normalItems rest]

end

@[simp] theorem itemTexts_map_normal (items : List Value) :
    itemTexts (items.map normal) = itemTexts items := by
  rw [← normalItems_eq_map, itemTexts_normalItems]

@[simp] theorem toDouble_normal (v : Value) : v.normal.toDouble = v.toDouble := by
  cases v with
  | number n => simp [toDouble, toNumber, bind, Except.bind]
  | array items =>
      have := toText_normal (.array items)
      rw [normal_array] at this ⊢
      simp only [toDouble, toNumber, this]
  | _ => simp

@[simp] theorem indexOf_normal (v : Value) : v.normal.indexOf = v.indexOf := by
  cases v with
  | number n => simp [indexOf, toNumber, bind, Except.bind]
  | array items =>
      have := toText_normal (.array items)
      rw [normal_array] at this ⊢
      simp only [indexOf, toNumber, this]
  | _ => simp

@[simp] theorem toInteger_normal (v : Value) : v.normal.toInteger = v.toInteger := by
  cases v with
  | number n => simp [toInteger, toNumber, bind, Except.bind]
  | array items =>
      have := toText_normal (.array items)
      rw [normal_array] at this ⊢
      simp only [toInteger, toNumber, this]
  | _ => simp

@[simp] theorem toInt32_normal (v : Value) : v.normal.toInt32 = v.toInt32 := by
  simp only [toInt32, toInteger_normal]

@[simp] theorem toUint32_normal (v : Value) : v.normal.toUint32 = v.toUint32 := by
  simp only [toUint32, toInt32_normal]

@[simp] theorem typeName_normal (v : Value) : v.normal.typeName = v.typeName := by
  cases v <;> simp [typeName]

@[simp] theorem isText_normal (v : Value) : v.normal.isText = v.isText := by
  cases v <;> simp [isText]

@[simp] theorem isArray_normal (v : Value) : v.normal.isArray = v.isArray := by
  cases v <;> simp [isArray]

@[simp] theorem isNullish_normal (v : Value) : v.normal.isNullish = v.isNullish := by
  cases v <;> simp [isNullish]

/-- A number is true unless it is zero or NaN, in both forms. -/
@[simp] theorem truthy_normal (v : Value) : v.normal.truthy = v.truthy := by
  cases v with
  | number n =>
      cases n with
      | int i => rw [normal_number, Number.normalize]
      | float d =>
          rw [normal_number, Number.normalize]
          rcases Number.ofDouble_cases d with h | ⟨i, h, hd, htrunc, hwhole, hsafe, hzero⟩
          · rw [h]
          · rw [h]
            cases d with
            | nan => cases htrunc
            | infinite negative => cases htrunc
            | finite negative rank =>
                have hval : i = 0 ↔ rank.val = 0 := by
                  have hunits : Double.unitsOfRank rank =
                      Double.unitsOfRank rank / Double.oneUnits * Double.oneUnits := by
                    simp only [Double.isInteger, beq_iff_eq] at hwhole
                    exact (Nat.div_mul_cancel (Nat.dvd_of_mod_eq_zero hwhole)).symm
                  rw [Double.truncate?_finite hunits, Option.some.injEq] at htrunc
                  rw [← Double.unitsOfRank_eq_zero, hunits]
                  constructor
                  · intro hi
                    have : Double.unitsOfRank rank / Double.oneUnits = 0 := by
                      split at htrunc <;> omega
                    rw [this, Nat.zero_mul]
                  · intro hu
                    have : Double.unitsOfRank rank / Double.oneUnits = 0 := by
                      rcases Nat.mul_eq_zero.mp hu with h | h
                      · exact h
                      · exact absurd h (Nat.ne_of_gt Double.oneUnits_pos)
                    rw [this] at htrunc
                    split at htrunc <;> simpa using htrunc.symm
                simp only [truthy, Double.isZero, Double.isNaN, Bool.or_false]
                split
                · rename_i hi
                  simp [hval.mp hi]
                · rename_i hi
                  rw [Number.toDouble_int hsafe]
                  have : (rank.val == 0) = false := by
                    rw [beq_eq_false_iff_ne]
                    exact fun h => hi (hval.mpr h)
                  simp [this, bind, Except.bind, pure, Except.pure]
  | _ => simp [truthy]

@[simp] theorem isLiteral_normal (v : Value) : v.normal.isLiteral = v.isLiteral := by
  cases v <;> simp [isLiteral]

/-! ## Operators -/

theorem flattened_normal (v : Value) :
    v.normal.flattened = v.flattened.map normal := by
  cases v with
  | array items =>
      have := toText_normal (.array items)
      rw [normal_array] at this ⊢
      simp only [flattened, this]
      cases toText (.array items) <;> simp [bind, Except.bind, pure, Except.pure, Except.map]
  | _ => simp [flattened, Except.map]

@[simp] theorem arithmetic_normal (op : Double → Double → Double) (left right : Value) :
    arithmetic op left.normal right.normal = arithmetic op left right := by
  simp only [arithmetic, toDouble_normal]

@[simp] theorem add_normal (left right : Value) : left.normal.add right.normal = left.add right := by
  simp only [add, flattened_normal]
  cases left.flattened with
  | error f => rfl
  | ok l =>
      cases right.flattened with
      | error f => rfl
      | ok r => simp [Except.map, bind, Except.bind]

@[simp] theorem strictEquals_normal (left right : Value) :
    left.normal.strictEquals right.normal = left.strictEquals right := by
  cases left <;> cases right <;> simp [strictEquals]

@[simp] theorem looseEquals_normal (left right : Value) :
    left.normal.looseEquals right.normal = left.looseEquals right := by
  simp only [looseEquals, isNullish_normal, isArray_normal, typeName_normal, strictEquals_normal,
    toDouble_normal]

@[simp] theorem relational_normal (r : Relation) (left right : Value) :
    relational r left.normal right.normal = relational r left right := by
  have hdouble := toDouble_normal left
  have hdouble' := toDouble_normal right
  cases left <;> cases right <;> simp_all [relational, isArray]

end Value

theorem BinaryOp.apply_normal (op : BinaryOp) (left right : Value) :
    op.apply left.normal right.normal = op.apply left right := by
  cases op <;> simp [BinaryOp.apply, Value.sub, Value.mul, Value.div, Value.mod, Value.power,
    Value.bitAnd, Value.bitOr, Value.bitXor, Value.bitwise, Value.shiftLeft, Value.shiftRight,
    Value.shiftRightUnsigned]

theorem Value.pos_normal (v : Value) : v.normal.pos = v.pos := by
  cases v with
  | number n => simp [pos, toNumber, bind, Except.bind]
  | array items =>
      have := toText_normal (.array items)
      rw [normal_array] at this ⊢
      simp only [pos, toNumber, this]
  | _ => simp

theorem UnaryOp.apply_normal (op : UnaryOp) (v : Value) : op.apply v.normal = op.apply v := by
  cases op <;> simp [UnaryOp.apply, Value.neg, Value.bitNot, Value.pos_normal]

/-! ## Functions -/

namespace Value

@[simp] theorem getD_map_normal (args : List Value) (i : Nat) :
    (args.map normal).getD i .undefined = (args.getD i .undefined).normal := by
  simp only [List.getD_eq_getElem?_getD, List.getElem?_map]
  cases args[i]? <;> simp

theorem mapM_normal {α : Type} {f : Value → Except Fault α} (hf : ∀ v, f v.normal = f v) :
    ∀ args : List Value, (args.map normal).mapM f = args.mapM f
  | [] => rfl
  | v :: args => by rw [List.map_cons, List.mapM_cons, List.mapM_cons, hf, mapM_normal hf args]

theorem power_normal (left right : Value) : left.normal.power right.normal = left.power right := by
  simp only [power, toDouble_normal]

end Value

theorem MathFunction.apply_normal (f : MathFunction) (args : List Value) :
    f.apply (args.map Value.normal) = f.apply args := by
  have hds := Value.mapM_normal Value.toDouble_normal args
  cases f <;> simp only [MathFunction.apply, hds, Value.getD_map_normal, Value.power_normal]

theorem Builtin.readInteger_normal (text radix : Value) :
    readInteger text.normal radix.normal = readInteger text radix := by
  have hradix := Value.toInt32_normal radix
  cases radix <;> simp_all [readInteger]

/-- **A function does not tell the forms of numbers apart.** -/
theorem Builtin.apply_normal (f : Builtin) (args : List Value) :
    (f.apply (args.map Value.normal)).map Value.normal = (f.apply args).map Value.normal := by
  cases f with
  | parseInt => simp only [Builtin.apply, Value.getD_map_normal, readInteger_normal]
  | parseFloat => simp only [Builtin.apply, Value.getD_map_normal, Value.toText_normal]
  | number =>
      cases args with
      | nil => rfl
      | cons v args =>
          rw [List.map_cons]
          cases v with
          | number n =>
              simp [Builtin.apply, Value.toNumber, Except.map, bind, Except.bind, pure, Except.pure]
          | array items =>
              have := Value.toText_normal (.array items)
              rw [Value.normal_array] at this ⊢
              simp only [Builtin.apply, Value.toNumber, this]
          | _ => simp [Builtin.apply]
  | string => cases args <;> simp [Builtin.apply]
  | boolean => cases args <;> simp [Builtin.apply]
  | isNaN => simp only [Builtin.apply, Value.getD_map_normal, Value.toDouble_normal]
  | isFinite => simp only [Builtin.apply, Value.getD_map_normal, Value.toDouble_normal]
  | math f => simp only [Builtin.apply, MathFunction.apply_normal]
  | fromCharCode => simp only [Builtin.apply, Value.mapM_normal Value.toUint32_normal]

/-! ## Methods and members -/

namespace Value

@[simp] theorem relativeIndex_normal (length default : Nat) (v : Value) :
    relativeIndex length default v.normal = relativeIndex length default v := by
  have hindex := indexOf_normal v
  cases v <;> simp_all [relativeIndex]

@[simp] theorem clampedIndex_normal (length default : Nat) (v : Value) :
    clampedIndex length default v.normal = clampedIndex length default v := by
  have hindex := indexOf_normal v
  cases v <;> simp_all [clampedIndex]

@[simp] theorem charAt?_normal (cs : List Char) (v : Value) :
    charAt? cs v.normal = charAt? cs v := by
  have hindex := indexOf_normal v
  cases v <;> simp_all [charAt?]

@[simp] theorem pieces_normal (cs : List Char) (v : Value) : pieces cs v.normal = pieces cs v := by
  have htext := toText_normal v
  cases v <;> simp_all [pieces]

@[simp] theorem split_normal (cs : List Char) (separator limit : Value) :
    split cs separator.normal limit.normal = split cs separator limit := by
  have hlimit := toUint32_normal limit
  cases limit <;> simp_all [split]

theorem arityFits_map (arity : Option Nat) (args : List Value) :
    arityFits arity (args.map normal) = arityFits arity args := by
  cases arity <;> simp [arityFits]

/-- **A method of texts does not tell the forms of numbers apart.** -/
theorem TextMethod.apply_normal (m : TextMethod) (cs : List Char) (args : List Value) :
    m.apply cs (args.map normal) = m.apply cs args := by
  unfold TextMethod.apply
  rw [arityFits_map]
  split
  · rfl
  · cases m <;> simp only [getD_map_normal, charAt?_normal, Value.slice, relativeIndex_normal,
      Value.substring, clampedIndex_normal, textIndexOf, toText_normal, mapM_normal toText_normal,
      split_normal]

theorem findItem?_normal (needle : Value) : ∀ (place : Nat) (items : List Value),
    findItem? needle.normal place (items.map normal) = findItem? needle place items
  | _, [] => rfl
  | place, item :: rest => by
      simp only [List.map_cons, findItem?, strictEquals_normal, findItem?_normal needle _ rest]

theorem slice_map {α β : Type} (f : α → β) (xs : List α) (start stop : Value) :
    slice (xs.map f) start stop = (slice xs start stop).map (List.map f) := by
  simp only [slice, List.length_map]
  cases relativeIndex xs.length 0 start with
  | error e => rfl
  | ok i =>
      cases relativeIndex xs.length xs.length stop with
      | error e => rfl
      | ok j => simp [bind, Except.bind, pure, Except.pure, Except.map, between]

theorem slice_normal {α : Type} (xs : List α) (start stop : Value) :
    slice xs start.normal stop.normal = slice xs start stop := by
  simp only [slice, relativeIndex_normal]

theorem join_normal (items : List Value) (separator : Value) :
    join (items.map normal) separator.normal = join items separator := by
  simp only [join, itemTexts_map_normal]
  cases separator with
  | number n =>
      have htext := toText_normal (.number n)
      rw [normal_number] at htext ⊢
      simp only [htext]
  | array parts =>
      have htext := toText_normal (.array parts)
      rw [normal_array] at htext ⊢
      simp only [htext]
  | _ => simp

/-- **A method of arrays does not tell the forms of numbers apart.** -/
theorem ArrayMethod.apply_normal (m : ArrayMethod) (items args : List Value) :
    (m.apply (items.map normal) (args.map normal)).map normal = (m.apply items args).map normal := by
  unfold ArrayMethod.apply
  rw [arityFits_map]
  split
  · rfl
  · cases m with
    | join => simp only [getD_map_normal, join_normal]
    | indexOf =>
        simp only [getD_map_normal, arrayIndexOf, List.length_map, clampedIndex_normal,
          ← List.map_drop, findItem?_normal]
    | slice =>
        simp only [getD_map_normal, slice_map, slice_normal]
        cases Value.slice items (args.getD 0 .undefined) (args.getD 1 .undefined) with
        | error e => rfl
        | ok part => simp [bind, Except.bind, pure, Except.pure, Except.map, Function.comp_def]

theorem callMethod_normal (receiver : Value) (name : String) (args : List Value) :
    (receiver.normal.callMethod name (args.map normal)).map normal =
      (receiver.callMethod name args).map normal := by
  cases receiver with
  | text s =>
      simp only [normal_text, callMethod]
      cases TextMethod.ofName? name with
      | none => rfl
      | some m => simp only [TextMethod.apply_normal]
  | array items =>
      simp only [normal_array, callMethod]
      cases ArrayMethod.ofName? name with
      | none => rfl
      | some m => simp only [ArrayMethod.apply_normal]
  | _ => simp [callMethod]

theorem memberOf_map {item item' : Nat → Option Value}
    (h : ∀ i, item' i = (item i).map normal) (length : Nat) (key : String) :
    (memberOf length item' key).map normal = (memberOf length item key).map normal := by
  unfold memberOf
  split
  · rfl
  · cases indexOfKey? key.toList with
    | error f => rfl
    | ok index =>
        cases index with
        | none => rfl
        | some i =>
            simp only [h, bind, Except.bind, pure, Except.pure, Except.map]
            cases item i <;> simp

theorem toOption_map_normal (r : Except Fault Value) :
    (r.map normal).toOption = r.toOption.map normal := by
  cases r <;> rfl

theorem member_normal (receiver key : Value) :
    (receiver.normal.member key.normal).toOption.map normal =
      (receiver.member key).toOption.map normal := by
  cases receiver with
  | text s => simp only [normal_text, member, toText_normal]
  | array items =>
      simp only [normal_array, member, toText_normal, List.length_map]
      cases key.toText with
      | error f => rfl
      | ok key =>
          have h := @memberOf_map (fun i => items[i]?) (fun i => (items.map normal)[i]?)
            (fun i => by rw [List.getElem?_map]) items.length key
          simp only [bind, Except.bind, ← toOption_map_normal, h]
  | number n => rw [normal_number]; rfl
  | _ => simp [member, Except.toOption]

end Value

end Descramble

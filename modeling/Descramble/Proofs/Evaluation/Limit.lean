import Descramble.Proofs.Evaluation.Computes
import Descramble.Proofs.Number.Limit
import Descramble.Proofs.Tree.Building
import Descramble.Proofs.Value.BasicPlane

/-!
# When static evaluation fails

Every failure of an operator or a function is caught and means that nothing is known.  The last step is
not guarded: whether a known number can be written as a literal depends on its double, and an exact
integer of `2^1024 - 2^970` or more has none.  Arithmetic goes through doubles and never makes such an
integer; one that is read from a literal or from a text is handed on as it is.

* `Value.IsModerate` — not an exact integer at or above the limit.
* `BinaryOp.apply_moderate`, `UnaryOp.apply_moderate`, `Builtin.apply_moderate` — the operators and
  functions whose results are moderate.
* `ExactInteger` — how an exact integer comes to be the value of an expression without arithmetic.
* `valueOf_eq_int_iff` — an integer at or above the limit comes in no other way.
* `evaluate_eq_error_iff` — the expressions whose evaluation fails.
-/

set_option autoImplicit false

namespace Descramble

/-! ## Values without large integers -/

/-- The value is not an exact integer at or above the limit. -/
def Value.IsModerate (v : Value) : Prop := ∀ n, v = .number n → n.IsModerate

namespace Value

theorem isModerate_number {n : Number} : (number n).IsModerate ↔ n.IsModerate := by
  simp [IsModerate]

theorem isModerate_text (s : String) : (text s).IsModerate := by simp [IsModerate]

theorem isModerate_bool (b : Bool) : (bool b).IsModerate := by simp [IsModerate]

theorem isModerate_undefined : undefined.IsModerate := by simp [IsModerate]

/-- The normal form of a double is moderate. -/
theorem isModerate_ofDouble (d : Double) : (number (.ofDouble d)).IsModerate :=
  isModerate_number.mpr (Number.isModerate_ofDouble d)

theorem isModerate_float (d : Double) : (number (.float d)).IsModerate :=
  isModerate_number.mpr (Number.isModerate_float d)

theorem isModerate_ofInt {n : Int} (h : n.natAbs < Number.safeBound) : (ofInt n).IsModerate :=
  isModerate_number.mpr <| Number.isModerate_int.mpr <|
    Nat.lt_of_lt_of_le h Number.safeBound_le_integerLimit

/-! ## Operators -/

theorem arithmetic_moderate (op : Double → Double → Double) (left right : Value) :
    Ensures IsModerate (arithmetic op left right) :=
  Ensures.andThen fun _ => Ensures.andThen fun _ => Ensures.ok (isModerate_ofDouble _)

theorem checkedText_moderate (cs : List Char) : Ensures IsModerate (checkedText cs) := by
  unfold checkedText
  split
  · exact Ensures.error _
  · exact Ensures.ok (isModerate_text _)

theorem add_moderate (left right : Value) : Ensures IsModerate (left.add right) := by
  refine Ensures.andThen fun l => Ensures.andThen fun r => ?_
  split
  · exact Ensures.andThen fun _ => Ensures.andThen fun _ => checkedText_moderate _
  · exact arithmetic_moderate _ _ _

theorem power_moderate (left right : Value) : Ensures IsModerate (left.power right) := by
  refine Ensures.andThen fun base => Ensures.andThen fun exponent => ?_
  split
  · exact Ensures.error _
  · split
    · exact Ensures.ok (isModerate_ofDouble _)
    · exact Ensures.ok (isModerate_float _)

theorem low32_lt (n : Int) : low32 n < 0x100000000 := by
  unfold low32
  omega

theorem natAbs_wrap32_le (n : Int) : (wrap32 n).natAbs ≤ 0x80000000 := by
  have := low32_lt n
  unfold wrap32 signed32
  split <;> omega

theorem isModerate_wrap32 (n : Int) : (ofInt (wrap32 n)).IsModerate := by
  refine isModerate_ofInt ?_
  have := natAbs_wrap32_le n
  unfold Number.safeBound
  omega

/-- An operation of which the low 32 bits are read. -/
theorem bitwise_moderate (op : Int → Int → Int) (left right : Value) :
    Ensures IsModerate (bitwise op left right) :=
  Ensures.andThen fun _ => Ensures.andThen fun _ => Ensures.ok (isModerate_wrap32 _)

theorem shiftLeft_moderate (left right : Value) : Ensures IsModerate (left.shiftLeft right) :=
  Ensures.andThen fun _ => Ensures.andThen fun _ => Ensures.ok (isModerate_wrap32 _)

theorem shiftRight_moderate (left right : Value) :
    Ensures IsModerate (left.shiftRight right) := by
  have hsigned : Ensures (fun n : Int => n.natAbs ≤ 0x80000000) left.toInt32 :=
    Ensures.andThen fun n => Ensures.ok (natAbs_wrap32_le n)
  refine Ensures.bind hsigned fun a ha => Ensures.andThen fun b => Ensures.ok (isModerate_ofInt ?_)
  have := Int.natAbs_ediv_le_natAbs a (2 ^ (b &&& 31) : Nat)
  rw [Int.shiftRight_eq_div_pow]
  unfold Number.safeBound
  omega

theorem shiftRightUnsigned_moderate (left right : Value) :
    Ensures IsModerate (left.shiftRightUnsigned right) := by
  have hunsigned : Ensures (· < 0x100000000) left.toUint32 :=
    Ensures.andThen fun n => Ensures.ok (low32_lt n)
  refine Ensures.bind hunsigned fun a ha => Ensures.andThen fun b => Ensures.ok (isModerate_ofInt ?_)
  have := Nat.shiftRight_le a (b &&& 31)
  rw [Int.natAbs_natCast]
  unfold Number.safeBound
  omega

end Value

/-- **The result of a binary operator is moderate.** -/
theorem BinaryOp.apply_moderate (op : BinaryOp) (left right : Value) :
    Ensures Value.IsModerate (op.apply left right) := by
  have hbool : ∀ r : Except Fault Bool, ∀ f : Bool → Bool,
      Ensures Value.IsModerate (r >>= fun b => .ok (.bool (f b))) :=
    fun r f => Ensures.andThen fun b => Ensures.ok (Value.isModerate_bool _)
  cases op with
  | add => exact Value.add_moderate _ _
  | sub => exact Value.arithmetic_moderate _ _ _
  | mul => exact Value.arithmetic_moderate _ _ _
  | div => exact Value.arithmetic_moderate _ _ _
  | mod => exact Value.arithmetic_moderate _ _ _
  | power => exact Value.power_moderate _ _
  | bitAnd => exact Value.bitwise_moderate _ _ _
  | bitOr => exact Value.bitwise_moderate _ _ _
  | bitXor => exact Value.bitwise_moderate _ _ _
  | shiftLeft => exact Value.shiftLeft_moderate _ _
  | shiftRight => exact Value.shiftRight_moderate _ _
  | shiftRightUnsigned => exact Value.shiftRightUnsigned_moderate _ _
  | strictEq => exact hbool _ id
  | strictNe => exact hbool _ not
  | looseEq => exact hbool _ id
  | looseNe => exact hbool _ not
  | relation r => exact hbool _ id

/-- **The result of a unary operator is moderate**, the conversion to a number apart. -/
theorem UnaryOp.apply_moderate {op : UnaryOp} (hop : op ≠ .pos) (v : Value) :
    Ensures Value.IsModerate (op.apply v) := by
  cases op with
  | neg => exact Ensures.andThen fun _ => Ensures.ok (Value.isModerate_ofDouble _)
  | pos => exact absurd rfl hop
  | not => exact Ensures.andThen fun _ => Ensures.ok (Value.isModerate_bool _)
  | bitNot => exact Ensures.andThen fun _ => Ensures.ok (Value.isModerate_wrap32 _)
  | typeOf => exact Ensures.andThen fun _ => Ensures.ok (Value.isModerate_text _)
  | void => exact Ensures.ok Value.isModerate_undefined

/-! ## Functions -/

namespace MathFunction

theorem rounded_moderate {rounding : Double → Option Int}
    (h : ∀ d n, rounding d = some n → n.natAbs < Number.integerLimit) (d : Double) :
    (rounded rounding d).IsModerate := by
  unfold rounded
  split
  · rename_i hround
    split
    · exact Number.isModerate_float _
    · exact Number.isModerate_int.mpr (h _ _ hround)
  · exact Number.isModerate_ofDouble _

theorem signOf_moderate (d : Double) : (signOf d).IsModerate := by
  unfold signOf
  split
  · exact Number.isModerate_ofDouble _
  · refine Number.isModerate_int.mpr (Nat.lt_of_lt_of_le ?_ Number.safeBound_le_integerLimit)
    split <;> decide

theorem extreme_moderate (above : Double → Double → Bool) (empty : Double) (ds : List Double) :
    (extreme above empty ds).IsModerate := by
  unfold extreme
  split
  · exact Number.isModerate_float _
  · split
    · exact Number.isModerate_float _
    · exact Number.isModerate_ofDouble _

theorem unary_moderate {f : Double → Number} (h : ∀ d, (f d).IsModerate) (ds : List Double) :
    Ensures Number.IsModerate (unary f ds) := by
  unfold unary
  split
  · exact Ensures.ok (h _)
  · exact Ensures.error _

theorem onDoubles_moderate (f : MathFunction) (ds : List Double) :
    Ensures Number.IsModerate (f.onDoubles ds) := by
  cases f with
  | abs => exact unary_moderate (fun d => Number.isModerate_ofDouble _) ds
  | floor => exact unary_moderate (rounded_moderate fun d n => Number.natAbs_floor?_lt) ds
  | ceil => exact unary_moderate (rounded_moderate fun d n => Number.natAbs_ceil?_lt) ds
  | round => exact unary_moderate (rounded_moderate fun d n => Number.natAbs_floor?_lt) ds
  | trunc => exact unary_moderate (rounded_moderate fun d n => Number.natAbs_truncate?_lt) ds
  | sign => exact unary_moderate signOf_moderate ds
  | sqrt => exact unary_moderate (fun d => Number.isModerate_ofDouble _) ds
  | max => exact Ensures.ok (extreme_moderate _ _ _)
  | min => exact Ensures.ok (extreme_moderate _ _ _)
  | pow => exact Ensures.error _

theorem apply_moderate (f : MathFunction) (args : List Value) :
    Ensures Value.IsModerate (f.apply args) := by
  have hdoubles : Ensures Value.IsModerate (do
      let ds ← args.mapM Value.toDouble
      return .number (← f.onDoubles ds)) := by
    refine Ensures.andThen fun ds => Ensures.bind (onDoubles_moderate f ds) fun n hn => ?_
    exact Ensures.ok (Value.isModerate_number.mpr hn)
  cases f with
  | pow => exact Value.power_moderate _ _
  | _ => exact hdoubles

end MathFunction

namespace Number

theorem isModerate_ofIntegerClipped (negative : Bool) (n : Nat) :
    (ofIntegerClipped negative n).IsModerate := isModerate_ofDouble _

theorem isModerate_parseInteger (cs : List Char) (radix : Int) :
    (parseInteger cs radix).IsModerate := by
  simp only [parseInteger]
  generalize (if radix = 0 then _ else _ : Int × List Char) = start
  split
  · exact isModerate_float _
  · split
    · exact isModerate_float _
    · split
      · exact isModerate_ofIntegerClipped _ _
      · exact isModerate_float _

theorem isModerate_parseDecimal (cs : List Char) : (parseDecimal cs).IsModerate := by
  simp only [parseDecimal]
  split
  · exact isModerate_float _
  · split
    · exact isModerate_ofDouble _
    · exact isModerate_float _

end Number

/-- **The result of a global function is moderate**, the conversion to a number apart. -/
theorem Builtin.apply_moderate {f : Builtin} (hf : f ≠ .number) (args : List Value) :
    Ensures Value.IsModerate (f.apply args) := by
  cases f with
  | parseInt =>
      refine Ensures.andThen fun s => ?_
      split
      · exact Ensures.ok (Value.isModerate_number.mpr (Number.isModerate_parseInteger _ _))
      · refine Ensures.andThen fun radix => Ensures.ok ?_
        exact Value.isModerate_number.mpr (Number.isModerate_parseInteger _ _)
  | parseFloat =>
      refine Ensures.andThen fun s => Ensures.ok ?_
      exact Value.isModerate_number.mpr (Number.isModerate_parseDecimal _)
  | number => exact absurd rfl hf
  | string =>
      cases args with
      | nil => exact Ensures.ok (Value.isModerate_text _)
      | cons v args => exact Ensures.andThen fun _ => Ensures.ok (Value.isModerate_text _)
  | boolean =>
      cases args with
      | nil => exact Ensures.ok (Value.isModerate_bool _)
      | cons v args => exact Ensures.andThen fun _ => Ensures.ok (Value.isModerate_bool _)
  | isNaN => exact Ensures.andThen fun _ => Ensures.ok (Value.isModerate_bool _)
  | isFinite => exact Ensures.andThen fun _ => Ensures.ok (Value.isModerate_bool _)
  | math f => exact MathFunction.apply_moderate f args
  | fromCharCode =>
      exact Ensures.andThen fun _ => Ensures.andThen fun _ => Ensures.ok (Value.isModerate_text _)

/-! ## Expressions -/

/-- An exact integer is the value of an expression without arithmetic: it is read from a literal or
converted from a text, or handed on by a name, a choice, a member or a method. -/
inductive ExactInteger (env : Surroundings) (p : Position) : Node → Int → Prop
  | literal {raw : String} {slots : List Slot} {n : Int} :
      ExactInteger env p (.mk (.literal (.number (.int n)) raw none) slots) n
  | name {name : String} {slots : List Slot} {n : Int}
      (h : env.nameValue p name = .ok (.number (.int n))) :
      ExactInteger env p (.mk (.identifier name) slots) n
  | plus {leading : Bool} {argument : Node} {a : Value} {n : Int}
      (ha : valueOf env (p ++ [first]) argument = .ok a) (h : a.toNumber = .ok (.int n)) :
      ExactInteger env p (.mk (.unary "+" leading) [.one (some argument)]) n
  | number {slots : List Slot} {arguments : List (Option Node)} {a : Value} {vs : List Value}
      {n : Int} (hdecoder : env.isDecoderCall p = false) (hglobal : env.isGlobal (p ++ [first]) = true)
      (ha : itemValues env p 1 0 arguments = .ok (a :: vs)) (h : a.toNumber = .ok (.int n)) :
      ExactInteger env p (.mk .call [.one (some (.mk (.identifier "Number") slots)),
        .many arguments]) n
  | left {symbol : String} {left right : Node} {n : Int}
      (hl : valueOf env (p ++ [first]) left = .ok (.number (.int n)))
      (h : keepsLeft? symbol (.number (.int n)) = some true) :
      ExactInteger env p (.mk (.logical symbol) [.one (some left), .one (some right)]) n
  | right {symbol : String} {left right : Node} {l : Value} {n : Int}
      (hl : valueOf env (p ++ [first]) left = .ok l) (h : keepsLeft? symbol l = some false)
      (hr : valueOf env (p ++ [second]) right = .ok (.number (.int n))) :
      ExactInteger env p (.mk (.logical symbol) [.one (some left), .one (some right)]) n
  | yes {test yes no : Node} {t : Value} {n : Int} (ht : valueOf env (p ++ [first]) test = .ok t)
      (h : t.truthy = .ok true) (hv : valueOf env (p ++ [second]) yes = .ok (.number (.int n))) :
      ExactInteger env p (.mk .conditional [.one (some test), .one (some yes), .one (some no)]) n
  | no {test yes no : Node} {t : Value} {n : Int} (ht : valueOf env (p ++ [first]) test = .ok t)
      (h : t.truthy = .ok false) (hv : valueOf env (p ++ [⟨2, none⟩]) no = .ok (.number (.int n))) :
      ExactInteger env p (.mk .conditional [.one (some test), .one (some yes), .one (some no)]) n
  | last {expressions : List (Option Node)} {vs : List Value} {n : Int}
      (hvs : itemValues env p 0 0 expressions = .ok vs) (h : vs.getLast? = some (.number (.int n))) :
      ExactInteger env p (.mk .sequence [.many expressions]) n
  | member {computed : Bool} {object property : Node} {receiver key : Value} {n : Int}
      (hreceiver : valueOf env (p ++ [first]) object = .ok receiver)
      (hkey : ComputesKey env p computed property key)
      (h : receiver.member key = .ok (.number (.int n))) :
      ExactInteger env p (.mk (.member computed) [.one (some object), .one (some property)]) n
  | method {computed : Bool} {owner property : Node} {arguments : List (Option Node)}
      {name : String} {receiver : Value} {vs : List Value} {n : Int}
      (hdecoder : env.isDecoderCall p = false)
      (hf : globalMember? env (p ++ [first, first]) owner (accessedName? computed property) = none)
      (hname : accessedName? computed property = some name)
      (hreceiver : valueOf env (p ++ [first, first]) owner = .ok receiver)
      (hvs : itemValues env p 1 0 arguments = .ok vs)
      (h : receiver.callMethod name vs = .ok (.number (.int n))) :
      ExactInteger env p (.mk .call [.one (some (.mk (.member computed)
        [.one (some owner), .one (some property)])), .many arguments]) n

theorem not_moderate {n : Int} (hn : Number.integerLimit ≤ n.natAbs) :
    ¬ (Value.number (.int n)).IsModerate := by
  rw [Value.isModerate_number, Number.isModerate_int]
  omega

section
variable {env : Surroundings} {p : Position}

theorem UnaryOp.eq_of_ofSymbol?_pos {symbol : String} (h : UnaryOp.ofSymbol? symbol = some .pos) :
    symbol = "+" := by
  unfold UnaryOp.ofSymbol? at h
  split at h <;> first | rfl | cases h

theorem Builtin.eq_of_ofName?_number {name : String} (h : Builtin.ofName? name = some .number) :
    name = "Number" := by
  unfold Builtin.ofName? at h
  split at h <;> first | rfl | cases h

/-- The conversion to a number is a function of its own, not a member. -/
theorem ne_number_of_globalMember? {owner : Node} {name : Option String} {f : Builtin}
    (h : globalMember? env p owner name = some f) : f ≠ .number := by
  unfold globalMember? at h
  split at h
  · split at h
    · unfold Builtin.ofMember? at h
      split at h
      · obtain ⟨m, -, rfl⟩ := Option.map_eq_some_iff.mp h
        simp
      · split at h <;> cases h
        simp
    · cases h
  · cases h

theorem basicPlaneOnly_ne_number (s : String) (n : Number) : basicPlaneOnly s ≠ .ok (.number n) := by
  unfold basicPlaneOnly
  split <;> simp

/-- The conversion of a value keeps an exact integer as it is. -/
theorem eq_of_normalize_eq_int {m : Number} {n : Int} (hn : Number.integerLimit ≤ n.natAbs)
    (h : m.normalize = .int n) : m = .int n := by
  cases m with
  | int i => exact h
  | float d =>
      have := Number.isModerate_ofDouble d n h
      omega

/-- **An integer at or above the limit is not the result of arithmetic.** -/
theorem ExactInteger.of_valueOf {node : Node} {n : Int} (hn : Number.integerLimit ≤ n.natAbs)
    (h : valueOf env p node = .ok (.number (.int n))) : ExactInteger env p node n := by
  have hmoderate : ∀ {r : Except Fault Value}, r = .ok (.number (.int n)) →
      ¬ Ensures Value.IsModerate r := fun hr he => not_moderate hn (he _ hr)
  have hcomputes := valueOf_eq_ok_iff.mp h
  clear h
  cases hcomputes with
  | @literal value raw regex slots v h =>
      unfold valueOfLiteral at h
      split at h
      · cases h
      · rename_i hregex
        rw [Option.not_isSome_iff_eq_none.mp hregex]
        split at h
        · cases h
        · cases h
        · cases h
          exact .literal
        · exact absurd h (basicPlaneOnly_ne_number _ _)
  | identifier h => exact .name h
  | template hstart htext h => exact absurd h (basicPlaneOnly_ne_number _ _)
  | @unary symbol leading argument op a v hne hop ha h =>
      by_cases hpos : op = .pos
      · subst hpos
        rw [UnaryOp.eq_of_ofSymbol?_pos hop]
        obtain ⟨m, hm, he⟩ := bind_eq_ok.mp h
        simp only [pure, Except.pure, Except.ok.injEq, Value.number.injEq] at he
        rw [eq_of_normalize_eq_int hn he] at hm
        exact .plus ha hm
      · exact absurd (UnaryOp.apply_moderate hpos a) (hmoderate h)
  | binary hop hl hr h => exact absurd (BinaryOp.apply_moderate _ _ _) (hmoderate h)
  | logicalLeft hl h => exact .left hl h
  | logicalRight hl h hr => exact .right hl h hr
  | conditionalYes ht h hv => exact .yes ht h hv
  | conditionalNo ht h hv => exact .no ht h hv
  | sequence hvs h => exact .last hvs h
  | member hreceiver hkey h => exact .member hreceiver hkey h
  | @callGlobal name slots arguments f vs v hdecoder hf hglobal hvs h =>
      by_cases hnumber : f = .number
      · subst hnumber
        rw [Builtin.eq_of_ofName?_number hf]
        cases vs with
        | nil => exact absurd (Ensures.ok (Value.isModerate_ofInt (by decide))) (hmoderate h)
        | cons a vs =>
            obtain ⟨m, hm, he⟩ := bind_eq_ok.mp h
            cases he
            exact .number hdecoder hglobal hvs hm
      · exact absurd (Builtin.apply_moderate hnumber vs) (hmoderate h)
  | callMember hdecoder hf hvs h =>
      exact absurd (Builtin.apply_moderate (ne_number_of_globalMember? hf) _) (hmoderate h)
  | callMethod hdecoder hf hname hreceiver hvs h =>
      exact .method hdecoder hf hname hreceiver hvs h

theorem ExactInteger.valueOf_eq {node : Node} {n : Int} (h : ExactInteger env p node n) :
    valueOf env p node = .ok (.number (.int n)) := by
  refine Computes.valueOf_eq ?_
  cases h with
  | literal => exact .literal rfl
  | name h => exact .identifier h
  | plus ha h =>
      refine .unary (by decide) rfl ha ?_
      simp only [UnaryOp.apply, Value.pos, h]
      rfl
  | number hdecoder hglobal ha h =>
      refine .callGlobal hdecoder rfl hglobal ha ?_
      simp only [Builtin.apply, h]
      rfl
  | left hl h => exact .logicalLeft hl h
  | right hl h hr => exact .logicalRight hl h hr
  | yes ht h hv => exact .conditionalYes ht h hv
  | no ht h hv => exact .conditionalNo ht h hv
  | last hvs h => exact .sequence hvs h
  | member hreceiver hkey h => exact .member hreceiver hkey h
  | method hdecoder hf hname hreceiver hvs h => exact .callMethod hdecoder hf hname hreceiver hvs h

/-- **How an integer at or above the limit comes to be a value.** -/
theorem valueOf_eq_int_iff {node : Node} {n : Int} (hn : Number.integerLimit ≤ n.natAbs) :
    valueOf env p node = .ok (.number (.int n)) ↔ ExactInteger env p node n :=
  ⟨ExactInteger.of_valueOf hn, ExactInteger.valueOf_eq⟩

end

/-- Whether a value can be a literal is undecided only for an exact integer without a double. -/
theorem Value.isLiteral_eq_error_iff {v : Value} {fault : Fault} :
    v.isLiteral = .error fault ↔ fault = .integerTooLarge ∧
      ∃ n, v = .number (.int n) ∧ Number.integerLimit ≤ n.natAbs := by
  cases v with
  | number n =>
      have hlink : (Value.number n).isLiteral = .error fault ↔ n.toDouble = .error fault := by
        cases hn : n.toDouble <;> simp [isLiteral, hn, bind, Except.bind, pure, Except.pure]
      rw [hlink]
      cases n with
      | float d => simp [Number.toDouble]
      | int i =>
          rw [Number.toDouble_int_eq_error_iff]
          simp
  | _ => simp [isLiteral]

/-- **Static evaluation fails exactly on an exact integer that has no double** and comes to be the
value without arithmetic.  Everything else that goes wrong in it is caught. -/
theorem evaluate_eq_error_iff (ctx : Context) (place : Position) (fault : Fault) :
    ctx.evaluate place = .error fault ↔ fault = .integerTooLarge ∧
      ∃ node n, ctx.tree.get? place = some node ∧ ExactInteger ctx.surroundings place node n ∧
        Number.integerLimit ≤ n.natAbs := by
  unfold Context.evaluate
  cases hget : ctx.tree.get? place with
  | none => simp
  | some node =>
      have hnode : (∃ node' n, some node = some node' ∧
          ExactInteger ctx.surroundings place node' n ∧ Number.integerLimit ≤ n.natAbs) ↔
          ∃ n, ExactInteger ctx.surroundings place node n ∧ Number.integerLimit ≤ n.natAbs := by
        simp
      rw [hnode]
      cases hv : valueOf ctx.surroundings place node with
      | error stop =>
          have hno : ¬ ∃ n, ExactInteger ctx.surroundings place node n ∧
              Number.integerLimit ≤ n.natAbs := by
            rintro ⟨n, hexact, -⟩
            rw [hexact.valueOf_eq] at hv
            cases hv
          cases stop <;> simp only [hv, reduceCtorEq, hno, and_false]
      | ok v =>
          have hlink : (do return if ← v.isLiteral then Outcome.known v else .unknown) =
              Except.error fault ↔ v.isLiteral = .error fault := by
            cases v.isLiteral <;> simp [bind, Except.bind, pure, Except.pure]
          simp only [hv]
          rw [hlink, Value.isLiteral_eq_error_iff]
          refine and_congr Iff.rfl (exists_congr fun n => and_congr_left fun hn => ?_)
          rw [← valueOf_eq_int_iff hn, hv, Except.ok.injEq]

/-- `0x1000…;` with 256 zeros: the integer `2^1024`. -/
def hugeLiteral : Node :=
  .programOf "script" [.statementOf (.lit (.number (.int (Nat.pow 2 1024 : Nat)))
    (String.ofList ('0' :: 'x' :: '1' :: List.replicate 256 '0')))]

/-- The evaluation of the literal fails. -/
theorem evaluate_eq_error_iff_hugeLiteral :
    (Context.ofTree hugeLiteral (analyze hugeLiteral) none).evaluate [⟨0, some 0⟩, first] =
      .error .integerTooLarge := by
  refine (evaluate_eq_error_iff _ _ _).mpr ⟨rfl, _, _, rfl, .literal, ?_⟩
  rw [Int.natAbs_natCast]
  decide +kernel

end Descramble

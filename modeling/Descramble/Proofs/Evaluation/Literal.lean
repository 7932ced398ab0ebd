import Descramble.Proofs.Evaluation.Computes
import Descramble.Proofs.Tree.Building
import Descramble.Proofs.Tree.Place
import Descramble.Proofs.Value.BasicPlane
import Descramble.Proofs.Value.Normal
import Descramble.Pass.Revision

/-!
# Known values can be written and read again

* `valueOf_basic`, `evaluate_basic` — a value that static evaluation finds has only characters of
  the basic plane.
* `valueOf_ofNumber` — the node that spells a number below `2^53` in magnitude has that number as its
  value, negative numbers and negative zero included.
* `valueOf_literal?` — the node that spells a known value has the value, up to the form of numbers.
-/

set_option autoImplicit false

namespace Descramble

/-! ## The basic plane -/

theorem basicPlaneOnly_eq_ok {s : String} {v : Value} :
    basicPlaneOnly s = .ok v ↔ v = .text s ∧ Text.Basic s.toList := by
  unfold basicPlaneOnly Text.Basic
  split
  · rename_i h
    simp only [List.any_eq_true, decide_eq_true_eq] at h
    obtain ⟨c, hc, hlt⟩ := h
    simp only [reduceCtorEq, false_iff, not_and]
    intro _ hall
    exact absurd (hall c hc) (by omega)
  · rename_i h
    simp only [List.any_eq_true, decide_eq_true_eq, not_exists, not_and, Nat.not_lt] at h
    constructor
    · rintro ⟨⟩
      exact ⟨rfl, h⟩
    · rintro ⟨rfl, -⟩
      rfl

/-- An item of a list slot stands below the node. -/
theorem Node.exists_get?_of_mem {n : Node} {i : Nat} {items : List (Option Node)}
    (hslot : n.slots[i]? = some (.many items)) {c : Node} (hc : some c ∈ items) :
    ∃ j, n.get? [⟨i, some j⟩] = some c := by
  obtain ⟨k, slots⟩ := n
  have hslot : slots[i]? = some (.many items) := hslot
  obtain ⟨j, hj⟩ := List.mem_iff_getElem?.mp hc
  refine ⟨j, ?_⟩
  simp [Node.get?_cons, Node.child?_mk, Node.childOfSlots, hslot, hj]

theorem itemValues_basic {env : Surroundings} {p : Position} {slot : Nat} :
    ∀ {items : List (Option Node)} {i : Nat} {vs : List Value},
      (∀ c, some c ∈ items → ∀ q v, valueOf env q c = .ok v → v.Basic) →
      itemValues env p slot i items = .ok vs → ∀ v ∈ vs, v.Basic
  | [], _, _, _, h => by
      rw [itemValues_nil] at h
      cases h
      simp
  | none :: rest, _, _, hitems, h => by
      obtain ⟨ws, hws, rfl⟩ := itemValues_cons_none.mp h
      have hrest := itemValues_basic (fun c hc => hitems c (List.mem_cons_of_mem _ hc)) hws
      intro v hv
      rcases List.mem_cons.mp hv with rfl | hv
      · exact Value.basic_undefined
      · exact hrest v hv
  | some item :: rest, _, _, hitems, h => by
      obtain ⟨w, ws, hw, hws, rfl⟩ := itemValues_cons_some.mp h
      have hrest := itemValues_basic (fun c hc => hitems c (List.mem_cons_of_mem _ hc)) hws
      intro v hv
      rcases List.mem_cons.mp hv with rfl | hv
      · exact hitems item List.mem_cons_self _ _ hw
      · exact hrest v hv

/-- **Values keep to the basic plane** if the values of names do. -/
theorem valueOf_basic {env : Surroundings}
    (henv : ∀ p name v, env.nameValue p name = .ok v → v.Basic) (n : Node) :
    ∀ p v, valueOf env p n = .ok v → v.Basic := by
  induction n using Node.belowInduction with
  | h n ih =>
      have hitems : ∀ (i : Nat) (items : List (Option Node)), n.slots[i]? = some (.many items) →
          ∀ c, some c ∈ items → ∀ q v, valueOf env q c = .ok v → v.Basic := by
        intro i items hslot c hc
        obtain ⟨j, hj⟩ := Node.exists_get?_of_mem hslot hc
        exact ih _ _ c hj
      intro p v h
      cases valueOf_eq_ok_iff.mp h with
      | @literal value raw regex slots v h =>
          unfold valueOfLiteral at h
          split at h
          · cases h
          · cases value with
            | null => cases h; exact Value.basic_null
            | bool b => cases h; exact Value.basic_bool b
            | number n => cases h; exact Value.basic_number n
            | text s =>
                obtain ⟨rfl, hs⟩ := basicPlaneOnly_eq_ok.mp h
                exact Value.basic_text.mpr hs
      | identifier h => exact henv _ _ _ h
      | template hstart htext h =>
          obtain ⟨rfl, hs⟩ := basicPlaneOnly_eq_ok.mp h
          exact Value.basic_text.mpr hs
      | unary hne hop ha h => exact UnaryOp.apply_basic _ _ _ h
      | binary hop hl hr h =>
          exact BinaryOp.apply_basic _ (ih first [] _ rfl _ _ hl) (ih second [] _ rfl _ _ hr) _ h
      | logicalLeft hl h => exact ih first [] _ rfl _ _ hl
      | logicalRight hl h hr => exact ih second [] _ rfl _ _ hr
      | conditionalYes ht h hv => exact ih second [] _ rfl _ _ hv
      | conditionalNo ht h hv => exact ih ⟨2, none⟩ [] _ rfl _ _ hv
      | sequence hvs h =>
          exact itemValues_basic (hitems 0 _ rfl) hvs v (List.mem_of_getLast? h)
      | array hvs =>
          exact Value.basic_array.mpr (itemValues_basic (hitems 0 _ rfl) hvs)
      | member hreceiver hkey h => exact Value.member_basic _ (ih first [] _ rfl _ _ hreceiver) _ h
      | callGlobal hdecoder hf hglobal hvs h =>
          exact Builtin.apply_basic _ (itemValues_basic (hitems 1 _ rfl) hvs) _ h
      | callMember hdecoder hf hvs h =>
          exact Builtin.apply_basic _ (itemValues_basic (hitems 1 _ rfl) hvs) _ h
      | callMethod hdecoder hf hname hreceiver hvs h =>
          exact Value.callMethod_basic _ (ih first [first] _ rfl _ _ hreceiver)
            (itemValues_basic (hitems 1 _ rfl) hvs) _ h

theorem valueOfBinding_basic (ctx : Context) : ∀ (fuel : Nat) (passed : List Nat) (p : Position)
    (name : String) (v : Value), valueOfBinding ctx fuel passed p name = .ok v → v.Basic
  | 0, _, _, _, _, h => by cases h
  | fuel + 1, passed, p, name, v, h => by
      rcases valueOfBinding_eq_ok.mp h with ⟨-, h⟩ | ⟨number, initPlace, init, -, -, -, h⟩
      · unfold globalValue? at h
        split at h
        · cases h; exact Value.basic_undefined
        · cases h; exact Value.basic_number _
        · cases h; exact Value.basic_number _
        · cases h
      · exact valueOf_basic (valueOfBinding_basic ctx fuel (number :: passed)) init _ _ h

theorem evaluate_basic {ctx : Context} {p : Position} {n : Node} {v : Value}
    (h : valueOf ctx.surroundings p n = .ok v) : v.Basic :=
  valueOf_basic (valueOfBinding_basic ctx _ _) n p v h

/-! ## Numbers -/

theorem valueOf_lit_number (env : Surroundings) (p : Position) (k : Number) (raw : String) :
    valueOf env p (.lit (.number k) raw) = .ok (.number k) := by
  rw [valueOf]
  rfl

theorem valueOf_negated (env : Surroundings) (p : Position) {k : Number} {d : Double} (raw : String)
    (h : k.toDouble = .ok d) :
    valueOf env p (.negated (.lit (.number k) raw)) = .ok (.number (.ofDouble d.neg)) := by
  refine valueOf_eq_ok_iff.mpr (.unary (by decide) rfl (valueOf_lit_number env _ k raw) ?_)
  show Value.neg (.number k) = _
  rw [Value.neg, Value.toDouble, Value.toNumber]
  show (do return Value.number (.ofDouble (← k.toDouble).neg) : Except Fault Value) = _
  rw [h]
  rfl

theorem Double.isInteger_neg (d : Double) : d.neg.isInteger = d.isInteger := by
  cases d <;> rfl

theorem Double.truncate?_neg (d : Double) : d.neg.truncate? = d.truncate?.map (- ·) := by
  cases d with
  | nan => rfl
  | infinite negative => rfl
  | finite negative rank =>
      cases negative with
      | false => rfl
      | true =>
          show some _ = some (- -_)
          rw [Int.neg_neg]
          rfl

theorem Number.isSafe_neg (i : Int) : isSafe (-i) = isSafe i := by
  simp only [isSafe, Int.natAbs_neg]

/-- The literal of the magnitude of an integer. -/
theorem ofMagnitude_int {i : Int} {d : Double} (h : d.isInteger = true) :
    Node.ofMagnitude (.int i) d = .lit (.number (.int i)) (intText i) := by
  unfold Node.ofMagnitude
  rw [h]
  rfl

/-- The literal of the magnitude of a double reads as the double. -/
theorem ofMagnitude_float {d : Double} (hsmall : (Number.float d).isSmall = true)
    (hpos : d.isNegative = false) :
    ∃ k raw, Node.ofMagnitude (.float d) d = .lit (.number k) raw ∧ k.toDouble = .ok d ∧
      k.normalize = .ofDouble d := by
  have hzero : d.isNegZero = false := by simp [Double.isNegZero, hpos]
  unfold Node.ofMagnitude
  split
  · rename_i j hwhole htrunc
    have htrunc : d.truncate? = some j := htrunc
    have hsafe : Number.isSafe j = true := by
      simpa only [Number.isSmall, Number.truncate?, htrunc] using hsmall
    refine ⟨_, _, rfl, ?_, ?_⟩
    · rw [Number.toDouble_int hsafe, Double.ofInt_of_truncate? htrunc hwhole hzero]
    · simp only [Number.normalize, Number.ofDouble, htrunc, hwhole, hsafe, hzero, Bool.not_false,
        Bool.and_self, if_true]
  · exact ⟨_, _, rfl, rfl, rfl⟩

/-- **The literal of a number below `2^53` in magnitude reads as the number**, up to its form. -/
theorem valueOf_ofNumber (env : Surroundings) (p : Position) {n : Number} {m : Node}
    (h : Node.ofNumber n = .ok m) (hsmall : n.isSmall = true) :
    ∃ k, valueOf env p m = .ok (.number k) ∧ k.normalize = n.normalize := by
  unfold Node.ofNumber at h
  split at h
  · cases h
  · rename_i d hd
    split at h
    · cases h
    · cases n with
      | int i =>
          have hsafe : Number.isSafe i = true := hsmall
          rw [Number.toDouble_int hsafe] at hd
          cases hd
          have hwhole := Double.isInteger_ofInt hsafe
          simp only at h
          split at h
          · rename_i hneg
            cases h
            rw [ofMagnitude_int (by rw [Double.isInteger_neg, hwhole])]
            have hsafe' : Number.isSafe (-i) = true := by rw [Number.isSafe_neg, hsafe]
            refine ⟨_, valueOf_negated env p _ (Number.toDouble_int hsafe'), ?_⟩
            rw [Double.ofDouble_neg_ofInt (by omega) hsafe', Int.neg_neg]
          · cases h
            rw [ofMagnitude_int hwhole]
            exact ⟨_, valueOf_lit_number env p _ _, rfl⟩
      | float d' =>
          cases hd
          simp only at h
          split at h
          · rename_i hneg
            cases h
            have hsmall' : (Number.float d.neg).isSmall = true := by
              simp only [Number.isSmall, Number.truncate?, Double.truncate?_neg] at hsmall ⊢
              cases htrunc : d.truncate? with
              | none => simp [htrunc] at hsmall
              | some i =>
                  rw [htrunc] at hsmall
                  simpa only [Option.map_some, Number.isSafe_neg] using hsmall
            have hpos : d.neg.isNegative = false := by
              cases d <;> simp_all [Double.neg, Double.isNegative]
            obtain ⟨k, raw, hk, hdouble, -⟩ := ofMagnitude_float hsmall' hpos
            rw [hk]
            refine ⟨_, valueOf_negated env p raw hdouble, ?_⟩
            rw [Double.neg_neg]
            exact Number.normalize_normalize (.float d)
          · rename_i hpos
            cases h
            obtain ⟨k, raw, hk, -, hnormal⟩ := ofMagnitude_float hsmall (by simpa using hpos)
            rw [hk]
            exact ⟨k, valueOf_lit_number env p k raw, hnormal⟩

/-! ## Spelled integers -/

theorem Double.isFinite_finite (negative : Bool) (rank : Fin Double.rankBound) :
    (finite negative rank).isFinite = true := rfl

theorem Double.isFinite_ofInt {v : Int} (h : Number.isSafe v = true) :
    (ofInt v).isFinite = true := by
  obtain ⟨rank, hrank, -⟩ := exists_ofInt h
  rw [hrank]
  exact isFinite_finite _ _

-- the number is kept apart from the integer, so that its double is not computed
theorem ofNumber_of_int {n : Number} {i : Int} {d : Double} (hn : n = .int i)
    (hd : n.toDouble = .ok d) (hfinite : d.isFinite = true) :
    Node.ofNumber n = if i < 0 then .ok (.negated (.ofMagnitude (.int (-i)) d.neg))
      else .ok (.ofMagnitude (.int i) d) := by
  simp only [Node.ofNumber, hd, hfinite, Bool.not_true, Bool.false_eq_true, if_false]
  clear hd
  rw [hn]

/-- An integer below `2^53` in magnitude is spelled by its digits, behind a sign if it is negative. -/
theorem ofInt_cases {v : Int} (h : Number.isSafe v = true) :
    (0 ≤ v ∧ Node.ofInt v = .lit (.number (.int v)) (intText v)) ∨
      (v < 0 ∧ Node.ofInt v = .negated (.lit (.number (.int (-v))) (intText (-v)))) := by
  have hspelled := ofNumber_of_int rfl (Number.toDouble_int h) (Double.isFinite_ofInt h)
  have hwhole : (Double.ofInt v).isInteger = true := Double.isInteger_ofInt h
  by_cases hneg : v < 0
  · refine Or.inr ⟨hneg, ?_⟩
    rw [Node.ofInt, hspelled, if_pos hneg, ofMagnitude_int (by rw [Double.isInteger_neg, hwhole])]
    simp only [Except.toOption, Option.getD_some]
  · refine Or.inl ⟨by omega, ?_⟩
    rw [Node.ofInt, hspelled, if_neg hneg, ofMagnitude_int hwhole]
    simp only [Except.toOption, Option.getD_some]

theorem ofNumber_eq_ofInt {v : Int} (h : Number.isSafe v = true) :
    Node.ofNumber (.int v) = .ok (.ofInt v) := by
  obtain ⟨n, hn⟩ : ∃ n, Node.ofNumber (.int v) = .ok n := by
    rw [ofNumber_of_int rfl (Number.toDouble_int h) (Double.isFinite_ofInt h)]
    split
    · exact ⟨_, rfl⟩
    · exact ⟨_, rfl⟩
  rw [Node.ofInt, hn]
  simp only [Except.toOption, Option.getD_some]

/-- The value of a spelled integer is the integer. -/
theorem valueOf_ofInt (env : Surroundings) (p : Position) {v : Int} (h : Number.isSafe v = true) :
    valueOf env p (.ofInt v) = .ok (.number (.int v)) := by
  rcases ofInt_cases h with ⟨-, he⟩ | ⟨hneg, he⟩
  · rw [he, valueOf_lit_number]
  · have hsafe : Number.isSafe (-v) = true := by rw [Number.isSafe_neg, h]
    rw [he, valueOf_negated env p _ (Number.toDouble_int hsafe),
      Double.ofDouble_neg_ofInt (by omega) hsafe, Int.neg_neg]

theorem Value.isLiteral_number {n : Number} {d : Double} (h : n.toDouble = .ok d) :
    (Value.number n).isLiteral = .ok d.isFinite := by
  simp only [isLiteral, h]
  rfl

/-! ## Literals -/

/-- Is the value something other than a number of magnitude `2^53` or more? -/
def Value.isSmall : Value → Bool
  | .number n => n.isSmall
  | _ => true

/-- **The literal of a value reads as the value**, up to the form of numbers. -/
theorem valueOf_literal? (env : Surroundings) (p : Position) {v : Value} {m : Node}
    (h : v.literal? = some m) (hbasic : v.Basic) (hsmall : v.isSmall = true) :
    ∃ w, valueOf env p m = .ok w ∧ w.normal = v.normal := by
  cases v with
  | null =>
      cases h
      exact ⟨.null, by rw [valueOf]; rfl, rfl⟩
  | bool b =>
      cases h
      exact ⟨.bool b, by rw [valueOf]; rfl, rfl⟩
  | text s =>
      cases h
      refine ⟨.text s, ?_, rfl⟩
      rw [Node.ofText, valueOf]
      exact basicPlaneOnly_eq_ok.mpr ⟨rfl, Value.basic_text.mp hbasic⟩
  | number n =>
      unfold Value.literal? at h
      simp only [Value.constant?, Node.ofConstant] at h
      split at h
      · rename_i node hnode
        cases h
        obtain ⟨k, hk, hnormal⟩ := valueOf_ofNumber env p hnode hsmall
        exact ⟨.number k, hk, by rw [Value.normal_number, Value.normal_number, hnormal]⟩
      · cases h
  | _ => cases h

end Descramble

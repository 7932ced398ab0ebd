import Descramble.Proofs.Evaluation.CodeUnits
import Descramble.Proofs.Number.Limit
import Descramble.Value.Method

/-!
# The search in arrays

`indexOf` takes a negative start as zero, where `slice` counts it from the end.

* `FirstEqual` — the position of the first item from a start on that equals the needle.
* `Value.findItem?_eq_ok_iff` — the search finds this position.
* `Value.IsComparable`, `exists_firstEqual` — texts, truth values and integers with a double can be
  searched to the end.
* `Value.relativeIndex_ofInt`, `Value.clampedIndex_ofInt` — the two readings of an integral index.
* `Value.indexOf_eq_ok_iff` — the answer of `indexOf` for an integral start.
* `Value.indexOf_relative_iff` — when the answer is that of the search from where `slice` starts.
-/

set_option autoImplicit false

namespace Descramble

open Value (strictEquals)

variable {items : List Value} {needle : Value} {start stop : Nat} {place : Option Nat}

/-! ## The first equal item -/

/-- No item between the positions equals the needle, and all the comparisons succeed. -/
def AllUnequal (items : List Value) (needle : Value) (start stop : Nat) : Prop :=
  ∀ i item, start ≤ i → i < stop → items[i]? = some item → strictEquals item needle = .ok false

/-- The place is the first from the start on with an item that equals the needle; without a place no
item does. -/
def FirstEqual (items : List Value) (needle : Value) (start : Nat) : Option Nat → Prop
  | some i => start ≤ i ∧ AllUnequal items needle start i ∧
      ∃ item, items[i]? = some item ∧ strictEquals item needle = .ok true
  | none => AllUnequal items needle start items.length

theorem lt_length_of_getElem? {i : Nat} {item : Value} (h : items[i]? = some item) :
    i < items.length := (List.getElem?_eq_some_iff.mp h).1

theorem firstEqual_of_length_le (h : items.length ≤ start) :
    FirstEqual items needle start place ↔ place = none := by
  cases place with
  | none =>
      refine iff_of_true (fun i item hi hlt => ?_) rfl
      omega
  | some i =>
      refine iff_of_false ?_ nofun
      rintro ⟨hi, -, item, hitem, -⟩
      have := lt_length_of_getElem? hitem
      omega

theorem allUnequal_step {item : Value} (hitem : items[start]? = some item) (hlt : start < stop) :
    AllUnequal items needle start stop ↔
      strictEquals item needle = .ok false ∧ AllUnequal items needle (start + 1) stop := by
  constructor
  · intro h
    exact ⟨h start item (Nat.le_refl _) hlt hitem, fun i item hi => h i item (by omega)⟩
  · rintro ⟨hhead, htail⟩ i other hi hstop hother
    rcases Nat.eq_or_lt_of_le hi with rfl | hi
    · rw [hitem] at hother
      cases hother
      exact hhead
    · exact htail i other hi hstop hother

/-- **One step of the search**: the item at the start is the first equal one, or the search goes on
behind it. -/
theorem firstEqual_step {item : Value} (hitem : items[start]? = some item) :
    FirstEqual items needle start place ↔
      place = some start ∧ strictEquals item needle = .ok true ∨
        strictEquals item needle = .ok false ∧ FirstEqual items needle (start + 1) place := by
  cases place with
  | none =>
      simp only [FirstEqual, allUnequal_step hitem (lt_length_of_getElem? hitem), reduceCtorEq, false_and,
        false_or]
  | some i =>
      simp only [FirstEqual, Option.some.injEq]
      rcases Nat.lt_trichotomy start i with hlt | rfl | hlt
      · rw [allUnequal_step hitem hlt]
        constructor
        · rintro ⟨-, ⟨hhead, htail⟩, hequal⟩
          exact Or.inr ⟨hhead, hlt, htail, hequal⟩
        · rintro (⟨rfl, -⟩ | ⟨hhead, -, htail, hequal⟩)
          · omega
          · exact ⟨Nat.le_of_lt hlt, ⟨hhead, htail⟩, hequal⟩
      · constructor
        · rintro ⟨-, -, other, hother, hequal⟩
          rw [hitem] at hother
          cases hother
          exact Or.inl ⟨rfl, hequal⟩
        · rintro (⟨-, hequal⟩ | ⟨-, hlt, -⟩)
          · exact ⟨Nat.le_refl _, fun i item hi hlt => by omega, item, hitem, hequal⟩
          · omega
      · constructor
        · rintro ⟨hle, -⟩
          omega
        · rintro (⟨rfl, -⟩ | ⟨-, hle, -⟩) <;> omega

/-- **The search finds the first equal item.** -/
theorem Value.findItem?_eq_ok_iff :
    findItem? needle start (items.drop start) = .ok place ↔ FirstEqual items needle start place := by
  generalize hrest : items.drop start = rest
  induction rest generalizing start with
  | nil =>
      rw [firstEqual_of_length_le (List.drop_eq_nil_iff.mp hrest)]
      simp [findItem?, eq_comm]
  | cons item rest ih =>
      have hitem : items[start]? = some item := by
        rw [← List.head?_drop, hrest]
        rfl
      have hdrop : items.drop (start + 1) = rest := by
        rw [← List.tail_drop, hrest]
        rfl
      rw [firstEqual_step hitem, ← ih hdrop, findItem?]
      cases strictEquals item needle with
      | error fault => simp [bind, Except.bind]
      | ok equal =>
          cases equal <;> simp [bind, Except.bind, pure, Except.pure, eq_comm]

/-! ## Items that can be compared -/

/-- A text, a truth value, or an integer that has a double. -/
def Value.IsComparable : Value → Prop
  | .text _ => True
  | .bool _ => True
  | .number (.int n) => n.natAbs < Number.integerLimit
  | _ => False

theorem Number.exists_toDouble_of_lt_limit {n : Int} (h : n.natAbs < integerLimit) :
    ∃ d, (int n).toDouble = .ok d := by
  cases hdouble : (int n).toDouble with
  | ok d => exact ⟨d, rfl⟩
  | error fault =>
      have := (toDouble_int_eq_error_iff.mp hdouble).2
      omega

theorem Value.strictEquals_number {a b : Number} {d e : Double} (ha : a.toDouble = .ok d)
    (hb : b.toDouble = .ok e) : strictEquals (number a) (number b) = .ok (d.eq e) := by
  simp only [strictEquals, ha, hb, bind, Except.bind, pure, Except.pure]

theorem Value.exists_strictEquals {v w : Value} (hv : v.IsComparable) (hw : w.IsComparable) :
    ∃ equal, strictEquals v w = .ok equal := by
  unfold strictEquals
  split
  · exact ⟨_, rfl⟩
  · rename_i a b
    cases a with
    | float d => cases hv
    | int m =>
        cases b with
        | float d => cases hw
        | int n =>
            obtain ⟨d, hd⟩ := Number.exists_toDouble_of_lt_limit hv
            obtain ⟨e, he⟩ := Number.exists_toDouble_of_lt_limit hw
            exact ⟨d.eq e, strictEquals_number hd he⟩
  all_goals exact ⟨_, rfl⟩

/-- **Comparable items are searched to the end**: there is a first equal item, or all are unequal. -/
theorem exists_firstEqual (hitems : ∀ item ∈ items, item.IsComparable) (hneedle : needle.IsComparable)
    (start : Nat) : ∃ place, FirstEqual items needle start place := by
  generalize hrest : items.length - start = rest
  induction rest generalizing start with
  | zero => exact ⟨none, (firstEqual_of_length_le (by omega)).mpr rfl⟩
  | succ rest ih =>
      have hitem : items[start]? = some items[start] := List.getElem?_eq_getElem (by omega)
      obtain ⟨equal, hequal⟩ :=
        Value.exists_strictEquals (hitems items[start] (List.getElem_mem _)) hneedle
      cases equal with
      | true => exact ⟨some start, (firstEqual_step hitem).mpr (Or.inl ⟨rfl, hequal⟩)⟩
      | false =>
          obtain ⟨place, hplace⟩ := ih (start + 1) (by omega)
          exact ⟨place, (firstEqual_step hitem).mpr (Or.inr ⟨hequal, hplace⟩)⟩

/-! ## Starts -/

/-- The first equal item from a later start is the first from an earlier one, if none lies between. -/
theorem FirstEqual.iff_allUnequal (h : FirstEqual items needle stop place) (hle : start ≤ stop) :
    FirstEqual items needle start place ↔ AllUnequal items needle start stop := by
  cases place with
  | none =>
      constructor
      · intro hnone i item hi _ hitem
        exact hnone i item hi (lt_length_of_getElem? hitem) hitem
      · intro hbetween i item hi hlt hitem
        rcases Nat.lt_or_ge i stop with hstop | hstop
        · exact hbetween i item hi hstop hitem
        · exact h i item hstop hlt hitem
  | some n =>
      obtain ⟨hstop, hafter, hequal⟩ := h
      constructor
      · rintro ⟨-, hbefore, -⟩ i item hi hlt hitem
        exact hbefore i item hi (by omega) hitem
      · intro hbetween
        refine ⟨Nat.le_trans hle hstop, fun i item hi hlt hitem => ?_, hequal⟩
        rcases Nat.lt_or_ge i stop with hi' | hi'
        · exact hbetween i item hi hi' hitem
        · exact hafter i item hi' hlt hitem

theorem firstEqual_min :
    FirstEqual items needle (min start items.length) place ↔ FirstEqual items needle start place := by
  rcases Nat.le_total start items.length with h | h
  · rw [Nat.min_eq_left h]
  · rw [Nat.min_eq_right h, firstEqual_of_length_le (Nat.le_refl _), firstEqual_of_length_le h]

namespace Value

/-! ## Integral indexes -/

variable {k : Int} {length default : Nat}

/-- The start that a relative index means: it counts from the end when it is negative. -/
def relativeStart (length : Nat) (k : Int) : Nat := if k < 0 then (length + k).toNat else k.toNat

theorem exists_indexOf_ofInt (hk : k.natAbs < Number.integerLimit) :
    ∃ negative rank, (ofInt k).indexOf = .ok (.finite negative rank, k) := by
  obtain ⟨d, hdouble⟩ := Number.exists_toDouble_of_lt_limit hk
  have hwhole := Number.isInteger_of_toDouble hdouble
  cases d with
  | nan => cases hwhole
  | infinite negative => cases hwhole
  | finite negative rank => exact ⟨negative, rank, indexOf_number hdouble⟩

theorem indexOf_number_error {n : Number} {fault : Fault} (h : n.toDouble = .error fault) :
    (number n).indexOf = .error fault := by
  simp only [indexOf, toNumber, h, bind, Except.bind]

theorem indexOf_ofInt_eq_error (hk : Number.integerLimit ≤ k.natAbs) :
    (ofInt k).indexOf = .error .integerTooLarge :=
  indexOf_number_error (Number.toDouble_int_eq_error_iff.mpr ⟨rfl, hk⟩)

/-- `slice` counts a negative index from the end. -/
theorem relativeIndex_ofInt (hk : k.natAbs < Number.integerLimit) :
    relativeIndex length default (ofInt k) = .ok (min (relativeStart length k) length) := by
  obtain ⟨negative, rank, hindex⟩ := exists_indexOf_ofInt hk
  rw [ofInt, relativeIndex]
  · rw [← ofInt, hindex]
    show (if k < 0 then Except.ok (length + k).toNat else Except.ok (min k.toNat length)) = _
    unfold relativeStart
    split
    · rw [Nat.min_eq_left (by omega)]
    · rfl
  · simp

/-- `indexOf` takes a negative index as zero. -/
theorem clampedIndex_ofInt (hk : k.natAbs < Number.integerLimit) :
    clampedIndex length default (ofInt k) = .ok (min k.toNat length) := by
  obtain ⟨negative, rank, hindex⟩ := exists_indexOf_ofInt hk
  rw [ofInt, clampedIndex]
  · rw [← ofInt, hindex]
    rfl
  · simp

theorem clampedIndex_ofInt_eq_error (hk : Number.integerLimit ≤ k.natAbs) :
    clampedIndex length default (ofInt k) = .error .integerTooLarge := by
  have hindex := indexOf_ofInt_eq_error hk
  rw [ofInt, clampedIndex]
  · rw [← ofInt, hindex]
    rfl
  · simp

theorem ofPlace_inj {p q : Option Nat} : ofPlace p = ofPlace q ↔ p = q := by
  cases p <;> cases q <;> grind [ofPlace, ofInt]

/-- **The answer of `indexOf`**: the search starts at zero when the start is negative, and there is no
answer when the start has no double. -/
theorem indexOf_eq_ok_iff : (array items).callMethod "indexOf" [needle, ofInt k] = .ok (ofPlace place) ↔
    k.natAbs < Number.integerLimit ∧ FirstEqual items needle k.toNat place := by
  have hcall : (array items).callMethod "indexOf" [needle, ofInt k] =
      arrayIndexOf items needle (ofInt k) := rfl
  rw [hcall, arrayIndexOf]
  rcases Nat.lt_or_ge k.natAbs Number.integerLimit with hk | hk
  · rw [clampedIndex_ofInt hk, ← firstEqual_min, ← findItem?_eq_ok_iff]
    simp only [bind, Except.bind, pure, Except.pure, hk, true_and]
    cases findItem? needle (min k.toNat items.length) (items.drop (min k.toNat items.length)) with
    | error fault => simp
    | ok found => simp [ofPlace_inj]
  · rw [clampedIndex_ofInt_eq_error hk]
    simp only [bind, Except.bind, reduceCtorEq, false_iff, not_and]
    exact fun hlt => absurd hlt (Nat.not_lt.mpr hk)

/-- **`indexOf` answers like a search from where `slice` starts exactly if** the start has a double, the
comparisons from there succeed, and a negative start leaves out no equal item in front of it.  The
comparisons of comparable values do succeed. -/
theorem indexOf_relative_iff (items : List Value) (needle : Value) (k : Int) :
    ((∃ place, FirstEqual items needle (relativeStart items.length k) place ∧
        (array items).callMethod "indexOf" [needle, ofInt k] = .ok (ofPlace place)) ↔
      k.natAbs < Number.integerLimit ∧
        (∃ place, FirstEqual items needle (relativeStart items.length k) place) ∧
        (k < 0 → AllUnequal items needle 0 (relativeStart items.length k))) ∧
    ((∀ item ∈ items, item.IsComparable) → needle.IsComparable →
      ∃ place, FirstEqual items needle (relativeStart items.length k) place) := by
  refine ⟨?_, fun hitems hneedle => exists_firstEqual hitems hneedle _⟩
  simp only [indexOf_eq_ok_iff]
  by_cases hk : k < 0
  · have hzero : k.toNat = 0 := by omega
    rw [hzero]
    constructor
    · rintro ⟨place, hplace, hlimit, hfirst⟩
      exact ⟨hlimit, ⟨place, hplace⟩, fun _ => (hplace.iff_allUnequal (Nat.zero_le _)).mp hfirst⟩
    · rintro ⟨hlimit, ⟨place, hplace⟩, hfront⟩
      exact ⟨place, hplace, hlimit, (hplace.iff_allUnequal (Nat.zero_le _)).mpr (hfront hk)⟩
  · have hstart : relativeStart items.length k = k.toNat := if_neg hk
    rw [hstart]
    constructor
    · rintro ⟨place, hplace, hlimit, -⟩
      exact ⟨hlimit, ⟨place, hplace⟩, fun h => absurd h hk⟩
    · rintro ⟨hlimit, ⟨place, hplace⟩, -⟩
      exact ⟨place, hplace, hlimit, hplace⟩

/-- `["a", "b", "a"].indexOf("a", -1)` is zero, where the search from the last item finds two. -/
theorem indexOf_relative_iff_last :
    (∀ item ∈ [text "a", text "b", text "a"], item.IsComparable) ∧ (text "a").IsComparable ∧
    (∃ place, FirstEqual [text "a", text "b", text "a"] (text "a") 2 place) ∧
    (array [text "a", text "b", text "a"]).callMethod "indexOf" [text "a", ofInt (-1)] =
      .ok (ofPlace (some 0)) ∧
    ¬ ∃ place, FirstEqual [text "a", text "b", text "a"] (text "a") 2 place ∧
      (array [text "a", text "b", text "a"]).callMethod "indexOf" [text "a", ofInt (-1)] =
        .ok (ofPlace place) := by
  have hitems : ∀ item ∈ [text "a", text "b", text "a"], item.IsComparable := by simp [IsComparable]
  have hneedle : (text "a").IsComparable := trivial
  obtain ⟨hiff, hexists⟩ := indexOf_relative_iff [text "a", text "b", text "a"] (text "a") (-1)
  have hlimit : (-1 : Int).natAbs < Number.integerLimit :=
    Nat.lt_of_lt_of_le (by decide) Number.safeBound_le_integerLimit
  have hfirst : FirstEqual [text "a", text "b", text "a"] (text "a") 0 (some 0) :=
    (firstEqual_step rfl).mpr (Or.inl ⟨rfl, rfl⟩)
  refine ⟨hitems, hneedle, hexists hitems hneedle, indexOf_eq_ok_iff.mpr ⟨hlimit, hfirst⟩, fun h => ?_⟩
  have hfront := (hiff.mp h).2.2 (by decide) 0 (text "a") (Nat.le_refl _) (by decide) rfl
  cases hfront

end Value

end Descramble

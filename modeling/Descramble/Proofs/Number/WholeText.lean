import Descramble.Proofs.Number.IntegerText

/-!
# The text of whole doubles

A whole double below `10^21` is written with the digits of its shortest decimal and zeros up to the
units, and that text reads back as the double.  From `2^53` to `10^16` the text has `.0` behind it.

* `IsDigitText` — a sign and decimal digits.
* `digitsOf_mul_pow` — zeros behind the digits multiply by powers of ten.
* `Double.shortest_whole` — the shortest decimal of a whole double is a natural number with as many
  digits.
* `Number.doubleText_whole` — the text of a whole double that is not a safe integer.
* `Value.wholeText_iff` — where the text of a whole number consists of digits.
-/

set_option autoImplicit false

namespace Descramble

/-- A text of decimal digits with at most a minus sign in front. -/
def IsDigitText (s : String) : Prop :=
  ∃ negative digits, digits ≠ [] ∧ (∀ c ∈ digits, c.isDigit = true) ∧
    s = String.ofList (signMark negative ++ digits)

theorem isDigitText_digitsOf (negative : Bool) (n : Nat) :
    IsDigitText (String.ofList (signMark negative ++ digitsOf n)) :=
  ⟨negative, digitsOf n, digitsOf_ne_nil n, fun _ => isDigit_of_mem_digitsOf, rfl⟩

theorem IsDigitText.no_point {cs : List Char} (h : IsDigitText (String.ofList cs)) : '.' ∉ cs := by
  obtain ⟨negative, digits, -, hdigits, hcs⟩ := h
  rw [String.ofList_injective hcs, List.mem_append]
  rintro (hmem | hmem)
  · revert hmem
    cases negative <;> decide
  · exact absurd (hdigits '.' hmem) (by decide)

/-! ## Zeros behind the digits -/

variable {n k : Nat}

theorem digitsOf_mul_ten (hn : 0 < n) : digitsOf (n * 10) = digitsOf n ++ ['0'] := by
  have happend := Nat.toDigits_append_toDigits (b := 10) (d := 0) (by decide) hn (by decide)
  rw [Nat.add_zero, Nat.mul_comm] at happend
  exact happend.symm

theorem digitsOf_mul_pow (hn : 0 < n) (zeros : Nat) :
    digitsOf (n * Nat.pow 10 zeros) = digitsOf n ++ List.replicate zeros '0' := by
  induction zeros with
  | zero => simp
  | succ zeros ih =>
      rw [Decimal.pow_ten_succ, Nat.mul_left_comm, Nat.mul_comm 10,
        digitsOf_mul_ten (Nat.mul_pos hn (Decimal.pow_ten_pos zeros)), ih, List.append_assoc,
        List.replicate_succ']

theorem lt_pow_length_digitsOf (n : Nat) : n < Nat.pow 10 (digitsOf n).length :=
  (Double.length_digitsOf_le_iff Nat.length_toDigits_pos).mp (Nat.le_refl _)

theorem length_digitsOf_of_bounds (hlow : Nat.pow 10 k ≤ n) (hhigh : n < Nat.pow 10 (k + 1)) :
    (digitsOf n).length = k + 1 := by
  have hle : (digitsOf n).length ≤ k + 1 :=
    (Double.length_digitsOf_le_iff (Nat.succ_pos k)).mpr hhigh
  have hpow : Nat.pow 10 k < Nat.pow 10 (digitsOf n).length :=
    Nat.lt_of_le_of_lt hlow (lt_pow_length_digitsOf n)
  have := (Nat.pow_lt_pow_iff_right (by decide)).mp hpow
  omega

/-- Dropping zeros leaves a natural number the natural number that it is. -/
theorem Decimal.exists_strip_natCast (fuel n zeros : Nat) : ∃ digits zeros' : Nat,
    Decimal.strip fuel ⟨n, zeros⟩ = ⟨digits, zeros'⟩ ∧
      digits * Nat.pow 10 zeros' = n * Nat.pow 10 zeros := by
  obtain ⟨dropped, hexponent, hdigits⟩ := exists_strip fuel ⟨n, zeros⟩
  simp only at hexponent hdigits
  refine ⟨(Decimal.strip fuel ⟨n, zeros⟩).digits, zeros + dropped, ?_, ?_⟩
  · rw [Int.natCast_add, ← hexponent]
  · rw [pow_ten_add, Nat.mul_left_comm, ← hdigits, Nat.mul_comm]

/-- A decimal that is a natural number is spelled positionally with its digits. -/
theorem Decimal.positional_natCast (hn : 0 < n) (zeros : Nat) (keepPoint : Bool) :
    (⟨n, zeros⟩ : Decimal).positional keepPoint =
      digitsOf (n * Nat.pow 10 zeros) ++ if keepPoint then ['.', '0'] else [] := by
  obtain ⟨k, hk⟩ := Double.exists_length_digitsOf n
  simp only [positional]
  rw [if_neg (by omega), if_pos (by omega), digitsOf_mul_pow hn, Int.toNat_natCast]

theorem Decimal.layout_natCast {style : DecimalStyle} {zeros : Nat} (hn : 0 < n)
    (hleast : style.leastPoint ≤ ((digitsOf n).length + zeros : Nat))
    (hgreatest : ((digitsOf n).length + zeros : Nat) ≤ style.greatestPoint) :
    (⟨n, zeros⟩ : Decimal).layout style =
      digitsOf (n * Nat.pow 10 zeros) ++ if style.keepPoint then ['.', '0'] else [] := by
  rw [layout]
  simp only
  rw [← Int.natCast_add, if_pos ⟨hleast, hgreatest⟩, positional_natCast hn]

/-! ## The shortest decimal of a whole double -/

namespace Double

variable {rank : Nat}

/-- Whole doubles other than zero lie above the binade of the unit. -/
theorem binadeSize_le_of_whole (hunits : unitsOfRank rank = n * oneUnits) (hn : 0 < n) :
    binadeSize ≤ rank := by
  unfold oneUnits at hunits
  generalize hk : 1074 = k at hunits
  refine Nat.not_lt.mp fun hlow => ?_
  rw [unitsOfRank_of_lt hlow] at hunits
  rw [hunits] at hlow
  have hpow : Nat.pow 2 52 ≤ Nat.pow 2 k := Nat.pow_le_pow_right (by decide) (by omega)
  exact absurd (Nat.le_trans hpow (Nat.le_mul_of_pos_left _ hn)) (Nat.not_le.mpr hlow)

theorem pos_of_whole (hunits : unitsOfRank rank = n * oneUnits) (hn : 0 < n) : 0 < rank :=
  Nat.lt_of_lt_of_le (by decide) (binadeSize_le_of_whole hunits hn)

/-- Powers of ten up to `10^22` are doubles, as the powers of five are safe integers. -/
theorem exists_rank_pow_ten (hk : k ≤ 22) : ∃ rank, unitsOfRank rank = Nat.pow 10 k * oneUnits := by
  have hfive : Nat.pow 5 k < Number.safeBound :=
    Nat.lt_of_le_of_lt (Nat.pow_le_pow_right (by decide) hk) (by decide)
  obtain ⟨rank, -, hunits⟩ := exists_ofInt (n := (Nat.pow 5 k : Nat)) (Number.isSafe_iff.mpr hfive)
  rw [Int.natAbs_natCast] at hunits
  have hlow := binadeSize_le_of_whole hunits (Nat.pow_pos (by decide))
  refine ⟨rank + k * binadeSize, ?_⟩
  rw [unitsOfRank_add_binades hlow, hunits, Nat.mul_right_comm]
  congr 1
  exact (Nat.mul_pow 5 2 k).symm

theorem pointPosition_whole (hn : 0 < n) : pointPosition (n * oneUnits) = (digitsOf n).length := by
  rw [pointPosition, if_pos (Nat.le_mul_of_pos_left _ hn), Nat.mul_div_cancel _ oneUnits_pos]

/-- A number that is rounded to a whole double reaches no power of ten above it. -/
theorem ne_pow_ten_of_rounded {rounded : Nat} (hunits : unitsOfRank rank = n * oneUnits)
    (hhigh : n < Nat.pow 10 k) (hk : k ≤ 22) (hread : nearestRank (rounded * oneUnits) 1 = rank) :
    rounded ≠ Nat.pow 10 k := by
  rintro rfl
  obtain ⟨power, hpower⟩ := exists_rank_pow_ten hk
  rw [← hpower, nearestRank_unitsOfRank] at hread
  rw [← hread, hpower] at hunits
  have := Nat.eq_of_mul_eq_mul_right oneUnits_pos hunits
  omega

/-- On a grid of whole numbers the point below a whole double is found by division. -/
theorem below_whole {count zeros : Nat} (hunits : unitsOfRank rank = n * oneUnits) (hn : 0 < n)
    (hlength : (digitsOf n).length = count + zeros) :
    below rank count = ⟨n / Nat.pow 10 zeros, zeros⟩ := by
  have hexponent : pointPosition (n * oneUnits) - count = zeros := by
    rw [pointPosition_whole hn]
    omega
  simp only [below, hunits, hexponent, Int.toNat_natCast, show (-(zeros : Int)).toNat = 0 by omega]
  rw [show Nat.pow 10 0 = 1 from rfl, Nat.mul_one, Nat.mul_comm n,
    Nat.mul_div_mul_left _ _ oneUnits_pos]

/-- The grid of ones has the double itself. -/
theorem withDigits?_length (hunits : unitsOfRank rank = n * oneUnits) (hn : 0 < n) :
    withDigits? rank (digitsOf n).length ≠ none := by
  intro hnone
  rcases withDigits?_cases rank (digitsOf n).length with ⟨d, hd, -⟩ | ⟨-, hbelow, -⟩
  · rw [hnone] at hd
    cases hd
  · have hpoint : below rank (digitsOf n).length = ⟨n, (0 : Nat)⟩ := by
      rw [below_whole hunits hn (Nat.add_zero _).symm, show Nat.pow 10 0 = 1 from rfl, Nat.div_one]
    rw [hpoint, Decimal.numerator_natCast, Decimal.denominator_natCast, show Nat.pow 10 0 = 1 from rfl,
      Nat.mul_one, ← hunits] at hbelow
    exact hbelow ((nearestRank_eq_iff (by decide)).mp (nearestRank_unitsOfRank rank))

/-- The first grid with an answer is one of whole numbers, and its two points around the double have
as many digits as the grid says, or are the next power of ten. -/
theorem exists_first_grid_whole (hunits : unitsOfRank rank = n * oneUnits) (hn : 0 < n) :
    ∃ k zeros point : Nat, (digitsOf n).length = k + 1 + zeros ∧
      shortest rank = Decimal.strip 20 ⟨point, zeros⟩ ∧ Nat.pow 10 k ≤ point ∧
      point ≤ Nat.pow 10 (k + 1) := by
  have hrank := pos_of_whole hunits hn
  obtain ⟨p, hp⟩ := exists_length_digitsOf n
  obtain ⟨k, d, hd, hfirst, hshortest⟩ := exists_first_grid hrank
  have hkp : k ≤ p := by
    refine Nat.not_lt.mp fun hlt => withDigits?_length hunits hn ?_
    rw [hp]
    exact hfirst p hlt
  obtain ⟨zeros, rfl⟩ := Nat.exists_eq_add_of_le hkp
  have hlength : (digitsOf n).length = k + 1 + zeros := by omega
  have hlow : Nat.pow 10 k ≤ n / Nat.pow 10 zeros := by
    rw [Nat.le_div_iff_mul_le (Decimal.pow_ten_pos zeros), ← Decimal.pow_ten_add]
    exact pow_length_digitsOf_le hn hp
  have hhigh : n / Nat.pow 10 zeros < Nat.pow 10 (k + 1) := by
    rw [Nat.div_lt_iff_lt_mul (Decimal.pow_ten_pos zeros), ← Decimal.pow_ten_add, ← hlength]
    exact lt_pow_length_digitsOf n
  rcases withDigits?_cases rank (k + 1) with ⟨d', hd', hpoint, -⟩ | ⟨hnone, -⟩
  · rw [hd, Option.some.injEq] at hd'
    rw [← hd', below_whole hunits hn hlength] at hpoint
    rcases hpoint with rfl | rfl
    · exact ⟨k, zeros, _, hlength, hshortest, hlow, Nat.le_of_lt hhigh⟩
    · exact ⟨k, zeros, _, hlength, hshortest, Nat.le_succ_of_le hlow, hhigh⟩
  · rw [hd] at hnone
    cases hnone

/-- **The shortest decimal of a whole double** is a natural number that is rounded to the double and
has as many digits. -/
theorem shortest_whole (hunits : unitsOfRank rank = n * oneUnits) (hn : 0 < n)
    (hhigh : n < Nat.pow 10 22) :
    ∃ digits zeros : Nat, shortest rank = ⟨digits, zeros⟩ ∧ 0 < digits ∧
      nearestRank (digits * Nat.pow 10 zeros * oneUnits) 1 = rank ∧
      (digitsOf (digits * Nat.pow 10 zeros)).length = (digitsOf n).length := by
  have hrank := pos_of_whole hunits hn
  obtain ⟨k, zeros, point, hlength, hshortest, hlow, hhigh'⟩ := exists_first_grid_whole hunits hn
  obtain ⟨digits, zeros', hstrip, hvalue⟩ := Decimal.exists_strip_natCast 20 point zeros
  rw [hstrip] at hshortest
  have hread := shortest_surrounds hrank
  rw [hshortest, Decimal.numerator_natCast, Decimal.denominator_natCast,
    ← nearestRank_eq_iff (by decide), hvalue] at hread
  -- the point lies between two powers of ten, and the upper one is not rounded to the double
  have hlow' : Nat.pow 10 (k + zeros) ≤ point * Nat.pow 10 zeros := by
    rw [Decimal.pow_ten_add]
    exact Nat.mul_le_mul_right _ hlow
  have hle : point * Nat.pow 10 zeros ≤ Nat.pow 10 (digitsOf n).length := by
    rw [hlength, Decimal.pow_ten_add]
    exact Nat.mul_le_mul_right _ hhigh'
  have hk : (digitsOf n).length ≤ 22 := (length_digitsOf_le_iff (Nat.succ_pos 21)).mpr hhigh
  have hne := ne_pow_ten_of_rounded hunits (lt_pow_length_digitsOf n) hk hread
  have hpos : 0 < digits * Nat.pow 10 zeros' :=
    hvalue ▸ Nat.lt_of_lt_of_le (Decimal.pow_ten_pos _) hlow'
  refine ⟨digits, zeros', hshortest, Nat.pos_of_mul_pos_right hpos, ?_⟩
  have hlength' : (digitsOf n).length = k + zeros + 1 := by omega
  rw [hvalue, hlength']
  refine ⟨hread, ?_⟩
  rw [hlength'] at hle hne
  exact length_digitsOf_of_bounds hlow' (Nat.lt_of_le_of_ne hle hne)

end Double

/-! ## The text -/

namespace Number

/-- The text of a whole double: digits up to the units, and below `10^16` a point and a zero. -/
theorem longText_whole {rank : Nat} (hunits : Double.unitsOfRank rank = n * Double.oneUnits)
    (hn : 0 < n) (hhigh : n < Nat.pow 10 21) :
    ∃ rounded : Nat, 0 < rounded ∧ Double.nearestRank (rounded * Double.oneUnits) 1 = rank ∧
      longText rank = digitsOf rounded ++ if n < Nat.pow 10 16 then ['.', '0'] else [] := by
  have hhigh' : n < Nat.pow 10 22 := Nat.lt_trans hhigh (by decide)
  obtain ⟨digits, zeros, hshortest, hdigits, hread, hlength⟩ := Double.shortest_whole hunits hn hhigh'
  refine ⟨digits * Nat.pow 10 zeros, Nat.mul_pos hdigits (Decimal.pow_ten_pos zeros), hread, ?_⟩
  rw [digitsOf_mul_pow hdigits, List.length_append, List.length_replicate] at hlength
  have hpos : 0 < (digitsOf n).length := Nat.length_toDigits_pos
  have h21 : (digitsOf n).length ≤ 21 :=
    (Double.length_digitsOf_le_iff (Nat.succ_pos 20)).mpr hhigh
  have h16 : (digitsOf n).length ≤ 16 ↔ n < Nat.pow 10 16 :=
    Double.length_digitsOf_le_iff (Nat.succ_pos 15)
  simp only [longText, hshortest]
  rw [← Int.natCast_add, hlength]
  by_cases hplain : (digitsOf n).length ≤ 16
  · have hleast : Double.plainStyle.leastPoint ≤ (digitsOf n).length := by
      simp only [Double.plainStyle]
      omega
    have hgreatest : ((digitsOf n).length : Int) ≤ Double.plainStyle.greatestPoint := by
      simp only [Double.plainStyle]
      omega
    rw [if_pos ⟨hleast, hgreatest⟩, if_pos (h16.mp hplain)]
    rw [← hlength] at hleast hgreatest
    exact Decimal.layout_natCast hdigits hleast hgreatest
  · have hgreatest : ¬ ((digitsOf n).length : Int) ≤ Double.plainStyle.greatestPoint := by
      simp only [Double.plainStyle]
      omega
    rw [if_neg fun h => hgreatest h.2, if_neg (mt h16.mpr hplain)]
    refine Decimal.layout_natCast hdigits ?_ ?_ <;> simp only [scriptStyle] <;> omega

/-- **The text of a whole double reads back as the double.** -/
theorem doubleText_whole {negative : Bool} {rank : Fin Double.rankBound}
    (hunits : Double.unitsOfRank rank = n * Double.oneUnits) (hn : 0 < n)
    (hlarge : ofDouble (.finite negative rank) = .float (.finite negative rank))
    (hhigh : n < Nat.pow 10 21) :
    ∃ rounded : Nat, doubleText (.finite negative rank) = String.ofList (signMark negative ++
        (digitsOf rounded ++ if n < Nat.pow 10 16 then ['.', '0'] else [])) ∧
      ofText (doubleText (.finite negative rank)) = .float (.finite negative rank) := by
  obtain ⟨rounded, hpos, hread, hlong⟩ := longText_whole hunits hn hhigh
  have hrank : rank.val ≠ 0 := Nat.ne_of_gt (Double.pos_of_whole hunits hn)
  have htext : doubleText (.finite negative rank) = String.ofList (signMark negative ++
      (digitsOf rounded ++ if n < Nat.pow 10 16 then ['.', '0'] else [])) := by
    simp only [doubleText, hlarge]
    rw [if_neg hrank, hlong]
    cases negative <;> rfl
  have hround : Double.ofRatio negative (rounded * Double.oneUnits) 1 = .finite negative rank := by
    rw [Double.ofRatio, hread, Double.ofRank, dif_pos rank.isLt]
  refine ⟨rounded, htext, ?_⟩
  rw [htext, ← hlarge, ← hround]
  split
  · exact ofText_point (by omega) negative
  · rw [List.append_nil]
    exact ofText_whole (by omega) negative

end Number

namespace Value

variable {v : Number} {n : Int}

/-- A whole number past the safe integers is written like its double. -/
theorem IsWhole.text_large (hv : (number v).IsWhole n) {rank : Fin Double.rankBound}
    (hrank : Double.ofInt n = .finite (decide (n < 0)) rank) (hlarge : Number.isSafe n = false) :
    v.text = .ok (Number.doubleText (.finite (decide (n < 0)) rank)) := by
  rcases hv with hv | ⟨d, hv, hwhole, htrunc⟩
  · rw [ofInt, number.injEq] at hv
    rw [hv, Number.text, if_neg (by simp [hlarge]), Number.toDouble, hrank]
    rfl
  · rw [number.injEq] at hv
    obtain ⟨negative, hd⟩ := Double.exists_holdsInt hwhole htrunc
    obtain ⟨rank', rfl, hunits⟩ := hd.exists_rank
    have hn : n ≠ 0 := by
      rintro rfl
      exact absurd hlarge (by decide)
    rw [← Double.ofInt_of_truncate? htrunc hwhole (Double.isNegZero_finite hunits (by omega)), hrank]
      at hv
    rw [hv, Number.text]

/-- **Whole numbers below `10^21` are written in digits outside the range from `2^53` to `10^16`**,
and there with `.0` behind the digits; in all cases the text converts to the number. -/
theorem wholeText_iff (hv : (number v).IsWhole n) (hdouble : ∃ d, (number (.float d)).IsWhole n)
    (hn : n.natAbs < Nat.pow 10 21) :
    ∃ s w, v.text = .ok s ∧ (text s).toNumber = .ok w ∧ (number w).IsWhole n ∧
      (IsDigitText s ↔ ¬ (Number.safeBound ≤ n.natAbs ∧ n.natAbs < Nat.pow 10 16)) ∧
      (Number.safeBound ≤ n.natAbs → n.natAbs < Nat.pow 10 16 →
        ∃ digits, IsDigitText digits ∧ s = digits ++ ".0") := by
  by_cases hsafe : n.natAbs < Number.safeBound
  · have hsafe' := Number.isSafe_iff.mpr hsafe
    refine ⟨intText n, .int n, hv.toText hsafe', by rw [toNumber, Number.ofText_intText hsafe'],
      isWhole_ofInt n, ?_, fun h => absurd hsafe (Nat.not_lt.mpr h)⟩
    rw [intText_eq]
    exact iff_of_true (isDigitText_digitsOf _ _) fun h => absurd hsafe (Nat.not_lt.mpr h.1)
  · have hsafe' : Number.isSafe n = false := decide_eq_false hsafe
    have hn0 : n ≠ 0 := by
      rintro rfl
      exact hsafe (by decide)
    obtain ⟨d, hd | ⟨_, hd, hwhole, htrunc⟩⟩ := hdouble
    · cases hd
    cases hd
    -- the double has the sign and the magnitude of the integer, and is its own normal form
    obtain ⟨negative, hholds⟩ := Double.exists_holdsInt hwhole htrunc
    obtain rfl := hholds.sign hn0
    obtain ⟨rank, rfl, hunits⟩ := hholds.exists_rank
    have hofInt := Double.ofInt_of_truncate? htrunc hwhole (Double.isNegZero_finite hunits (by omega))
    have hlarge : Number.ofDouble (.finite (decide (n < 0)) rank) =
        .float (.finite (decide (n < 0)) rank) := by
      rw [Number.ofDouble, htrunc]
      simp [hsafe']
    obtain ⟨rounded, htext, hread⟩ := Number.doubleText_whole hunits (by omega) hlarge hn
    refine ⟨_, _, hv.text_large hofInt hsafe', by rw [toNumber, hread], Or.inr ⟨_, rfl, hwhole, htrunc⟩,
      ?_⟩
    rw [htext]
    by_cases hpoint : n.natAbs < Nat.pow 10 16
    · rw [if_pos hpoint, ← List.append_assoc]
      refine ⟨iff_of_false (fun h => h.no_point (by simp)) (by simp [hpoint, Nat.not_lt.mp hsafe]),
        fun _ _ => ⟨_, isDigitText_digitsOf _ rounded, String.ofList_append⟩⟩
    · rw [if_neg hpoint, List.append_nil]
      exact ⟨iff_of_true (isDigitText_digitsOf _ rounded) fun h => hpoint h.2,
        fun _ h => absurd h hpoint⟩

/-- `2^53` is written with `.0`. -/
theorem wholeText_iff_point : ∃ s,
    (number (.float (Double.ofBits 0x4340000000000000))).IsWhole 9007199254740992 ∧
    (9007199254740992 : Int).natAbs < Nat.pow 10 21 ∧
    (Number.float (Double.ofBits 0x4340000000000000)).text = .ok s ∧
    s = "9007199254740992.0" ∧ ¬ IsDigitText s := by
  have hwhole : (number (.float (Double.ofBits 0x4340000000000000))).IsWhole 9007199254740992 :=
    Or.inr ⟨_, rfl, by decide +kernel, by decide +kernel⟩
  have hbound : (9007199254740992 : Int).natAbs < Nat.pow 10 21 := by decide
  obtain ⟨s, -, htext, -, -, hdigits, -⟩ := wholeText_iff hwhole ⟨_, hwhole⟩ hbound
  have hs : (Number.float (Double.ofBits 0x4340000000000000)).text = .ok "9007199254740992.0" := by
    decide +kernel
  refine ⟨s, hwhole, hbound, htext, ?_, ?_⟩
  · rw [htext, Except.ok.injEq] at hs
    exact hs
  · rw [hdigits, not_not]
    decide

end Value

end Descramble

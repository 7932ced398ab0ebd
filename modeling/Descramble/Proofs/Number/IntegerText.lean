import Descramble.Proofs.Number.WrittenDecimal
import Descramble.Proofs.Value.Word
import Descramble.Value.Builtin

/-!
# Integers written and read again

An integer below `2^53` is written in decimal digits, and both readers of numbers give it back.  The
reader with a radix does so for the digits of all radixes, with blanks in front and other characters
behind.

* `Double.exists_holdsInt` — a whole double holds its integral part.
* `Value.IsWhole.toText` — a safe integer is written in decimal digits, in both of its forms.
* `Number.ofText_intText` — the decimal text is converted to the integer.
* `Number.parseInteger_spells` — blanks, a sign and spelled digits are read as the integer.
* `Value.integerText_roundTrip` — all of this for the operations on values.
-/

set_option autoImplicit false

namespace Descramble

/-! ## The decimal text -/

/-- A whole double holds its integral part, with a sign. -/
theorem Double.exists_holdsInt {d : Double} {n : Int} (hwhole : d.isInteger = true)
    (htrunc : d.truncate? = some n) : ∃ negative, d.HoldsInt negative n := by
  cases d with
  | nan => cases htrunc
  | infinite negative => cases htrunc
  | finite negative rank =>
      have hunits : unitsOfRank rank = unitsOfRank rank / oneUnits * oneUnits := by
        simp only [isInteger, beq_iff_eq] at hwhole
        exact (Nat.div_mul_cancel (Nat.dvd_of_mod_eq_zero hwhole)).symm
      rw [truncate?_finite hunits, Option.some.injEq] at htrunc
      generalize unitsOfRank rank / oneUnits = k at hunits htrunc
      refine ⟨negative, ⟨rank, rfl, ?_⟩, fun hne => ?_⟩
      · rw [hunits]
        congr 1
        split at htrunc <;> omega
      · cases negative
        · simp only [Bool.false_eq_true, if_false] at htrunc
          exact (decide_eq_false (by omega)).symm
        · simp only [if_true] at htrunc
          exact (decide_eq_true (by omega)).symm

namespace Number

theorem text_int {n : Int} (hsafe : isSafe n = true) : (int n).text = .ok (intText n) := if_pos hsafe

/-- A safe integer that is held as a double is written like the integer; a zero has no sign. -/
theorem text_of_holdsInt {d : Double} {negative : Bool} {n : Int} (h : d.HoldsInt negative n)
    (hsafe : isSafe n = true) : (float d).text = .ok (intText n) := by
  by_cases hzero : n = 0 ∧ negative = true
  · obtain ⟨rfl, rfl⟩ := hzero
    rw [h.unique (Double.holdsInt_signedZero true)]
    decide +kernel
  · rw [← text_normalize, normalize, h.ofDouble_eq_int hsafe fun hn => by simpa [hn] using hzero,
      text_int hsafe]

end Number

/-- **A safe integer is written in decimal digits**, held exactly or as a double. -/
theorem Value.IsWhole.toText {v : Value} {n : Int} (hv : v.IsWhole n) (hsafe : Number.isSafe n = true) :
    v.toText = .ok (intText n) := by
  rcases hv with rfl | ⟨d, rfl, hwhole, htrunc⟩
  · rw [ofInt, Value.toText, Number.text_int hsafe]
  · obtain ⟨negative, h⟩ := Double.exists_holdsInt hwhole htrunc
    rw [Value.toText, Number.text_of_holdsInt h hsafe]

/-! ## Reading the decimal text -/

namespace Number

/-- A safe integer needs no rounding when its magnitude has been read. -/
theorem ofIntegerClipped_natAbs {n : Int} (hsafe : isSafe n = true) :
    ofIntegerClipped (decide (n < 0)) n.natAbs = .int n :=
  (Double.holdsInt_ofRatio hsafe rfl fun _ => rfl).ofDouble_eq_int hsafe fun hn => by simp [hn]

/-- **The decimal text of a safe integer is converted to the integer.** -/
theorem ofText_intText {n : Int} (hsafe : isSafe n = true) : ofText (intText n) = .int n := by
  by_cases hn : n = 0
  · subst hn
    decide +kernel
  · rw [intText_eq, ofText_whole (by omega)]
    exact ofIntegerClipped_natAbs hsafe

/-! ## Reading digits of a radix -/

variable {base n : Nat} {before cs : List Char}

/-- No digit is a blank or a sign. -/
theorem hexDigit_visible : ∀ upper, ∀ d < 36, Text.isBlank (Text.hexDigit upper d) = false ∧
    Text.hexDigit upper d ≠ '-' ∧ Text.hexDigit upper d ≠ '+' := by decide

/-- Spelled places start with a digit. -/
theorem visible_of_spells (hbase : 1 < base) (hbase' : base ≤ 36) (hcs : Spells cs (places base n))
    (rest : List Char) :
    ∀ c ∈ (cs ++ rest).head?, Text.isBlank c = false ∧ c ≠ '-' ∧ c ≠ '+' := by
  obtain ⟨c, cs, d, ds, rfl, hplaces, ⟨upper, rfl⟩, -⟩ := hcs.exists_cons
  have hd : d < base := lt_of_mem_places hbase (hplaces ▸ List.mem_cons_self)
  rintro _ ⟨⟩
  exact hexDigit_visible upper d (by omega)

theorem takeSign_signMark (negative : Bool) (h : ∀ c ∈ cs.head?, c ≠ '-' ∧ c ≠ '+') :
    takeSign (signMark negative ++ cs) = (negative, cs) := by
  cases negative with
  | true => rfl
  | false =>
      simp only [signMark, Bool.false_eq_true, if_false, List.nil_append]
      unfold takeSign
      split
      · exact absurd rfl (h '-' rfl).1
      · exact absurd rfl (h '+' rfl).2
      · rfl

theorem trimStart_append (hbefore : ∀ c ∈ before, Text.isBlank c = true)
    (hcs : ∀ c ∈ cs.head?, Text.isBlank c = false) :
    Text.trimStart Text.isBlank (before ++ cs) = cs := by
  rw [Text.trimStart, List.dropWhile_append_of_pos hbefore]
  cases cs with
  | nil => rfl
  | cons c cs => exact List.dropWhile_cons_of_neg (by simp [hcs c rfl])

/-- Digits are not taken for the mark `0x`, unless a lone zero stands in front of an `x`. -/
theorem dropHexMark_of_spells (hbase : 1 < base) (hbase' : base ≤ 36) (hcs : Spells cs (places base n))
    {rest : List Char} (hmark : cs = ['0'] → ∀ c ∈ rest.head?, c ≠ 'x' ∧ c ≠ 'X') :
    dropHexMark (cs ++ rest) = (false, cs ++ rest) := by
  obtain ⟨c, cs, d, ds, rfl, hplaces, hc, hcs⟩ := hcs.exists_cons
  have hd : d < base := lt_of_mem_places hbase (hplaces ▸ List.mem_cons_self)
  unfold dropHexMark
  split
  · rename_i mark after heq
    obtain ⟨rfl, hafter⟩ := List.cons.inj heq
    -- a leading zero is the only digit
    have hzero : d = 0 :=
      Option.some.inj ((IntegerText.digitValue?_of_spellsDigit hc (by omega)).symm.trans (by decide))
    subst hzero
    rw [eq_zero_of_places hplaces, places_of_lt (by omega)] at hplaces
    obtain rfl := (List.cons.inj hplaces).2
    cases hcs
    replace hafter : rest = mark :: after := hafter
    obtain ⟨hx, hX⟩ := hmark rfl mark (by rw [hafter]; rfl)
    rw [if_neg (by simp [hx, hX]), hafter]
    rfl
  · rfl

/-- **Spelled digits are read as the number**: blanks in front, a sign, the digits of the radix in
either case, and behind them a text that does not go on with a digit. -/
theorem parseInteger_spells {radix : Int} (hradix : radix = base ∨ radix = 0 ∧ base = 10)
    (hbase : 1 < base) (hbase' : base ≤ 36) (hbefore : ∀ c ∈ before, Text.isBlank c = true)
    (hcs : Spells cs (places base n)) {rest : List Char}
    (hrest : ∀ c ∈ rest.head?, ∀ d < base, ¬ SpellsDigit c d)
    (hmark : radix = 16 ∨ radix = 0 → cs = ['0'] → ∀ c ∈ rest.head?, c ≠ 'x' ∧ c ≠ 'X')
    (negative : Bool) :
    parseInteger (before ++ (signMark negative ++ (cs ++ rest))) radix = ofIntegerClipped negative n := by
  have hvisible := visible_of_spells hbase hbase' hcs rest
  have hblank : ∀ c ∈ (signMark negative ++ (cs ++ rest)).head?, Text.isBlank c = false := by
    cases negative with
    | true => rintro _ ⟨⟩; decide
    | false => exact fun c hc => (hvisible c hc).1
  have hsign := takeSign_signMark negative fun c hc => (hvisible c hc).2
  have htake := IntegerText.takeWhile_of_spells hbase' hcs (fun d => lt_of_mem_places hbase) hrest
  have hvalue := IntegerText.positional?_places hbase hbase' hcs
  have hmarkless : radix = 16 ∨ radix = 0 → dropHexMark (cs ++ rest) = (false, cs ++ rest) :=
    fun h => dropHexMark_of_spells hbase hbase' hcs (hmark h)
  -- the radix is the base, and the mark takes nothing away
  have hchoice : (if radix = 0 then
        (if (dropHexMark (cs ++ rest)).1 = true then 16 else 10, (dropHexMark (cs ++ rest)).2)
      else if radix = 16 then (16, (dropHexMark (cs ++ rest)).2) else (radix, cs ++ rest)) =
      ((base : Int), cs ++ rest) := by
    rcases hradix with rfl | ⟨rfl, rfl⟩
    · rw [if_neg (by omega)]
      split
      · rename_i h16
        rw [hmarkless (Or.inl h16), h16]
      · rfl
    · rw [if_pos rfl, hmarkless (Or.inr rfl)]
      rfl
  simp only [parseInteger, trimStart_append hbefore hblank, hsign, hchoice, Int.toNat_natCast, htake,
    hvalue]
  rw [if_neg (by omega)]
  obtain ⟨c, cs, -, -, rfl, -⟩ := hcs.exists_cons
  rfl

end Number

/-! ## The readers of values -/

namespace Value

theorem toInt32_radix {r : Nat} (hr : r ≤ 36) : (ofInt r).toInt32 = .ok r := by
  have hsmall : (r : Int).natAbs < Nat.pow 2 1023 := by
    apply natAbs_lt_pow
    rw [Int.natAbs_natCast]
    exact Nat.le_trans hr (by decide)
  have hinteger := (isWhole_ofInt r).toInteger hsmall
  have hsigned : IsSigned32 r r := ⟨by omega, by omega, rfl⟩
  rw [toInt32_of_toInteger hinteger, (isSigned32_word r).unique hsigned]

/-- Without a radix the text is read with the radix zero. -/
theorem parseInt_text (s : String) :
    Builtin.parseInt.apply [text s] = .ok (.number (Number.parseInteger s.toList 0)) := by
  simp [Builtin.apply, Builtin.readInteger, toText, bind, Except.bind, pure, Except.pure]

theorem readInteger_of_toInt32 (s : String) {radix : Number} {k : Int}
    (h : (number radix).toInt32 = .ok k) :
    Builtin.readInteger (text s) (number radix) = .ok (.number (Number.parseInteger s.toList k)) := by
  simp only [Builtin.readInteger, toText, h, bind, Except.bind, pure, Except.pure]

theorem parseInt_radix (cs : List Char) {r : Nat} (hr : r ≤ 36) :
    Builtin.parseInt.apply [text (String.ofList cs), ofInt r] =
      .ok (.number (Number.parseInteger cs r)) := by
  have hread := readInteger_of_toInt32 (String.ofList cs) (toInt32_radix hr)
  rwa [String.toList_ofList] at hread

/-- **Integers are written and read again**: an integer below `2^53`, held exactly or as a double, has a
decimal text that converts to the integer and that is read as the integer; and in every radix its
digits, upper or lower case, are read as the integer, with blanks in front and a text behind that does
not go on with a digit.  Only a lone zero in front of an `x` is no digit in radix sixteen. -/
theorem integerText_roundTrip {v : Value} {n : Int} (hv : v.IsWhole n)
    (hn : n.natAbs < Number.safeBound) :
    (∃ s, v.toText = .ok s ∧ (text s).toNumber = .ok (.int n) ∧
      Builtin.parseInt.apply [text s] = .ok (ofInt n)) ∧
    ∀ {r : Nat} {before digits rest : List Char}, 2 ≤ r → r ≤ 36 →
      (∀ c ∈ before, Text.isBlank c = true) → Spells digits (places r n.natAbs) →
      (∀ c ∈ rest.head?, ∀ d < r, ¬ SpellsDigit c d) →
      ¬ (r = 16 ∧ digits = ['0'] ∧ ∃ c ∈ rest.head?, c = 'x' ∨ c = 'X') →
        Builtin.parseInt.apply [text (String.ofList
          (before ++ (signMark (decide (n < 0)) ++ (digits ++ rest)))), ofInt r] = .ok (ofInt n) := by
  have hsafe : Number.isSafe n = true := Number.isSafe_iff.mpr hn
  have hread := Number.ofIntegerClipped_natAbs hsafe
  constructor
  · refine ⟨intText n, hv.toText hsafe, by rw [toNumber, Number.ofText_intText hsafe], ?_⟩
    have hblank : ∀ c ∈ ([] : List Char), Text.isBlank c = true := by simp
    have hrest : ∀ c ∈ ([] : List Char).head?, ∀ d < 10, ¬ SpellsDigit c d := by simp
    have hparse := Number.parseInteger_spells (Or.inr ⟨rfl, rfl⟩) (by decide) (by decide) hblank
      (spells_digitsOf n.natAbs) hrest (by simp) (decide (n < 0))
    rw [List.append_nil, List.nil_append, hread] at hparse
    rw [parseInt_text, intText_eq, String.toList_ofList, hparse, ofInt]
  · intro r before digits rest hr hr' hbefore hdigits hrest hmark
    have hmark' : (r : Int) = 16 ∨ (r : Int) = 0 → digits = ['0'] →
        ∀ c ∈ rest.head?, c ≠ 'x' ∧ c ≠ 'X' := by
      intro hr16 hzero c hc
      exact not_or.mp fun hx => hmark ⟨by omega, hzero, c, hc, hx⟩
    rw [parseInt_radix _ hr', Number.parseInteger_spells (Or.inl rfl) hr hr' hbefore hdigits hrest hmark',
      hread, ofInt]

/-- A negative integer, held as a double, and its digits in radix sixteen between other characters. -/
theorem integerText_roundTrip_negative :
    IsWhole (number (.float (Double.ofInt (-171)))) (-171) ∧
    (-171 : Int).natAbs < Number.safeBound ∧
    (∃ s, (number (.float (Double.ofInt (-171)))).toText = .ok s ∧
      (text s).toNumber = .ok (.int (-171)) ∧ Builtin.parseInt.apply [text s] = .ok (ofInt (-171))) ∧
    Builtin.parseInt.apply [text (String.ofList [' ', '-', 'a', 'B', 'z']), ofInt 16] =
      .ok (ofInt (-171)) := by
  have hwhole : IsWhole (number (.float (Double.ofInt (-171)))) (-171) :=
    Or.inr ⟨_, rfl, by decide +kernel, by decide +kernel⟩
  have hsafe : (-171 : Int).natAbs < Number.safeBound := by decide
  obtain ⟨hdecimal, hradix⟩ := integerText_roundTrip hwhole hsafe
  have hdigits : Spells ['a', 'B'] (places 16 (-171 : Int).natAbs) :=
    .cons ⟨false, by decide⟩ (.cons ⟨true, by decide⟩ .nil)
  have hblank : ∀ c ∈ [' '], Text.isBlank c = true := List.forall_mem_singleton.mpr rfl
  have hrest : ∀ c ∈ ['z'].head?, ∀ d < 16, ¬ SpellsDigit c d := by
    rintro _ ⟨⟩
    unfold SpellsDigit
    decide
  have hread := hradix (r := 16) (by decide) (by decide) hblank hdigits hrest (by decide)
  have hchars : [' '] ++ (signMark (decide ((-171 : Int) < 0)) ++ (['a', 'B'] ++ ['z'])) =
      [' ', '-', 'a', 'B', 'z'] := rfl
  rw [hchars] at hread
  exact ⟨hwhole, hsafe, hdecimal, hread⟩

end Value

end Descramble

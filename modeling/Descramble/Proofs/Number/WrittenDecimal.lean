import Mathlib.Data.List.TakeWhile
import Descramble.Proofs.Number.Digit
import Descramble.Proofs.Number.Shortest
import Descramble.Proofs.Value.Arithmetic

/-!
# Whole decimals read as numbers

A sign, the decimal digits of a number and perhaps `.0` behind them are read by rounding the number.

* `signMark` — the minus sign of a negative number.
* `Text.trim_append` — what stands between blanks is left.
* `Number.ofText_of_scan?` — a text of decimal characters is read by the decimal reader.
* `Number.ofText_whole`, `Number.ofText_point` — the two spellings of a whole number.
-/

set_option autoImplicit false

namespace Descramble

/-- The sign of a written number; only negative numbers have one. -/
def signMark (negative : Bool) : List Char := if negative then ['-'] else []

theorem intText_eq (n : Int) :
    intText n = String.ofList (signMark (decide (n < 0)) ++ digitsOf n.natAbs) := by
  unfold intText signMark
  by_cases h : n < 0 <;> simp [h]

variable {cs : List Char} {negative : Bool}

/-! ## Blanks -/

theorem dropWhile_eq_self {drop : Char → Bool} (h : ∀ c ∈ cs, drop c = false) : cs.dropWhile drop = cs := by
  cases cs with
  | nil => rfl
  | cons c cs => exact List.dropWhile_cons_of_neg (by simp [h c List.mem_cons_self])

namespace Text

variable {drop : Char → Bool} {before core after : List Char}

/-- What stands between blanks is left when it has no blanks. -/
theorem trim_append (hbefore : ∀ c ∈ before, drop c = true) (hcore : ∀ c ∈ core, drop c = false)
    (hafter : ∀ c ∈ after, drop c = true) : trim drop (before ++ (core ++ after)) = core := by
  rw [trim, List.dropWhile_append_of_pos hbefore]
  have hafter' : ∀ c ∈ after.reverse, drop c = true := fun c hc => hafter c (List.mem_reverse.mp hc)
  have hcore' : ∀ c ∈ core.reverse, drop c = false := fun c hc => hcore c (List.mem_reverse.mp hc)
  by_cases hempty : core = []
  · subst hempty
    rw [List.nil_append, List.dropWhile_eq_nil_iff.mpr hafter]
    rfl
  · have hstart : (core ++ after).dropWhile drop = core ++ after := by
      obtain ⟨c, cs, rfl⟩ := List.exists_cons_of_ne_nil hempty
      exact List.dropWhile_cons_of_neg (by simp [hcore c List.mem_cons_self])
    rw [hstart, List.reverse_append, List.dropWhile_append_of_pos hafter', dropWhile_eq_self hcore',
      List.reverse_reverse]

theorem trim_eq_self (h : ∀ c ∈ cs, drop c = false) : trim drop cs = cs := by
  have hnone : ∀ c ∈ ([] : List Char), drop c = true := by simp
  have htrim := trim_append hnone h hnone
  rwa [List.append_nil, List.nil_append] at htrim

end Text

/-! ## Decimal characters -/

/-- The characters of a decimal without an exponent lie between the minus sign and the digit nine. -/
def AllDecimal (cs : List Char) : Prop := ∀ c ∈ cs, 45 ≤ c.toNat ∧ c.toNat ≤ 57

namespace AllDecimal

theorem append {ds : List Char} (hcs : AllDecimal cs) (hds : AllDecimal ds) : AllDecimal (cs ++ ds) :=
  fun c hc => (List.mem_append.mp hc).elim (hcs c) (hds c)

theorem of_isDigit (h : ∀ c ∈ cs, c.isDigit = true) : AllDecimal cs := fun c hc => by
  have hrange : 48 ≤ c.toNat ∧ c.toNat ≤ 57 := Char.isDigit_iff_toNat.mp (h c hc)
  omega

theorem digitsOf (n : Nat) : AllDecimal (digitsOf n) := of_isDigit fun _ => isDigit_of_mem_digitsOf

theorem signMark (negative : Bool) : AllDecimal (signMark negative) := by
  cases negative <;> simp [AllDecimal, Descramble.signMark]

theorem isBlank (h : AllDecimal cs) : ∀ c ∈ cs, Text.isBlank c = false := by
  intro c hc
  have hrange := h c hc
  by_contra hblank
  simp only [Bool.not_eq_false, Text.isBlank, Bool.or_eq_true, beq_iff_eq] at hblank
  rcases hblank with ((((((((rfl | rfl) | rfl) | rfl) | rfl) | rfl) | rfl) | rfl) | rfl) | rfl <;>
    revert hrange <;> decide

theorem announcedBase?_eq_none (h : AllDecimal cs) : Number.announcedBase? cs = none := by
  unfold Number.announcedBase?
  split
  · rename_i c rest
    have hrange := h c (by simp)
    have hletter : ∀ letter : Char, 57 < letter.toNat → (c == letter) = false := by
      intro letter hletter
      rw [beq_eq_false_iff_ne]
      rintro rfl
      omega
    simp [hletter 'x' (by decide), hletter 'X' (by decide), hletter 'o' (by decide),
      hletter 'O' (by decide), hletter 'b' (by decide), hletter 'B' (by decide)]
  · rfl

theorem not_mem_letter (h : AllDecimal cs) : 'I' ∉ cs := fun hmem =>
  absurd (h 'I' hmem).2 (by decide)

end AllDecimal

/-- **A text of decimal characters is read by the decimal reader.** -/
theorem Number.ofText_of_scan? {decimal : Decimal} (hne : cs ≠ []) (h : AllDecimal cs)
    (hscan : DecimalText.scan? cs = some ⟨negative, decimal, []⟩) :
    ofText (String.ofList cs) = ofDouble (Double.ofDecimal negative decimal) := by
  have hempty : cs.isEmpty = false := by simpa using hne
  have hword : ¬ (cs = infinityWord ∨ cs = '+' :: infinityWord) := by
    rintro (rfl | rfl) <;> exact h.not_mem_letter (by decide)
  have hword' : cs ≠ '-' :: infinityWord := by
    rintro rfl
    exact h.not_mem_letter (by decide)
  rw [ofText, String.toList_ofList, Text.trim_eq_self h.isBlank, ofTrimmed, hempty, if_neg (by simp),
    h.announcedBase?_eq_none]
  simp only [if_neg hword, if_neg hword', hscan]

/-! ## The decimal reader on whole numbers -/

namespace DecimalText

theorem unsigned?_whole {ns : List Nat} (hne : ns ≠ []) (h : digits cs = (ns, [])) :
    unsigned? negative cs = some ⟨negative, ⟨value ns, 0⟩, []⟩ := by
  obtain ⟨n, ns, rfl⟩ := List.exists_cons_of_ne_nil hne
  simp [unsigned?, h, exponentPart]

theorem unsigned?_point {after : List Char} {ns fraction : List Nat} (hne : ns ≠ [])
    (h : digits cs = (ns, '.' :: after)) (hafter : digits after = (fraction, [])) :
    unsigned? negative cs = some ⟨negative, ⟨value (ns ++ fraction), -fraction.length⟩, []⟩ := by
  obtain ⟨n, ns, rfl⟩ := List.exists_cons_of_ne_nil hne
  simp [unsigned?, h, hafter, exponentPart]

/-- The sign is taken off in front of a digit. -/
theorem scan?_signMark (hdigit : ∀ c ∈ cs.head?, c.isDigit = true) :
    scan? (signMark negative ++ cs) = unsigned? negative cs := by
  cases negative with
  | true => rfl
  | false =>
      simp only [signMark, Bool.false_eq_true, if_false, List.nil_append]
      unfold scan?
      split
      · exact absurd (hdigit '-' rfl) (by decide)
      · exact absurd (hdigit '+' rfl) (by decide)
      · rfl

theorem isDigit_head?_digitsOf (n : Nat) (rest : List Char) :
    ∀ c ∈ (digitsOf n ++ rest).head?, c.isDigit = true := by
  intro c hc
  rw [List.head?_append_of_ne_nil _ (digitsOf_ne_nil n)] at hc
  exact isDigit_of_mem_digitsOf (List.mem_of_mem_head? hc)

theorem digits_digitsOf (n : Nat) (rest : List Char)
    (hrest : ∀ c ∈ rest.head?, Unicode.decimalValue? c = none) :
    digits (digitsOf n ++ rest) = ((digitsOf n).map (·.toNat - 48), rest) :=
  digits_append (fun _ => isDigit_of_mem_digitsOf) hrest

theorem scan?_whole (negative : Bool) (n : Nat) :
    scan? (signMark negative ++ digitsOf n) = some ⟨negative, ⟨n, 0⟩, []⟩ := by
  have hdigits := digits_digitsOf n [] (by simp)
  have hhead := isDigit_head?_digitsOf n []
  rw [List.append_nil] at hdigits hhead
  rw [scan?_signMark hhead, unsigned?_whole (by simp [digitsOf_ne_nil]) hdigits, value_digitsOf]

theorem scan?_point (negative : Bool) (n : Nat) :
    scan? (signMark negative ++ (digitsOf n ++ ['.', '0'])) = some ⟨negative, ⟨10 * n, -1⟩, []⟩ := by
  have hdigits := digits_digitsOf n ['.', '0'] (by rintro _ ⟨⟩; rfl)
  have hfraction : digits ['0'] = ([0], []) := rfl
  have hvalue : value ((digitsOf n).map (·.toNat - 48) ++ [0]) = 10 * n := by
    rw [value, List.foldl_append, ← value, value_digitsOf]
    rfl
  rw [scan?_signMark (isDigit_head?_digitsOf n _),
    unsigned?_point (by simp [digitsOf_ne_nil]) hdigits hfraction, hvalue]
  rfl

end DecimalText

/-! ## Whole numbers -/

namespace Double

theorem ofDecimal_whole {n : Nat} (hn : n ≠ 0) (negative : Bool) :
    ofDecimal negative ⟨n, 0⟩ = ofRatio negative (n * oneUnits) 1 := by
  have hnum := Decimal.numerator_natCast n 0
  have hden := Decimal.denominator_natCast n 0
  rw [Int.natCast_zero] at hnum hden
  rw [show Nat.pow 10 0 = 1 from rfl, Nat.mul_one] at hnum
  rw [ofDecimal_eq_ofRatio hn (by simp only; omega) (by simp only; omega), hnum, hden]

theorem ofDecimal_point {n : Nat} (hn : n ≠ 0) (negative : Bool) :
    ofDecimal negative ⟨10 * n, -1⟩ = ofRatio negative (n * oneUnits) 1 := by
  have hnum : (⟨10 * n, -1⟩ : Decimal).numerator = n * oneUnits * 10 := by
    rw [Decimal.numerator, show (-1 : Int).toNat = 0 from rfl, show Nat.pow 10 0 = 1 from rfl,
      Nat.mul_one, Nat.mul_comm 10, Nat.mul_right_comm]
  have hden : (⟨10 * n, -1⟩ : Decimal).denominator = 10 := rfl
  rw [ofDecimal_eq_ofRatio (by simpa using hn) (by simp only; omega) (by simp only; omega), hnum, hden,
    ofRatio, nearestRank_mul_den (by decide), ofRatio]

end Double

namespace Number

/-- A sign and digits are read by rounding the number. -/
theorem ofText_whole {n : Nat} (hn : n ≠ 0) (negative : Bool) :
    ofText (String.ofList (signMark negative ++ digitsOf n)) =
      ofDouble (Double.ofRatio negative (n * Double.oneUnits) 1) := by
  rw [ofText_of_scan? (by simp [digitsOf_ne_nil])
    ((AllDecimal.signMark negative).append (AllDecimal.digitsOf n)) (DecimalText.scan?_whole negative n),
    Double.ofDecimal_whole hn]

/-- A point and a zero behind the digits do not count. -/
theorem ofText_point {n : Nat} (hn : n ≠ 0) (negative : Bool) :
    ofText (String.ofList (signMark negative ++ (digitsOf n ++ ['.', '0']))) =
      ofDouble (Double.ofRatio negative (n * Double.oneUnits) 1) := by
  have htail : AllDecimal ['.', '0'] := by simp [AllDecimal]
  rw [ofText_of_scan? (by simp) ((AllDecimal.signMark negative).append
    ((AllDecimal.digitsOf n).append htail)) (DecimalText.scan?_point negative n),
    Double.ofDecimal_point hn]

end Number

end Descramble

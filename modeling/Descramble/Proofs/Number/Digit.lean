import Mathlib.Data.List.Forall2
import Mathlib.Data.Nat.Digits.Lemmas
import Descramble.Number.Reading

/-!
# Spelled digits

* `places` — the digits of a number in a base, the most significant first.
* `positional` — the number that digits spell in a base.
* `Spells` — characters that spell digits; a letter may be upper or lower case.
* `digitIn?_eq_some_iff` — the digits of a base that the reader knows are the spelled ones.
* `positional?_of_spells`, `positional?_places` — the reader of digits computes their value.
* `spells_digitsOf` — decimal digits are spelled by the decimal text of a number.
* `DecimalText.digits_append`, `DecimalText.value_digitsOf` — decimal digits as the decimal reader
  takes them.
-/

set_option autoImplicit false

namespace Descramble

/-- The digits of a number in a base, the most significant first; zero has one digit. -/
def places (base n : Nat) : List Nat := if n = 0 then [0] else (Nat.digits base n).reverse

/-- The number that digits spell in a base. -/
def positional (base : Nat) (ds : List Nat) : Nat := ds.foldl (fun v d => v * base + d) 0

/-- The character spells the digit: a decimal digit, or a letter in either case. -/
def SpellsDigit (c : Char) (d : Nat) : Prop := ∃ upper, c = Text.hexDigit upper d

/-- The characters spell the digits one by one. -/
def Spells (cs : List Char) (ds : List Nat) : Prop := List.Forall₂ SpellsDigit cs ds

variable {base n d : Nat} {c : Char} {cs rest : List Char} {ds : List Nat}

/-! ## The places of a number -/

theorem places_of_lt (h : n < base) : places base n = [n] := by
  unfold places
  split
  · rename_i hzero
    rw [hzero]
  · rename_i hne
    rw [Nat.digits_of_lt base n hne h, List.reverse_singleton]

theorem places_of_le (hbase : 1 < base) (h : base ≤ n) :
    places base n = places base (n / base) ++ [n % base] := by
  have hdiv : 0 < n / base := Nat.div_pos h (by omega)
  rw [places, places, if_neg (by omega), if_neg (by omega), Nat.digits_def' hbase (by omega),
    List.reverse_cons]

theorem lt_of_mem_places (hbase : 1 < base) (h : d ∈ places base n) : d < base := by
  unfold places at h
  split at h
  · have := List.mem_singleton.mp h
    omega
  · exact Nat.digits_lt_base hbase (List.mem_reverse.mp h)

/-- Only zero has a leading zero. -/
theorem eq_zero_of_places (h : places base n = 0 :: ds) : n = 0 := by
  by_contra hne
  rw [places, if_neg hne] at h
  have hlast := Nat.getLast_digit_ne_zero base hne
  rw [← List.head_reverse (by simpa using Nat.digits_ne_nil_iff_ne_zero.mpr hne)] at hlast
  simp only [h, List.head_cons, ne_eq, not_true_eq_false] at hlast

theorem places_ne_nil (base n : Nat) : places base n ≠ [] := by
  unfold places
  split
  · simp
  · rename_i hne
    simpa using Nat.digits_ne_nil_iff_ne_zero.mpr hne

/-- What spells a number has a first digit. -/
theorem Spells.exists_cons (h : Spells cs (places base n)) : ∃ c cs' d ds, cs = c :: cs' ∧
    places base n = d :: ds ∧ SpellsDigit c d ∧ Spells cs' ds := by
  have hne := places_ne_nil base n
  generalize places base n = ds at *
  cases h with
  | nil => exact absurd rfl hne
  | cons hc hcs => exact ⟨_, _, _, _, rfl, rfl, hc, hcs⟩

/-- The places give the number back. -/
theorem positional_places (base n : Nat) : positional base (places base n) = n := by
  unfold places
  split
  · rename_i hzero
    simp [positional, hzero]
  · rw [positional, List.foldl_reverse]
    conv_rhs => rw [← Nat.ofDigits_digits base n, Nat.ofDigits_eq_foldr]
    simp only [Nat.add_comm, Nat.mul_comm, Nat.cast_id]

/-! ## Digits of a base -/

namespace IntegerText

theorem digitValue?_hexDigit :
    ∀ upper, ∀ d < 36, digitValue? (Text.hexDigit upper d) = some d := by decide

theorem isLower_iff_toNat : c.isLower = true ↔ 97 ≤ c.toNat ∧ c.toNat ≤ 122 := by
  change (decide (97 ≤ c.val) && decide (c.val ≤ 122)) = true ↔ _
  rw [Bool.and_eq_true, decide_eq_true_eq, decide_eq_true_eq]
  exact Iff.rfl

theorem isUpper_iff_toNat : c.isUpper = true ↔ 65 ≤ c.toNat ∧ c.toNat ≤ 90 := by
  change decide (65 ≤ c.val ∧ c.val ≤ 90) = true ↔ _
  rw [decide_eq_true_eq]
  exact Iff.rfl

/-- What has a value as a digit is spelled: a decimal digit, or a letter of one of the two cases. -/
theorem spellsDigit_of_digitValue? (h : digitValue? c = some d) : SpellsDigit c d := by
  unfold digitValue? at h
  split at h
  · rename_i hdigit
    have hrange : 48 ≤ c.toNat ∧ c.toNat ≤ 57 := Char.isDigit_iff_toNat.mp hdigit
    cases h
    refine ⟨false, ?_⟩
    rw [Text.hexDigit, if_pos (by omega), Nat.add_sub_cancel' hrange.1, Char.ofNat_toNat]
  · split at h
    · rename_i hlower
      have hrange := isLower_iff_toNat.mp hlower
      cases h
      refine ⟨false, ?_⟩
      rw [Text.hexDigit, if_neg (by omega), if_neg (by decide), Nat.add_sub_cancel' (by omega),
        Char.ofNat_toNat]
    · split at h
      · rename_i hupper
        have hrange := isUpper_iff_toNat.mp hupper
        cases h
        refine ⟨true, ?_⟩
        rw [Text.hexDigit, if_neg (by omega), if_pos rfl, Nat.add_sub_cancel' (by omega),
          Char.ofNat_toNat]
      · cases h

/-- The spelling of a digit determines it. -/
theorem digitValue?_of_spellsDigit (h : SpellsDigit c d) (hd : d < 36) : digitValue? c = some d := by
  obtain ⟨upper, rfl⟩ := h
  exact digitValue?_hexDigit upper d hd

/-- **The digits of a base are those that are spelled**, as long as letters suffice. -/
theorem digitIn?_eq_some_iff (hbase : base ≤ 36) :
    digitIn? base c = some d ↔ d < base ∧ SpellsDigit c d := by
  rw [digitIn?, Option.filter_eq_some_iff, decide_eq_true_eq]
  constructor
  · rintro ⟨hvalue, hlt⟩
    exact ⟨hlt, spellsDigit_of_digitValue? hvalue⟩
  · rintro ⟨hlt, hspells⟩
    exact ⟨digitValue?_of_spellsDigit hspells (by omega), hlt⟩

/-- The positional value of spelled digits. -/
theorem positional?_of_spells (hbase : base ≤ 36) : ∀ {cs : List Char} {ds : List Nat} (v : Nat),
    Spells cs ds → (∀ d ∈ ds, d < base) →
      positional? base v cs = some (ds.foldl (fun v d => v * base + d) v)
  | [], _, v, .nil, _ => rfl
  | c :: cs, d :: ds, v, .cons hc hcs, hlt => by
      have hdigit := (digitIn?_eq_some_iff hbase).mpr ⟨hlt d List.mem_cons_self, hc⟩
      rw [positional?, hdigit, List.foldl_cons]
      exact positional?_of_spells hbase _ hcs fun d hd => hlt d (List.mem_cons_of_mem _ hd)

theorem positional?_places (hbase : 1 < base) (hbase' : base ≤ 36) (h : Spells cs (places base n)) :
    positional? base 0 cs = some n := by
  rw [positional?_of_spells hbase' 0 h fun d => lt_of_mem_places hbase, ← positional, positional_places]

/-- A reader that takes digits stops behind spelled digits. -/
theorem takeWhile_of_spells (hbase : base ≤ 36) (hcs : Spells cs ds) (hlt : ∀ d ∈ ds, d < base)
    (hrest : ∀ c ∈ rest.head?, ∀ d < base, ¬ SpellsDigit c d) :
    (cs ++ rest).takeWhile (fun c => (digitIn? base c).isSome) = cs := by
  induction hcs with
  | nil =>
      cases rest with
      | nil => rfl
      | cons c rest =>
          have hnone : digitIn? base c = none := by
            refine Option.eq_none_iff_forall_ne_some.mpr fun d hd => ?_
            obtain ⟨hd, hspells⟩ := (digitIn?_eq_some_iff hbase).mp hd
            exact hrest c rfl d hd hspells
          simp [hnone]
  | cons hc hcs ih =>
      have hdigit := (digitIn?_eq_some_iff hbase).mpr ⟨hlt _ List.mem_cons_self, hc⟩
      rw [List.cons_append, List.takeWhile_cons, hdigit, Option.isSome_some, if_pos rfl,
        ih fun d hd => hlt d (List.mem_cons_of_mem _ hd)]

end IntegerText

/-! ## Decimal digits -/

theorem digitChar_eq_hexDigit : ∀ d < 10, Nat.digitChar d = Text.hexDigit false d := by decide

/-- **The decimal text of a number spells its decimal places.** -/
theorem spells_digitsOf (n : Nat) : Spells (digitsOf n) (places 10 n) := by
  induction n using Nat.strongRecOn with
  | ind n ih =>
      rw [digitsOf]
      by_cases hlt : n < 10
      · rw [places_of_lt hlt, Nat.toDigits_of_lt_base hlt]
        exact .cons ⟨false, digitChar_eq_hexDigit n hlt⟩ .nil
      · rw [places_of_le (by decide) (by omega), Nat.toDigits_of_base_le (by decide) (by omega)]
        have hlast := digitChar_eq_hexDigit (n % 10) (by omega)
        exact List.rel_append (ih (n / 10) (by omega)) (.cons ⟨false, hlast⟩ .nil)

theorem isDigit_of_mem_digitsOf (h : c ∈ digitsOf n) : c.isDigit = true :=
  Nat.isDigit_of_mem_toDigits (by decide) (by decide) h

theorem digitsOf_ne_nil (n : Nat) : digitsOf n ≠ [] := Nat.toDigits_ne_nil

namespace DecimalText

theorem decimalValue?_of_isDigit (h : c.isDigit = true) :
    Unicode.decimalValue? c = some (c.toNat - 48) := by
  have hrange : 48 ≤ c.toNat ∧ c.toNat ≤ 57 := Char.isDigit_iff_toNat.mp h
  obtain ⟨zeros, hzeros⟩ : ∃ zeros, Unicode.decimalZeros = 48 :: zeros := ⟨_, rfl⟩
  have hfirst : (decide (48 ≤ c.toNat) && decide (c.toNat < 48 + 10)) = true := by
    simp only [Bool.and_eq_true, decide_eq_true_eq]
    omega
  rw [Unicode.decimalValue?, hzeros, List.find?_cons, hfirst]
  rfl

/-- Decimal digits are taken up to the first character that is none. -/
theorem digits_append (hcs : ∀ c ∈ cs, c.isDigit = true)
    (hrest : ∀ c ∈ rest.head?, Unicode.decimalValue? c = none) :
    digits (cs ++ rest) = (cs.map (·.toNat - 48), rest) := by
  induction cs with
  | nil =>
      cases rest with
      | nil => rfl
      | cons c rest => simp [digits, hrest c rfl]
  | cons c cs ih =>
      rw [List.cons_append, digits, decimalValue?_of_isDigit (hcs c List.mem_cons_self),
        ih fun c hc => hcs c (List.mem_cons_of_mem _ hc)]
      rfl

theorem value_map (cs : List Char) : value (cs.map (·.toNat - 48)) = Nat.ofDigitChars 10 cs 0 := by
  rw [value, List.foldl_map, Nat.ofDigitChars_eq_foldl]
  rfl

/-- The decimal text of a number has that value. -/
theorem value_digitsOf (n : Nat) : value ((digitsOf n).map (·.toNat - 48)) = n := by
  rw [value_map, digitsOf, Nat.ofDigitChars_ten_toDigits]

end DecimalText

end Descramble

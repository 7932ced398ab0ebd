import Descramble.Proofs.Number.IntegerText
import Descramble.Proofs.Value.IndexOf

/-!
# Parts of texts and arrays

`slice` counts a negative index from the end, `substring` takes it as zero, and `charAt` and the member
at an index know only the characters that are there.  The three agree wherever they overlap.

* `Value.place` — where an index of `slice` leads.
* `Value.slice_ofInt`, `Value.substring_ofInt`, `Value.charAt?_integer` — the parts that integral indexes
  select.
* `Value.indexOfKey?_digitsOf`, `Value.member_text_ofInt` — an index as the key of a member.
* `Value.slicing_laws` — how the parts are related.
-/

set_option autoImplicit false

namespace Descramble

namespace Value

variable {α : Type} {i j k : Int} {n : Nat}

/-! ## Parts -/

/-- Where an index of `slice` leads: it counts from the end when it is negative, and is kept within the
length. -/
def place (length : Nat) (k : Int) : Nat := min (relativeStart length k) length

theorem between_eq_extract (start stop : Nat) (xs : List α) :
    between start stop xs = xs.extract start stop := by
  rw [between, List.extract_eq_take_drop, List.drop_take]

theorem slice_ofInt (xs : List α) (hi : i.natAbs < Number.integerLimit)
    (hj : j.natAbs < Number.integerLimit) : slice xs (ofInt i) (ofInt j) =
      .ok (xs.extract (place xs.length i) (place xs.length j)) := by
  rw [slice, relativeIndex_ofInt hi, relativeIndex_ofInt hj]
  simp only [bind, Except.bind, pure, Except.pure, between_eq_extract, place]

/-- Without an end the part reaches to the end. -/
theorem slice_ofInt_undefined (xs : List α) (hi : i.natAbs < Number.integerLimit) :
    slice xs (ofInt i) .undefined = .ok (xs.extract (place xs.length i) xs.length) := by
  rw [slice, relativeIndex_ofInt hi, relativeIndex]
  simp only [bind, Except.bind, pure, Except.pure, between_eq_extract, place]

/-- What ends at a place, together with what begins there, is all. -/
theorem extract_append_extract (xs : List α) (n : Nat) :
    xs.extract 0 n ++ xs.extract n xs.length = xs := by
  rw [List.extract_eq_take_drop, List.extract_eq_take_drop, Nat.sub_zero, List.drop_zero,
    ← List.length_drop, List.take_length, List.take_append_drop]

theorem substring_ofInt (cs : List Char) (hi : i.natAbs < Number.integerLimit)
    (hj : j.natAbs < Number.integerLimit) : substring cs (ofInt i) (ofInt j) =
      .ok (cs.extract (min (min i.toNat cs.length) (min j.toNat cs.length))
        (max (min i.toNat cs.length) (min j.toNat cs.length))) := by
  rw [substring, clampedIndex_ofInt hi, clampedIndex_ofInt hj]
  simp only [bind, Except.bind, pure, Except.pure, between_eq_extract]

/-- There is a character only at an index inside the text. -/
theorem charAt?_integer (cs : List Char) (hk : k.natAbs < Number.integerLimit) :
    charAt? cs (ofInt k) = .ok (if k < 0 then none else cs[k.toNat]?) := by
  obtain ⟨negative, rank, hindex⟩ := exists_indexOf_ofInt hk
  rw [ofInt, charAt?]
  · rw [← ofInt, hindex]
    rfl
  · intro h
    cases h

/-! ## Members -/

/-- **An index is its own key**: the decimal text of a number is read as that number. -/
theorem indexOfKey?_digitsOf (n : Nat) : indexOfKey? (digitsOf n) = .ok (some n) := by
  have hdigit : ∀ c ∈ digitsOf n, Unicode.isDecimal c = true := by
    intro c hc
    rw [Unicode.isDecimal, DecimalText.decimalValue?_of_isDigit (isDigit_of_mem_digitsOf hc)]
    rfl
  have hall : (digitsOf n).all Unicode.isDecimal = true := List.all_eq_true.mpr hdigit
  have hall' : (digitsOf n).all Unicode.isDigit = true :=
    List.all_eq_true.mpr fun c hc => by rw [Unicode.isDigit, hdigit c hc, Bool.true_or]
  have hempty : (digitsOf n).isEmpty = false := by simp [digitsOf_ne_nil]
  -- a leading zero is the only digit
  have hzero : ¬ (digitsOf n ≠ ['0'] ∧ (digitsOf n).head? = some '0') := by
    rintro ⟨hne, hhead⟩
    obtain ⟨c, cs, d, ds, hcs, hplaces, hc, -⟩ := (spells_digitsOf n).exists_cons
    rw [hcs, List.head?_cons, Option.some.injEq] at hhead
    subst hhead
    have hd : d < 10 := lt_of_mem_places (by decide) (hplaces ▸ List.mem_cons_self)
    have hvalue := IntegerText.digitValue?_of_spellsDigit hc (by omega)
    have hzero : some 0 = IntegerText.digitValue? '0' := by decide
    obtain rfl : 0 = d := Option.some.inj (hzero.trans hvalue)
    rw [eq_zero_of_places hplaces] at hne
    exact hne (by decide)
  have hvalue : (DecimalText.digits (digitsOf n)).1 = (digitsOf n).map (·.toNat - 48) := by
    have happend : DecimalText.digits (digitsOf n ++ []) = ((digitsOf n).map (·.toNat - 48), []) :=
      DecimalText.digits_append (fun _ hc => isDigit_of_mem_digitsOf hc) (by simp)
    rw [List.append_nil] at happend
    rw [happend]
  rw [indexOfKey?, hempty, hall', if_neg (by simp), if_neg hzero, if_pos hall, hvalue,
    DecimalText.value_digitsOf]

theorem member_text_ofInt (s : String) (hn : Number.isSafe n = true) :
    (text s).member (ofInt n) =
      .ok ((s.toList[n]?.map fun c => text (String.ofList [c])).getD .undefined) := by
  have hkey : intText n = String.ofList (digitsOf n) := by
    rw [intText, if_neg (by omega), Int.natAbs_natCast]
  have hlength : String.ofList (digitsOf n) ≠ "length" := by
    intro heq
    have hmem : 'l' ∈ digitsOf n := by
      rw [← String.toList_ofList (l := digitsOf n), heq]
      decide
    exact absurd (isDigit_of_mem_digitsOf hmem) (by decide)
  rw [member, (isWhole_ofInt n).toText hn, hkey]
  simp only [bind, Except.bind, memberOf, if_neg hlength, String.toList_ofList, indexOfKey?_digitsOf,
    pure, Except.pure]

/-- The character with a code in the basic plane. -/
theorem fromCharCode_toNat {c : Char} (hc : c.toNat ≤ 0xFFFF) :
    Builtin.fromCharCode.apply [ofInt c.toNat] = .ok (text (String.ofList [c])) := by
  have hsafe : Number.isSafe c.toNat = true := by
    rw [Number.isSafe_iff, Int.natAbs_natCast]
    exact Nat.lt_of_le_of_lt hc (by decide)
  have hcode : (ofInt c.toNat).toUint32 = .ok c.toNat := by
    have hinteger : (ofInt c.toNat).toInteger = .ok c.toNat := by
      rw [ofInt, toInteger_number (Number.toDouble_int hsafe)]
      rfl
    have hword := toNat_word c.toNat
    rw [toUint32_of_toInteger hinteger, show (word c.toNat).toNat = c.toNat by omega]
  have hcodes : [ofInt c.toNat].mapM toUint32 = .ok [c.toNat] := by
    rw [List.mapM_cons, hcode]
    rfl
  have hchars : Builtin.charsOfCodes [c.toNat] = .ok [c] := by
    rw [Builtin.charsOfCodes_eq_ok, List.map_singleton, List.map_singleton, Nat.mod_eq_of_lt (by omega)]
  rw [Builtin.apply, hcodes]
  show (do return text (String.ofList (← Builtin.charsOfCodes [c.toNat])) : Except Fault Value) = _
  rw [hchars]
  rfl

/-! ## Calls -/

theorem callMethod_slice_text {s : String} {start stop : Value} {part : List Char}
    (h : slice s.toList start stop = .ok part) :
    (text s).callMethod "slice" [start, stop] = .ok (text (String.ofList part)) := by
  show (do return text (String.ofList (← slice s.toList start stop)) : Except Fault Value) = _
  rw [h]
  rfl

theorem callMethod_slice_array {items : List Value} {start stop : Value} {part : List Value}
    (h : slice items start stop = .ok part) :
    (array items).callMethod "slice" [start, stop] = .ok (array part) := by
  show (do return array (← slice items start stop) : Except Fault Value) = _
  rw [h]
  rfl

theorem callMethod_substring {s : String} {start stop : Value} {part : List Char}
    (h : substring s.toList start stop = .ok part) :
    (text s).callMethod "substring" [start, stop] = .ok (text (String.ofList part)) := by
  show (do return text (String.ofList (← substring s.toList start stop)) : Except Fault Value) = _
  rw [h]
  rfl

/-- Behind the last character the text is empty. -/
theorem callMethod_charAt {s : String} {index : Value} {found : Option Char}
    (h : charAt? s.toList index = .ok found) :
    (text s).callMethod "charAt" [index] = .ok (text (String.ofList found.toList)) := by
  have hcall : (text s).callMethod "charAt" [index] = TextMethod.charAt.apply s.toList [index] := rfl
  have hfits : arityFits TextMethod.charAt.arity? [index] = true := rfl
  simp only [hcall, TextMethod.apply, hfits, Bool.not_true, Bool.false_eq_true, if_false,
    List.getD_cons_zero, h, bind, Except.bind]
  cases found <;> rfl

/-- The character at an index is the part that ends at the next index. -/
theorem extract_next (cs : List Char) (i : Int) :
    cs.extract (min (min i.toNat cs.length) (min (i + 1).toNat cs.length))
        (max (min i.toNat cs.length) (min (i + 1).toNat cs.length)) =
      (if i < 0 then none else cs[i.toNat]?).toList := by
  rw [List.extract_eq_take_drop]
  split
  · rw [show i.toNat = 0 by omega, show (i + 1).toNat = 0 by omega]
    simp
  · rename_i hneg
    have hnext : (i + 1).toNat = i.toNat + 1 := by omega
    rw [hnext]
    generalize i.toNat = n
    rcases Nat.lt_or_ge n cs.length with hlt | hge
    · have hplaces : max n (n + 1) - min n (n + 1) = 1 := by omega
      rw [Nat.min_eq_left (Nat.le_of_lt hlt), Nat.min_eq_left (show n + 1 ≤ cs.length from hlt), hplaces,
        Nat.min_eq_left (Nat.le_succ n), List.drop_eq_getElem_cons hlt, List.take_succ_cons,
        List.take_zero, List.getElem?_eq_getElem hlt]
      rfl
    · rw [Nat.min_eq_right hge, Nat.min_eq_right (Nat.le_succ_of_le hge), Nat.min_self, Nat.max_self,
        Nat.sub_self, List.take_zero, List.getElem?_eq_none hge]
      rfl

/-! ## The laws -/

section Laws

variable (s : String) (items : List Value)

/-- The index behind a safe one may be `2^53`. -/
theorem succ_lt_integerLimit (hk : k.natAbs < Number.safeBound) :
    (k + 1).natAbs < Number.integerLimit := by
  have hsafe : (k + 1).natAbs < 2 * Number.safeBound := by
    have : 0 < Number.safeBound := by decide
    omega
  obtain ⟨d, hd⟩ := Number.exists_toDouble hsafe
  by_contra hle
  rw [Number.toDouble_int_eq_error_iff.mpr ⟨rfl, Nat.not_lt.mp hle⟩] at hd
  cases hd

/-- Where `0` leads, a part starts. -/
theorem place_zero (length : Nat) : place length 0 = 0 := by
  rw [place, relativeStart, if_neg (by decide)]
  exact Nat.zero_min length

/-- Both parts of a text or an array at an index. -/
theorem slice_both (xs : List α) (hk : k.natAbs < Number.safeBound) : ∃ front back,
    slice xs (ofInt 0) (ofInt k) = .ok front ∧ slice xs (ofInt k) .undefined = .ok back ∧
      front ++ back = xs := by
  have hzero : (0 : Int).natAbs < Number.integerLimit := Number.lt_integerLimit (by decide)
  have hk' := Number.lt_integerLimit hk
  refine ⟨_, _, slice_ofInt xs hzero hk', slice_ofInt_undefined xs hk', ?_⟩
  rw [place_zero, extract_append_extract]

/-- **The parts of a text or an array**, for indexes below `2^53`: `slice` cuts at a place into two
parts, and takes what lies between two places; `substring` does not care for the order of its places;
a character is the part up to the next index, is the member at its index, and is made from its code if
that is in the basic plane; there is no member from the length on. -/
theorem slicing_laws (hi : i.natAbs < Number.safeBound) (hj : j.natAbs < Number.safeBound)
    (hk : k.natAbs < Number.safeBound) :
    (∃ front back, (text s).callMethod "slice" [ofInt 0, ofInt k] = .ok (text front) ∧
      (text s).callMethod "slice" [ofInt k] = .ok (text back) ∧ front ++ back = s) ∧
    (∃ front back, (array items).callMethod "slice" [ofInt 0, ofInt k] = .ok (array front) ∧
      (array items).callMethod "slice" [ofInt k] = .ok (array back) ∧ front ++ back = items) ∧
    (text s).callMethod "slice" [ofInt i, ofInt j] =
      .ok (text (String.ofList (s.toList.extract (place s.length i) (place s.length j)))) ∧
    (array items).callMethod "slice" [ofInt i, ofInt j] =
      .ok (array (items.extract (place items.length i) (place items.length j))) ∧
    (∃ part, (text s).callMethod "substring" [ofInt i, ofInt j] = .ok (text part) ∧
      (text s).callMethod "substring" [ofInt j, ofInt i] = .ok (text part)) ∧
    (∃ part, (text s).callMethod "charAt" [ofInt i] = .ok (text part) ∧
      (text s).callMethod "substring" [ofInt i, ofInt (i + 1)] = .ok (text part)) ∧
    (0 ≤ i → i < s.length → (∀ c ∈ s.toList, c.toNat ≤ 0xFFFF) → ∃ part code,
      (text s).member (ofInt i) = .ok (text part) ∧
      (text s).callMethod "charAt" [ofInt i] = .ok (text part) ∧
      (text s).callMethod "charCodeAt" [ofInt i] = .ok code ∧
      Builtin.fromCharCode.apply [code] = .ok (text part)) ∧
    (s.length ≤ i → (text s).member (ofInt i) = .ok .undefined) := by
  have hi' := Number.lt_integerLimit hi
  have hj' := Number.lt_integerLimit hj
  refine ⟨?_, ?_, ?_, callMethod_slice_array (slice_ofInt items hi' hj'), ?_, ?_, ?_, ?_⟩
  · obtain ⟨front, back, hfront, hback, happend⟩ := slice_both s.toList hk
    refine ⟨_, _, callMethod_slice_text hfront, callMethod_slice_text hback, ?_⟩
    rw [← String.ofList_append, happend, String.ofList_toList]
  · obtain ⟨front, back, hfront, hback, happend⟩ := slice_both items hk
    exact ⟨_, _, callMethod_slice_array hfront, callMethod_slice_array hback, happend⟩
  · rw [← String.length_toList]
    exact callMethod_slice_text (slice_ofInt s.toList hi' hj')
  · refine ⟨_, callMethod_substring (substring_ofInt s.toList hi' hj'), ?_⟩
    rw [callMethod_substring (substring_ofInt s.toList hj' hi'), Nat.min_comm, Nat.max_comm]
  · have hnext := succ_lt_integerLimit hi
    refine ⟨_, callMethod_charAt (charAt?_integer s.toList hi'), ?_⟩
    rw [callMethod_substring (substring_ofInt s.toList hi' hnext), extract_next]
  · intro hzero hlt hbasic
    obtain ⟨n, rfl⟩ := Int.eq_ofNat_of_zero_le hzero
    have hn : n < s.toList.length := by
      rw [String.length_toList]
      omega
    have hsafe : Number.isSafe n = true := Number.isSafe_iff.mpr hi
    have hc := hbasic _ (List.getElem_mem hn)
    refine ⟨String.ofList [s.toList[n]], ofInt (s.toList[n]).toNat, ?_, ?_, ?_, fromCharCode_toNat hc⟩
    · rw [member_text_ofInt s hsafe, List.getElem?_eq_getElem hn]
      rfl
    · rw [callMethod_charAt (charAt?_ofInt s.toList hsafe), List.getElem?_eq_getElem hn]
      rfl
    · rw [callMethod_charCodeAt hbasic hsafe, Text.codeUnits_of_basic hbasic, List.getElem?_map,
        List.getElem?_eq_getElem hn]
      rfl
  · intro hle
    obtain ⟨n, rfl⟩ := Int.eq_ofNat_of_zero_le (Int.le_trans (Int.natCast_nonneg _) hle)
    rw [member_text_ofInt s (Number.isSafe_iff.mpr hi), List.getElem?_eq_none]
    · rfl
    · rw [String.length_toList]
      omega

/-- `"a€bc"` and `["a", "€"]`, with indexes inside, in front of and behind the text. -/
theorem slicing_laws_euro :
    (1 : Int).natAbs < Number.safeBound ∧ (-1 : Int).natAbs < Number.safeBound ∧
    (-9 : Int).natAbs < Number.safeBound ∧ (4 : Int).natAbs < Number.safeBound ∧
    (0 : Int) ≤ 1 ∧ (1 : Int) < "a€bc".length ∧ (∀ c ∈ "a€bc".toList, c.toNat ≤ 0xFFFF) ∧
    ("a€bc".length : Int) ≤ 4 ∧
    (text "a€bc").callMethod "slice" [ofInt 1, ofInt (-1)] = .ok (text "€b") ∧
    (array [text "a", text "€"]).callMethod "slice" [ofInt 1, ofInt (-1)] = .ok (array []) ∧
    (∃ part code, (text "a€bc").member (ofInt 1) = .ok (text part) ∧
      (text "a€bc").callMethod "charCodeAt" [ofInt 1] = .ok code ∧
      Builtin.fromCharCode.apply [code] = .ok (text part)) ∧
    (text "a€bc").member (ofInt 4) = .ok .undefined := by
  have hone : (1 : Int).natAbs < Number.safeBound := by decide
  have hminus : (-1 : Int).natAbs < Number.safeBound := by decide
  have hfront : (-9 : Int).natAbs < Number.safeBound := by decide
  have hfour : (4 : Int).natAbs < Number.safeBound := by decide
  have hlt : (1 : Int) < "a€bc".length := by decide
  have hbasic : ∀ c ∈ "a€bc".toList, c.toNat ≤ 0xFFFF := fun c hc => by
    have hall : "a€bc".toList.all (decide <| ·.toNat ≤ 0xFFFF) = true := by decide
    exact of_decide_eq_true (List.all_eq_true.mp hall c hc)
  have hle : ("a€bc".length : Int) ≤ 4 := by decide
  obtain ⟨-, -, htext, harray, -, -, hmember, -⟩ :=
    slicing_laws "a€bc" [text "a", text "€"] hone hminus hfront
  obtain ⟨part, code, hpart, -, hcode, hback⟩ := hmember (by decide) hlt hbasic
  obtain ⟨-, -, -, -, -, -, -, hbehind⟩ := slicing_laws "a€bc" [] hfour hminus hfront
  exact ⟨hone, hminus, hfront, hfour, by decide, hlt, hbasic, hle, htext, harray,
    ⟨part, code, hpart, hcode, hback⟩, hbehind hle⟩

end Laws

end Value

end Descramble

import Descramble.Text.Utf8

/-!
# Bytes of texts

What may follow the first byte of a character depends on that byte, so that each code has one form.

* `utf8_eq_standard` — the bytes of a character are those of the standard encoding.
* `Text.tailOf?_two`, `tailOf?_three`, `tailOf?_four` — what the first byte of a character announces.
* `Text.decodeFrom_utf8`, `Text.decode_encode` — characters and texts are read back from their bytes.
-/

set_option autoImplicit false

namespace Descramble

theorem toNat_valid (c : Char) : c.toNat < 0xD800 ∨ 0xDFFF < c.toNat ∧ c.toNat < 0x110000 := c.valid

/-- **The bytes of a character are those of the standard encoding.** -/
theorem utf8_eq_standard (c : Char) : (utf8 c).map UInt8.ofNat = String.utf8EncodeChar c := by
  have hvalid := toNat_valid c
  have hval : c.val.toNat = c.toNat := rfl
  simp only [utf8, String.utf8EncodeChar, hval]
  split
  · rw [if_pos (show c.toNat ≤ 127 by omega)]
    rfl
  rw [if_neg (show ¬ c.toNat ≤ 127 by omega)]
  split
  · rw [if_pos (show c.toNat ≤ 2047 by omega)]
    simp only [List.map_cons, List.map_nil, List.cons.injEq, and_true]
    refine ⟨congrArg _ ?_, congrArg _ ?_⟩ <;> omega
  rw [if_neg (show ¬ c.toNat ≤ 2047 by omega)]
  split
  · rw [if_pos (show c.toNat ≤ 65535 by omega)]
    simp only [List.map_cons, List.map_nil, List.cons.injEq, and_true]
    refine ⟨congrArg _ ?_, congrArg _ ?_, congrArg _ ?_⟩ <;> omega
  · rw [if_neg (show ¬ c.toNat ≤ 65535 by omega)]
    simp only [List.map_cons, List.map_nil, List.cons.injEq, and_true]
    refine ⟨congrArg _ ?_, congrArg _ ?_, congrArg _ ?_, congrArg _ ?_⟩ <;> omega

namespace Text

/-- **The bytes of a text are those of the standard encoding.** -/
theorem encode_eq_standard (cs : List Char) :
    (encode cs).map UInt8.ofNat = cs.flatMap String.utf8EncodeChar := by
  rw [encode, List.map_flatMap]
  simp only [utf8_eq_standard]

/-! ## What the first byte announces -/

variable {n count least greatest code byte : Nat} {rest : List Nat}

theorem tailOf?_two (h : n < 0x800) (hlow : 0x80 ≤ n) :
    tailOf? (0xC0 + n / 0x40) = some ⟨1, 0x80, 0xBF, n / 0x40⟩ := by
  rw [tailOf?, if_pos (show _ ∧ _ by omega), Nat.add_sub_cancel_left]

/-- The second of three bytes is limited lest the code be too small or that of a surrogate. -/
theorem tailOf?_three (h : n < 0x10000) (hlow : 0x800 ≤ n) (hvalid : n < 0xD800 ∨ 0xDFFF < n) :
    ∃ least greatest, tailOf? (0xE0 + n / 0x1000) = some ⟨2, least, greatest, n / 0x1000⟩ ∧
      least ≤ 0x80 + n / 0x40 % 0x40 ∧ 0x80 + n / 0x40 % 0x40 ≤ greatest := by
  rw [tailOf?, if_neg (show ¬ _ by omega)]
  by_cases he0 : n / 0x1000 = 0
  · rw [if_pos (show _ by omega), he0]
    exact ⟨_, _, rfl, by omega, by omega⟩
  rw [if_neg (show ¬ _ by omega)]
  by_cases hed : n / 0x1000 = 0xD
  · rw [if_pos (show _ by omega), hed]
    exact ⟨_, _, rfl, by omega, by omega⟩
  rw [if_neg (show ¬ _ by omega), if_pos (show _ ∧ _ by omega), Nat.add_sub_cancel_left]
  exact ⟨_, _, rfl, by omega, by omega⟩

/-- The second of four bytes is limited lest the code be too small or too large. -/
theorem tailOf?_four (h : n < 0x110000) (hlow : 0x10000 ≤ n) :
    ∃ least greatest, tailOf? (0xF0 + n / 0x40000) = some ⟨3, least, greatest, n / 0x40000⟩ ∧
      least ≤ 0x80 + n / 0x1000 % 0x40 ∧ 0x80 + n / 0x1000 % 0x40 ≤ greatest := by
  rw [tailOf?, if_neg (show ¬ _ by omega), if_neg (show ¬ _ by omega), if_neg (show ¬ _ by omega),
    if_neg (show ¬ _ by omega)]
  by_cases hf0 : n / 0x40000 = 0
  · rw [if_pos (show _ by omega), hf0]
    exact ⟨_, _, rfl, by omega, by omega⟩
  rw [if_neg (show ¬ _ by omega)]
  by_cases hf4 : n / 0x40000 = 4
  · rw [if_pos (show _ by omega), hf4]
    exact ⟨_, _, rfl, by omega, by omega⟩
  rw [if_neg (show ¬ _ by omega), if_pos (show _ ∧ _ by omega), Nat.add_sub_cancel_left]
  exact ⟨_, _, rfl, by omega, by omega⟩

/-! ## Reading -/

theorem completed_step (hlow : least ≤ byte) (hhigh : byte ≤ greatest) :
    completed (count + 1) least greatest code (byte :: rest) =
      ((completed count 0x80 0xBF (code * 0x40 + (byte - 0x80)) rest).1,
        (completed count 0x80 0xBF (code * 0x40 + (byte - 0x80)) rest).2 + 1) :=
  if_pos ⟨hlow, hhigh⟩

theorem completed_zero : completed 0 least greatest code rest = (some code, 0) := rfl

theorem decodeFrom_length_append (bytes : List Nat) :
    decodeFrom bytes.length (bytes ++ rest) = decodeFrom 0 rest := by
  induction bytes with
  | nil => rfl
  | cons byte bytes ih => exact ih

/-- A first byte and those that complete its character are read as the character. -/
theorem decodeFrom_lead {c : Char} {lead start : Nat} {bytes : List Nat} (hlead : 0x80 ≤ lead)
    (htail : tailOf? lead = some ⟨count, least, greatest, start⟩)
    (hcompleted : completed count least greatest start (bytes ++ rest) =
      (some c.toNat, bytes.length)) :
    decodeFrom 0 (lead :: bytes ++ rest) = c :: decodeFrom 0 rest := by
  rw [List.cons_append, decodeFrom, if_neg (Nat.not_lt.mpr hlead), htail]
  simp only [hcompleted, Option.map_some, Option.getD_some, Char.ofNat_toNat,
    decodeFrom_length_append]

/-- **The bytes of a character are read as the character**, whatever follows them. -/
theorem decodeFrom_utf8 (c : Char) (rest : List Nat) :
    decodeFrom 0 (utf8 c ++ rest) = c :: decodeFrom 0 rest := by
  have hvalid := toNat_valid c
  have hcode : ∀ {code : Nat}, code = c.toNat → some code = some c.toNat := congrArg some
  unfold utf8
  dsimp only
  split
  · rename_i hone
    rw [List.singleton_append, decodeFrom, if_pos hone, Char.ofNat_toNat]
  split
  · refine decodeFrom_lead (by omega) (tailOf?_two ‹_› (by omega)) ?_
    rw [List.singleton_append, completed_step (by omega) (by omega), completed_zero]
    exact Prod.ext (hcode (by omega)) rfl
  split
  · obtain ⟨least, greatest, htail, hlow, hhigh⟩ :=
      tailOf?_three (n := c.toNat) ‹_› (by omega) (by omega)
    refine decodeFrom_lead (by omega) htail ?_
    rw [List.cons_append, List.singleton_append, completed_step hlow hhigh,
      completed_step (by omega) (by omega), completed_zero]
    exact Prod.ext (hcode (by omega)) rfl
  · obtain ⟨least, greatest, htail, hlow, hhigh⟩ := tailOf?_four (n := c.toNat) (by omega) (by omega)
    refine decodeFrom_lead (by omega) htail ?_
    rw [List.cons_append, List.cons_append, List.singleton_append, completed_step hlow hhigh,
      completed_step (by omega) (by omega), completed_step (by omega) (by omega), completed_zero]
    exact Prod.ext (hcode (by omega)) rfl

/-- **A text is read back from its bytes.** -/
theorem decode_encode (cs : List Char) : decode (encode cs) = cs := by
  unfold decode encode
  induction cs with
  | nil => rfl
  | cons c cs ih => rw [List.flatMap_cons, decodeFrom_utf8, ih]

end Text

end Descramble

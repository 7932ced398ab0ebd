import Descramble.Value.Method

/-!
# Splitting a text and joining the pieces

A text is split at the leftmost occurrences of the separator that do not overlap, found by one scan.

* `Text.OccursAt`, `Text.Leftmost` — the places where the separator occurs, and those of them where the
  text is split.
* `Text.Pieces` — the pieces between the places where the separator occurs first.
* `Text.pieces_splitOn` — the scan finds these pieces.
* `Pieces.joinWith_eq`, `Pieces.not_isInfix`, `Pieces.exists_leftmost` — they make up the text, hold no
  separator, and lie between the leftmost occurrences.
* `Value.join_split` — joining undoes splitting, unless the text is too long to be made.
-/

set_option autoImplicit false

namespace Descramble

namespace Text

variable {separator cs rest piece : List Char} {parts : List (List Char)} {i start : Nat}

/-! ## Occurrences -/

/-- The separator occurs in the text at a place. -/
def OccursAt (separator cs : List Char) (i : Nat) : Prop := separator <+: cs.drop i

/-- The places, from `start` on, of the leftmost occurrences that do not overlap. -/
inductive Leftmost (separator cs : List Char) : Nat → List Nat → Prop where
  | none {start : Nat} : (∀ i, start ≤ i → ¬ OccursAt separator cs i) → Leftmost separator cs start []
  | next {start i : Nat} {places : List Nat} : start ≤ i → OccursAt separator cs i →
    (∀ j, start ≤ j → j < i → ¬ OccursAt separator cs j) →
    Leftmost separator cs (i + separator.length) places → Leftmost separator cs start (i :: places)

/-- There is one list of leftmost occurrences. -/
theorem Leftmost.unique {places others : List Nat} (h : Leftmost separator cs start places)
    (h' : Leftmost separator cs start others) : places = others := by
  induction h generalizing others with
  | none hnone =>
      cases h' with
      | none _ => rfl
      | next hle hat _ _ => exact absurd hat (hnone _ hle)
  | @next start i places hle hat hfirst _ ih =>
      cases h' with
      | none hnone => exact absurd hat (hnone _ hle)
      | @next _ j others hle' hat' hfirst' hrest' =>
          rcases Nat.lt_trichotomy i j with hlt | rfl | hlt
          · exact absurd hat (hfirst' _ hle hlt)
          · rw [ih hrest']
          · exact absurd hat' (hfirst _ hle' hlt)

theorem isInfix_iff_occursAt : separator <:+: cs ↔ ∃ i, OccursAt separator cs i := by
  rw [List.infix_iff_prefix_suffix]
  constructor
  · rintro ⟨tail, hprefix, hsuffix⟩
    exact ⟨_, (List.suffix_iff_eq_drop.mp hsuffix) ▸ hprefix⟩
  · rintro ⟨i, hat⟩
    exact ⟨_, hat, List.drop_suffix i cs⟩

/-- What occurs, occurs before the end. -/
theorem OccursAt.lt_length (hsep : separator ≠ []) (h : OccursAt separator cs i) : i < cs.length := by
  have hpos := List.length_pos_iff.mpr hsep
  have hle := h.length_le
  rw [List.length_drop] at hle
  omega

theorem OccursAt.append (hsep : separator ≠ []) (h : OccursAt separator cs i) :
    OccursAt separator (cs ++ rest) i := by
  rw [OccursAt, List.drop_append_of_le_length (Nat.le_of_lt (h.lt_length hsep))]
  exact h.trans (List.prefix_append _ _)

theorem occursAt_append_length_add (before : List Char) :
    OccursAt separator (before ++ cs) (before.length + i) ↔ OccursAt separator cs i := by
  rw [OccursAt, List.drop_length_add_append]
  rfl

theorem OccursAt.of_append {before : List Char} (hle : before.length ≤ i)
    (h : OccursAt separator (before ++ cs) i) : OccursAt separator cs (i - before.length) := by
  rwa [← occursAt_append_length_add before, Nat.add_sub_cancel' hle]

/-! ## Pieces -/

/-- The text is a single piece without the separator, or its first piece ends where the separator
occurs first, and the others are those of what follows. -/
inductive Pieces (separator : List Char) : List Char → List (List Char) → Prop where
  | last {cs : List Char} : ¬ separator <:+: cs → Pieces separator cs [cs]
  | cut {piece rest : List Char} {parts : List (List Char)} :
    (∀ i < piece.length, ¬ OccursAt separator (piece ++ (separator ++ rest)) i) →
    Pieces separator rest parts → Pieces separator (piece ++ (separator ++ rest)) (piece :: parts)

theorem Pieces.ne_nil (h : Pieces separator cs parts) : parts ≠ [] := by
  cases h <;> exact List.cons_ne_nil _ _

/-- **The pieces make up the text**, with the separator between them. -/
theorem Pieces.joinWith_eq (h : Pieces separator cs parts) : joinWith separator parts = cs := by
  induction h with
  | last _ => rfl
  | @cut piece rest parts _ hrest ih =>
      obtain ⟨head, tail, rfl⟩ := List.exists_cons_of_ne_nil hrest.ne_nil
      rw [joinWith, ih, List.append_assoc]
      exact List.cons_ne_nil _ _

/-- **No piece holds the separator.** -/
theorem Pieces.not_isInfix (hsep : separator ≠ []) (h : Pieces separator cs parts) :
    ∀ p ∈ parts, ¬ separator <:+: p := by
  induction h with
  | last hnone =>
      intro p hp
      rw [List.mem_singleton.mp hp]
      exact hnone
  | @cut piece rest parts hfirst _ ih =>
      intro p hp
      rcases List.mem_cons.mp hp with rfl | hp
      · intro hinfix
        obtain ⟨i, hat⟩ := isInfix_iff_occursAt.mp hinfix
        exact hfirst i (hat.lt_length hsep) (hat.append hsep)
      · exact ih p hp

/-- **The text is split at the leftmost occurrences**, behind whatever has been read before. -/
theorem Pieces.exists_leftmost (h : Pieces separator cs parts) (before : List Char) :
    ∃ places, Leftmost separator (before ++ cs) before.length places ∧
      parts.length = places.length + 1 := by
  induction h generalizing before with
  | last hnone =>
      refine ⟨[], .none fun i hle hat => hnone ?_, rfl⟩
      exact isInfix_iff_occursAt.mpr ⟨_, hat.of_append hle⟩
  | @cut piece rest parts hfirst _ ih =>
      obtain ⟨places, hplaces, hlength⟩ := ih (before ++ piece ++ separator)
      have hcut : OccursAt separator (piece ++ (separator ++ rest)) piece.length :=
        (occursAt_append_length_add (i := 0) piece).mpr (List.prefix_append _ _)
      refine ⟨(before.length + piece.length) :: places, .next (Nat.le_add_right _ _) ?_ ?_ ?_, ?_⟩
      · exact (occursAt_append_length_add before).mpr hcut
      · exact fun j hle hlt hat => hfirst _ (by omega) (hat.of_append hle)
      · simpa only [List.length_append, List.append_assoc, Nat.add_assoc] using hplaces
      · rw [List.length_cons, List.length_cons, hlength]

/-! ## The scan -/

/-- Passing characters is dropping them. -/
theorem splitScan_skip (separator : List Char) : ∀ (skip : Nat) (piece cs : List Char),
    splitScan separator skip piece cs = splitScan separator 0 piece (cs.drop skip)
  | 0, _, _ => rfl
  | skip + 1, piece, [] => by simp only [splitScan, List.drop_nil]
  | skip + 1, piece, c :: cs => by
      rw [splitScan, List.drop_succ_cons, splitScan_skip separator skip piece cs]

/-- **The scan finds the pieces**: what it holds is the start of a piece, with no occurrence in it. -/
theorem pieces_splitScan (hsep : separator ≠ []) (piece cs : List Char)
    (hfirst : ∀ i < piece.length, ¬ OccursAt separator (piece.reverse ++ cs) i) :
    Pieces separator (piece.reverse ++ cs) (splitScan separator 0 piece cs) := by
  generalize hlength : cs.length = length
  induction length using Nat.strongRecOn generalizing piece cs with
  | ind length ih =>
      cases cs with
      | nil =>
          rw [splitScan, List.append_nil] at *
          refine .last fun hinfix => ?_
          obtain ⟨i, hat⟩ := isInfix_iff_occursAt.mp hinfix
          have hlt := hat.lt_length hsep
          rw [List.length_reverse] at hlt
          exact hfirst i hlt hat
      | cons c rest =>
          rw [splitScan]
          split
          · rename_i hprefix
            obtain ⟨after, hafter⟩ := List.isPrefixOf_iff_prefix.mp hprefix
            obtain ⟨head, tail, rfl⟩ := List.exists_cons_of_ne_nil hsep
            rw [List.cons_append] at hafter
            obtain ⟨rfl, rfl⟩ := List.cons.inj hafter
            rw [List.length_cons, Nat.add_sub_cancel, splitScan_skip, List.drop_left]
            refine @Pieces.cut _ piece.reverse after _ (by simpa using hfirst) ?_
            refine ih after.length ?_ [] after (by simp) rfl
            simp only [List.length_cons, List.length_append] at hlength
            omega
          · rename_i hprefix
            have hwhole : (c :: piece).reverse ++ rest = piece.reverse ++ c :: rest := by simp
            rw [← hwhole] at hfirst ⊢
            refine ih rest.length (by rw [← hlength, List.length_cons]; omega) (c :: piece) rest ?_ rfl
            intro i hi hat
            rcases Nat.lt_or_eq_of_le (Nat.le_of_lt_succ hi) with hlt | rfl
            · exact hfirst i hlt hat
            · -- the scan has just found no occurrence here
              rw [hwhole, ← Nat.add_zero piece.length, ← List.length_reverse,
                occursAt_append_length_add] at hat
              exact hprefix (List.isPrefixOf_iff_prefix.mpr hat)

theorem pieces_splitOn (hsep : separator ≠ []) (cs : List Char) :
    Pieces separator cs (splitOn separator cs) :=
  pieces_splitScan hsep [] cs (by simp)

/-- With nothing between them, single characters make up the text. -/
theorem joinWith_singletons : ∀ cs : List Char, joinWith [] (cs.map ([·])) = cs
  | [] => rfl
  | [c] => rfl
  | c :: d :: cs => by
      have ih := joinWith_singletons (d :: cs)
      rw [List.map_cons] at ih
      rw [List.map_cons, List.map_cons, joinWith, ih]
      · rfl
      · exact List.cons_ne_nil _ _

end Text

/-! ## Values -/

namespace Value

/-- An array of texts. -/
def ofTexts (parts : List (List Char)) : Value := array (parts.map fun p => text (String.ofList p))

theorem itemTexts_ofTexts : ∀ parts : List (List Char),
    itemTexts (parts.map fun p => text (String.ofList p)) = .ok parts
  | [] => rfl
  | p :: parts => by
      rw [List.map_cons, itemTexts, itemTexts_ofTexts parts]
      · simp only [toText, String.toList_ofList, bind, Except.bind, pure, Except.pure]
      · intro h
        cases h
      · intro h
        cases h

variable (s separator : String)

/-- The pieces of a text: single characters, if the separator is empty. -/
def piecesOf : List (List Char) :=
  if separator = "" then s.toList.map ([·]) else Text.splitOn separator.toList s.toList

theorem callMethod_split :
    (text s).callMethod "split" [text separator] = .ok (ofTexts (piecesOf s separator)) := by
  have hcall : (text s).callMethod "split" [text separator] =
      Value.split s.toList (text separator) .undefined := rfl
  rw [hcall, Value.split, pieces]
  · simp only [toText, bind, Except.bind, pure, Except.pure, String.isEmpty_iff, piecesOf, ofTexts]
  · intro h
    cases h

theorem callMethod_join (parts : List (List Char)) : (ofTexts parts).callMethod "join" [text separator] =
    checkedText (Text.joinWith separator.toList parts) := by
  have hcall : (ofTexts parts).callMethod "join" [text separator] =
      Value.join (parts.map fun p => text (String.ofList p)) (text separator) := rfl
  rw [hcall, Value.join]
  · simp only [toText, itemTexts_ofTexts, bind, Except.bind]
  · intro h
    cases h

theorem joinWith_piecesOf : Text.joinWith separator.toList (piecesOf s separator) = s.toList := by
  unfold piecesOf
  split
  · rename_i hempty
    rw [hempty]
    exact Text.joinWith_singletons s.toList
  · rename_i hsep
    exact (Text.pieces_splitOn (by simpa using hsep) s.toList).joinWith_eq

/-- **Joining undoes splitting**, also with the empty separator, unless the text is too long to be made.
With another separator no piece holds it, and the text is split at its leftmost occurrences that do not
overlap. -/
theorem join_split : ∃ parts, (text s).callMethod "split" [text separator] = .ok (ofTexts parts) ∧
    (ofTexts parts).callMethod "join" [text separator] =
      (if s.length ≤ maxTextLength then .ok (text s) else .error (.textTooLong s.length)) ∧
    (separator ≠ "" → (∀ p ∈ parts, ¬ separator.toList <:+: p) ∧
      ∃ places, Text.Leftmost separator.toList s.toList 0 places ∧
        (∀ others, Text.Leftmost separator.toList s.toList 0 others → others = places) ∧
        parts.length = places.length + 1) := by
  refine ⟨piecesOf s separator, callMethod_split s separator, ?_, fun hsep => ?_⟩
  · rw [callMethod_join, joinWith_piecesOf, checkedText, String.length_toList, String.ofList_toList]
    by_cases hlength : s.length ≤ maxTextLength
    · rw [if_pos hlength, if_neg (Nat.not_lt.mpr hlength)]
    · rw [if_neg hlength, if_pos (Nat.lt_of_not_le hlength)]
  · have hsep' : separator.toList ≠ [] := by simpa using hsep
    have hpieces := Text.pieces_splitOn hsep' s.toList
    rw [piecesOf, if_neg hsep]
    obtain ⟨places, hplaces, hlength⟩ := hpieces.exists_leftmost []
    exact ⟨hpieces.not_isInfix hsep', places, hplaces, fun _ h => h.unique hplaces, hlength⟩

theorem ofTexts_inj {parts others : List (List Char)} :
    ofTexts parts = ofTexts others ↔ parts = others := by
  simp only [ofTexts, array.injEq]
  exact List.map_inj_right fun p q h => String.ofList_injective (text.inj h)

/-- Of two occurrences that overlap the text is split at the first only. -/
theorem join_split_overlap : "aa" ≠ "" ∧
    (text "aaa").callMethod "split" [text "aa"] = .ok (ofTexts [[], ['a']]) ∧
    (ofTexts [[], ['a']]).callMethod "join" [text "aa"] = .ok (text "aaa") ∧
    (∀ p ∈ [[], ['a']], ¬ ['a', 'a'] <:+: p) ∧
    ∃ place, Text.Leftmost ['a', 'a'] ['a', 'a', 'a'] 0 [place] := by
  have hpieces : (text "aaa").callMethod "split" [text "aa"] = .ok (ofTexts [[], ['a']]) := by rfl
  obtain ⟨parts, hsplit, hjoin, hparts⟩ := join_split "aaa" "aa"
  rw [hpieces, Except.ok.injEq, ofTexts_inj] at hsplit
  subst hsplit
  obtain ⟨hfree, places, hplaces, -, hlength⟩ := hparts (by decide)
  obtain ⟨place, rfl⟩ := List.length_eq_one_iff.mp (Nat.succ.inj hlength).symm
  exact ⟨by decide, hpieces, hjoin, hfree, place, hplaces⟩

end Value

end Descramble

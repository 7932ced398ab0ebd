import Descramble.Proofs.Pass.PlainNames

/-!
# The names that are written

A text in brackets is taken for a name if it is one in ASCII, and also if such a name has a line feed
behind it.

* `IsAsciiName`, `isPlainName_iff` — the texts that are taken for names.
* `CreatesName`, `createsName_iff` — the places where new identifiers stand.
* `written_names` — what the pass writes, and what is left.
-/

set_option autoImplicit false

namespace Descramble

/-! ## Names in ASCII -/

/-- An ASCII letter or an underscore, and then ASCII letters, digits and underscores. -/
def IsAsciiName (s : String) : Prop :=
  ∃ c cs, s.toList = c :: cs ∧ (c.isAlpha = true ∨ c = '_') ∧
    ∀ d ∈ cs, d.isAlphanum = true ∨ d = '_'

theorem isAsciiName_iff {s : String} : IsAsciiName s ↔
    ∃ c cs, s.toList = c :: cs ∧ (startsPlainName c && cs.all continuesPlainName) = true := by
  simp [IsAsciiName, startsPlainName, continuesPlainName]

/-- In a name there is no line feed. -/
theorem IsAsciiName.not_lineFeed {s : String} (h : IsAsciiName s) : '\n' ∉ s.toList := by
  obtain ⟨c, cs, hs, hc, hcs⟩ := h
  rw [hs, List.mem_cons]
  rintro (rfl | hmem)
  · exact absurd hc (by decide)
  · exact absurd (hcs _ hmem) (by decide)

theorem IsAsciiName.dropLineFeed_eq {s : String} (h : IsAsciiName s) :
    dropLineFeed s.toList = s.toList :=
  if_neg fun hlast => h.not_lineFeed (List.mem_of_getLast? hlast)

/-- **Which texts are taken for names**: names, and names with a line feed behind them. -/
theorem isPlainName_iff {s : String} : isPlainName s = true ↔
    IsAsciiName s ∨ ∃ word, IsAsciiName word ∧ s = word ++ "\n" := by
  have hname : ∀ {s : String}, IsAsciiName s ↔ ∃ c cs, s.toList = c :: cs ∧
      (startsPlainName c && cs.all continuesPlainName) = true := isAsciiName_iff
  constructor
  · intro h
    unfold isPlainName at h
    split at h
    · rename_i c cs hcs
      by_cases hlast : s.toList.getLast? = some '\n'
      · rw [dropLineFeed, if_pos hlast] at hcs
        refine Or.inr ⟨String.ofList (c :: cs), hname.mpr ⟨c, cs, String.toList_ofList, h⟩, ?_⟩
        obtain ⟨word, hword⟩ := List.getLast?_eq_some_iff.mp hlast
        rw [hword, List.dropLast_concat] at hcs
        rw [← String.toList_inj, String.toList_append, String.toList_ofList, hword, hcs]
        rfl
      · rw [dropLineFeed, if_neg hlast] at hcs
        exact Or.inl (hname.mpr ⟨c, cs, hcs, h⟩)
    · cases h
  · have hplain : ∀ {word s : String}, IsAsciiName word → dropLineFeed s.toList = word.toList →
        isPlainName s = true := by
      intro word s h hs
      obtain ⟨c, rest, hword, hall⟩ := hname.mp h
      rw [isPlainName, hs, hword]
      exact hall
    rintro (h | ⟨word, h, rfl⟩)
    · exact hplain h h.dropLineFeed_eq
    · refine hplain h ?_
      rw [String.toList_append]
      exact (if_pos List.getLast?_concat).trans List.dropLast_concat

/-- The key of the access at the place above is written as a text in brackets. -/
def IsTextKey (t : Node) (p : Position) (s : String) : Prop :=
  ∃ q object raw regex slots, p = q ++ [second] ∧
    t.get? q = some (.memberOf true object (.mk (.literal (.text s) raw regex) slots))

theorem isPlainKey_iff {t : Node} {p : Position} {name : String} :
    IsPlainKey t p name ↔ IsTextKey t p name ∧ isPlainName name = true := by
  constructor
  · rintro ⟨q, m, rfl, hm, hplain⟩
    obtain ⟨hname, object, raw, regex, slots, rfl⟩ := plainMember?_eq_some_iff.mp hplain
    exact ⟨⟨q, object, raw, regex, slots, rfl, hm⟩, hname⟩
  · rintro ⟨⟨q, object, raw, regex, slots, rfl, hm⟩, hname⟩
    exact ⟨q, _, rfl, hm, plainMember?_eq_some_iff.mpr ⟨hname, object, raw, regex, slots, rfl⟩⟩

/-- The identifier at a place is new: in the first tree there is none. -/
def CreatesName (t t' : Node) (p : Position) (name : String) : Prop :=
  (∃ slots, t'.get? p = some (.mk (.identifier name) slots)) ∧
    ∀ word slots, t.get? p ≠ some (.mk (.identifier word) slots)

/-- **New identifiers stand where keys were that are taken for names.** -/
theorem createsName_iff {t : Node} (hc : t.conforms = true) {p : Position} {name : String} :
    CreatesName t t.withPlainNames p name ↔ IsPlainKey t p name := by
  constructor
  · rintro ⟨⟨slots, hget⟩, hnew⟩
    rcases get?_withPlainNames_cases hc p with ⟨name', hkey, hget'⟩ | ⟨-, hmap⟩
    · rw [hget'] at hget
      cases hget
      exact hkey
    · rw [hmap] at hget
      obtain ⟨⟨k, slots'⟩, hm, he⟩ := Option.map_eq_some_iff.mp hget
      have hk := kind_withPlainNames (.mk k slots')
      rw [he] at hk
      rcases hk with hk | ⟨-, hk⟩
      · cases (show _ = k from hk)
        exact absurd hm (hnew _ _)
      · cases hk
  · intro hkey
    obtain ⟨raw, regex, slots, hliteral⟩ := hkey.get?
    refine ⟨⟨[], get?_withPlainNames_of_key hc hkey⟩, fun word slots' hword => ?_⟩
    rw [hliteral] at hword
    cases hword

/-- **What the pass writes.**  New identifiers stand where a text in brackets was a name or a name with
a line feed behind it; they are names exactly if no text had that line feed; and no text in brackets
that is a name is left. -/
theorem written_names {t : Node} (hc : t.conforms = true) :
    ∃ t' changed, (normalizeMembers t).outcome = .ok (t', changed) ∧
      (∀ p name, CreatesName t t' p name ↔ IsTextKey t p name ∧
        (IsAsciiName name ∨ ∃ word, IsAsciiName word ∧ name = word ++ "\n")) ∧
      ((∀ p name, CreatesName t t' p name → IsAsciiName name) ↔
        ∀ p word, IsAsciiName word → ¬ IsTextKey t p (word ++ "\n")) ∧
      ∀ p name, IsAsciiName name → ¬ IsTextKey t' p name := by
  refine ⟨_, _, normalizeMembers_outcome t, ?_⟩
  rw [normalizedRevision_tree hc]
  have hcreates : ∀ p name, CreatesName t t.withPlainNames p name ↔ IsTextKey t p name ∧
      (IsAsciiName name ∨ ∃ word, IsAsciiName word ∧ name = word ++ "\n") := fun p name => by
    rw [createsName_iff hc, isPlainKey_iff, isPlainName_iff]
  refine ⟨hcreates, ⟨?_, ?_⟩, ?_⟩
  · intro hall p word hword hkey
    have hascii := hall p _ ((hcreates p _).mpr ⟨hkey, Or.inr ⟨word, hword, rfl⟩⟩)
    exact hascii.not_lineFeed (by simp)
  · intro hnone p name hcreated
    obtain ⟨hkey, hname | ⟨word, hword, rfl⟩⟩ := (hcreates p name).mp hcreated
    · exact hname
    · exact absurd hkey (hnone p word hword)
  · rintro p name hname ⟨q, object, raw, regex, slots, -, hget⟩
    have hnone := plainMember?_of_get?_withPlainNames hc hget
    rw [plainMember?_eq_some_iff.mpr
      ⟨isPlainName_iff.mpr (Or.inl hname), object, raw, regex, slots, rfl⟩] at hnone
    cases hnone

/-- The script `x["a\n"];`. -/
def lineFeedKey : Node :=
  .mk (.program "script") [.many [some (.unary1 (.expressionStatement none)
    (.memberOf true (.ident "x") (.lit (.text "a\n") "\"a\\n\"")))]]

theorem written_names_lineFeedKey :
    ∃ t' changed, (normalizeMembers lineFeedKey).outcome = .ok (t', changed) ∧
      CreatesName lineFeedKey t' [⟨0, some 0⟩, first, second] "a\n" ∧ ¬ IsAsciiName "a\n" := by
  obtain ⟨t', changed, hout, hcreates, -, -⟩ := written_names (t := lineFeedKey) (by decide)
  refine ⟨t', changed, hout, (hcreates _ _).mpr ⟨?_, Or.inr ⟨"a", ?_, rfl⟩⟩, fun h => ?_⟩
  · exact ⟨[⟨0, some 0⟩, first], .ident "x", _, none, [], rfl, rfl⟩
  · exact ⟨'a', [], rfl, Or.inl rfl, by simp⟩
  · exact h.not_lineFeed (by decide)

end Descramble

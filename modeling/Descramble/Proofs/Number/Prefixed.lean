import Mathlib.Data.List.DropRight
import Descramble.Proofs.Number.WrittenDecimal

/-!
# Numbers with a base prefix

Behind `0x`, `0o` and `0b` the reader of integers takes the digits of the base.  It takes more than
that: its grammar is stated here, and the texts on which it is not the grammar of script code are those
that it reads and that are not digits throughout.

* `PlainDigits` — digits of a base and nothing else.
* `IntegerText.Grouped`, `BaseMark`, `Relaxed` — the grammar of the reader: blanks, a sign, the prefix
  of the base, single underscores between digits, digits of all scripts.
* `IntegerText.read?_eq_some_iff` — the reader reads what the grammar derives.
* `Value.prefixedNumber_iff` — where a prefixed text is a number exactly if plain digits follow.
-/

set_option autoImplicit false

namespace Descramble

/-- The text consists of digits of the base, and there is one. -/
structure PlainDigits (base : Nat) (cs : List Char) (ds : List Nat) : Prop where
  ne_nil : ds ≠ []
  lt_base : ∀ d ∈ ds, d < base
  spells : Spells cs ds

/-! ## Cutting blanks -/

namespace Text

variable {drop : Char → Bool}

/-- A trimmed text is the text without blanks around it. -/
theorem exists_trim (drop : Char → Bool) (cs : List Char) : ∃ before after,
    cs = before ++ (trim drop cs ++ after) ∧ (∀ c ∈ before, drop c = true) ∧
      ∀ c ∈ after, drop c = true := by
  refine ⟨cs.takeWhile drop, (cs.dropWhile drop).rtakeWhile drop, ?_,
    fun c => List.mem_takeWhile_imp, fun c => List.mem_rtakeWhile_imp⟩
  have hend : trim drop cs ++ (cs.dropWhile drop).rtakeWhile drop = cs.dropWhile drop :=
    List.rdropWhile_append_rtakeWhile
  rw [hend, List.takeWhile_append_dropWhile]

/-- A character that is no blank stops the trimming from the end. -/
theorem rdropWhile_cons {c : Char} (hc : drop c = false) (cs : List Char) :
    (c :: cs).rdropWhile drop = c :: cs.rdropWhile drop := by
  rw [List.rdropWhile, List.reverse_cons, List.dropWhile_append]
  split
  · rename_i hempty
    rw [List.rdropWhile, List.isEmpty_iff.mp hempty, List.dropWhile_cons_of_neg (by simp [hc])]
    rfl
  · rw [List.reverse_append]
    rfl

theorem trim_cons {c : Char} (hc : drop c = false) (cs : List Char) :
    trim drop (c :: cs) = c :: cs.rdropWhile drop := by
  rw [trim, List.dropWhile_cons_of_neg (by simp [hc]), ← rdropWhile_cons hc]
  rfl

end Text

/-! ## The grammar of the reader -/

namespace IntegerText

/-- Digits of a base in groups, with single underscores between the groups. -/
inductive Grouped (base : Nat) : List Char → List Nat → Prop
  | last {c : Char} {d : Nat} (hlt : d < base) (hc : SpellsDigit c d) : Grouped base [c] [d]
  | digit {c : Char} {d : Nat} {cs : List Char} {ds : List Nat} (hlt : d < base)
      (hc : SpellsDigit c d) (rest : Grouped base cs ds) : Grouped base (c :: cs) (d :: ds)
  | underscore {c : Char} {d : Nat} {cs : List Char} {ds : List Nat} (hlt : d < base)
      (hc : SpellsDigit c d) (rest : Grouped base cs ds) : Grouped base (c :: '_' :: cs) (d :: ds)

/-- The prefix of a base; it may be missing, and it may have an underscore behind it. -/
inductive BaseMark (base : Nat) : List Char → Prop
  | absent : BaseMark base []
  | letter {c : Char} (hc : prefixLetter? base = some c.toLower) : BaseMark base ['0', c]
  | underscore {c : Char} (hc : prefixLetter? base = some c.toLower) : BaseMark base ['0', c, '_']

/-- A sign, and the integer that it makes of a number. -/
inductive Signed : List Char → Nat → Int → Prop
  | absent {n : Nat} : Signed [] n n
  | plus {n : Nat} : Signed ['+'] n n
  | minus {n : Nat} : Signed ['-'] n (-n)

/-- The grammar of the reader: blanks, a sign, the prefix of the base, grouped digits, blanks; digits
and blanks of all scripts count as their ASCII forms. -/
def Relaxed (base : Nat) (cs : List Char) (n : Int) : Prop :=
  ∃ before sign mark digits after ds,
    cs.map asciiForm = before ++ (sign ++ (mark ++ digits) ++ after) ∧
    (∀ c ∈ before, isBlank c = true) ∧ Signed sign (positional base ds) n ∧ BaseMark base mark ∧
    Grouped base digits ds ∧ ∀ c ∈ after, isBlank c = true

variable {base d : Nat} {c : Char} {cs digits mark : List Char} {ds : List Nat}

/-- An underscore is no digit. -/
theorem digitIn?_underscore (base : Nat) : digitIn? base '_' = none := rfl

theorem Grouped.not_underscore (hbase : base ≤ 36) : ¬ Grouped base ('_' :: cs) ds := by
  intro h
  have hdigit : ∃ d, d < base ∧ SpellsDigit '_' d := by
    cases h with
    | last hlt hc => exact ⟨_, hlt, hc⟩
    | digit hlt hc => exact ⟨_, hlt, hc⟩
    | underscore hlt hc => exact ⟨_, hlt, hc⟩
  obtain ⟨d, hd⟩ := hdigit
  rw [← digitIn?_eq_some_iff hbase, digitIn?_underscore] at hd
  cases hd

/-- The reader of digits reads the grouped ones. -/
theorem grouped?_eq_some_iff (hbase : base ≤ 36) (v : Nat) (cs : List Char) (n : Nat) :
    grouped? base v cs = some n ↔
      ∃ ds, Grouped base cs ds ∧ ds.foldl (fun v d => v * base + d) v = n := by
  fun_induction grouped? base v cs with
  | case1 v => exact iff_of_false nofun nofun
  | case2 v c =>
      simp only [Option.map_eq_some_iff, digitIn?_eq_some_iff hbase]
      constructor
      · rintro ⟨d, ⟨hlt, hc⟩, rfl⟩
        exact ⟨[d], .last hlt hc, rfl⟩
      · rintro ⟨_, hgrouped, rfl⟩
        cases hgrouped with
        | last hlt hc => exact ⟨_, ⟨hlt, hc⟩, rfl⟩
        | digit _ _ hrest => cases hrest
  | case3 v c rest ih =>
      simp only [bind, Option.bind_eq_some_iff, ih, digitIn?_eq_some_iff hbase]
      constructor
      · rintro ⟨d, ⟨hlt, hc⟩, ds, hrest, rfl⟩
        exact ⟨d :: ds, .underscore hlt hc hrest, rfl⟩
      · rintro ⟨_, hgrouped, rfl⟩
        cases hgrouped with
        | digit _ _ hrest => exact absurd hrest (Grouped.not_underscore hbase)
        | underscore hlt hc hrest => exact ⟨_, ⟨hlt, hc⟩, _, hrest, rfl⟩
  | case4 v c next rest hnext ih =>
      simp only [bind, Option.bind_eq_some_iff, ih, digitIn?_eq_some_iff hbase]
      constructor
      · rintro ⟨d, ⟨hlt, hc⟩, ds, hrest, rfl⟩
        exact ⟨d :: ds, .digit hlt hc hrest, rfl⟩
      · rintro ⟨_, hgrouped, rfl⟩
        cases hgrouped with
        | digit hlt hc hrest => exact ⟨_, ⟨hlt, hc⟩, _, hrest, rfl⟩
        | underscore _ _ _ => exact absurd rfl hnext

/-! ## The prefix -/

/-- The letter of a prefix is no digit of its base. -/
theorem prefixLetter?_ne_of_spellsDigit (hlt : d < base) (hc : SpellsDigit c d) :
    prefixLetter? base ≠ some c.toLower := by
  have hx : ∀ upper, ∀ d < 16, some 'x' ≠ some (Text.hexDigit upper d).toLower := by decide
  have ho : ∀ upper, ∀ d < 8, some 'o' ≠ some (Text.hexDigit upper d).toLower := by decide
  have hb : ∀ upper, ∀ d < 2, some 'b' ≠ some (Text.hexDigit upper d).toLower := by decide
  obtain ⟨upper, rfl⟩ := hc
  unfold prefixLetter?
  split
  · exact hx upper d hlt
  · exact ho upper d hlt
  · exact hb upper d hlt
  · nofun

theorem prefixLetter?_ne_underscore (base : Nat) : prefixLetter? base ≠ some '_'.toLower := by
  unfold prefixLetter?
  split <;> decide

/-- Grouped digits have no prefix. -/
theorem Grouped.dropBase_eq_self (h : Grouped base digits ds) : dropBase base digits = digits := by
  unfold dropBase
  split
  · rename_i c rest
    have hc : prefixLetter? base ≠ some c.toLower := by
      cases h with
      | underscore => exact prefixLetter?_ne_underscore base
      | digit _ _ hrest =>
          cases hrest with
          | last hlt hc => exact prefixLetter?_ne_of_spellsDigit hlt hc
          | digit hlt hc => exact prefixLetter?_ne_of_spellsDigit hlt hc
          | underscore hlt hc => exact prefixLetter?_ne_of_spellsDigit hlt hc
    rw [if_neg hc]
  · rfl

/-- The prefix is taken off in front of grouped digits. -/
theorem dropBase_mark (hbase : base ≤ 36) (hmark : BaseMark base mark) (h : Grouped base digits ds) :
    dropBase base (mark ++ digits) = digits := by
  cases hmark with
  | absent => exact h.dropBase_eq_self
  | underscore hc => exact if_pos hc
  | letter hc =>
      refine (if_pos hc).trans ?_
      split
      · rename_i rest hrest
        replace hrest : digits = '_' :: rest := hrest
        exact absurd (hrest ▸ h) (Grouped.not_underscore hbase)
      · rfl

theorem exists_dropBase (base : Nat) (cs : List Char) :
    ∃ mark, BaseMark base mark ∧ cs = mark ++ dropBase base cs := by
  unfold dropBase
  split
  · split
    · rename_i hc
      split
      · exact ⟨_, .underscore hc, rfl⟩
      · exact ⟨_, .letter hc, rfl⟩
    · exact ⟨[], .absent, rfl⟩
  · exact ⟨[], .absent, rfl⟩

theorem magnitude?_eq_some_iff (hbase : base ≤ 36) {n : Nat} : magnitude? base cs = some n ↔
    ∃ mark digits ds, cs = mark ++ digits ∧ BaseMark base mark ∧ Grouped base digits ds ∧
      positional base ds = n := by
  rw [magnitude?, grouped?_eq_some_iff hbase]
  constructor
  · rintro ⟨ds, hdigits, hvalue⟩
    obtain ⟨mark, hmark, hcs⟩ := exists_dropBase base cs
    exact ⟨mark, _, ds, hcs, hmark, hdigits, hvalue⟩
  · rintro ⟨mark, digits, ds, rfl, hmark, hdigits, hvalue⟩
    rw [dropBase_mark hbase hmark hdigits]
    exact ⟨ds, hdigits, hvalue⟩

/-! ## The sign and the blanks -/

/-- The characters that the grammar puts between the blanks. -/
theorem Grouped.not_blank (h : Grouped base digits ds) (hbase : base ≤ 36) :
    ∀ c ∈ digits, isBlank c = false := by
  have hdigit : ∀ upper, ∀ d < 36, isBlank (Text.hexDigit upper d) = false := by decide
  induction h with
  | last hlt hc =>
      obtain ⟨upper, rfl⟩ := hc
      simpa using hdigit upper _ (by omega)
  | digit hlt hc _ ih =>
      obtain ⟨upper, rfl⟩ := hc
      exact List.forall_mem_cons.mpr ⟨hdigit upper _ (by omega), ih⟩
  | underscore hlt hc _ ih =>
      obtain ⟨upper, rfl⟩ := hc
      exact List.forall_mem_cons.mpr ⟨hdigit upper _ (by omega), List.forall_mem_cons.mpr ⟨rfl, ih⟩⟩

/-- The letter of a prefix is no blank: blanks have no lower case. -/
theorem isBlank_prefixLetter (hc : prefixLetter? base = some c.toLower) : isBlank c = false := by
  by_contra hblank
  have hsmall : c.toNat < 65 := by
    simp only [Bool.not_eq_false, isBlank, Bool.or_eq_true, Bool.and_eq_true, beq_iff_eq,
      decide_eq_true_eq] at hblank
    rcases hblank with rfl | h
    · decide
    · omega
  have hlower : c.toLower = c := dif_neg fun h => absurd (show 65 ≤ c.toNat from h.1) (by omega)
  rw [hlower] at hc
  have hletter : ∀ letter, prefixLetter? base = some letter → 65 ≤ letter.toNat := by
    unfold prefixLetter?
    rintro letter h
    split at h <;> cases h <;> decide
  have := hletter c hc
  omega

theorem BaseMark.not_blank (h : BaseMark base mark) : ∀ c ∈ mark, isBlank c = false := by
  cases h with
  | absent => nofun
  | letter hc => simpa using ⟨rfl, isBlank_prefixLetter hc⟩
  | underscore hc => simpa using ⟨rfl, isBlank_prefixLetter hc, rfl⟩

theorem Signed.not_blank {sign : List Char} {m : Nat} {n : Int} (h : Signed sign m n) :
    ∀ c ∈ sign, isBlank c = false := by
  cases h with
  | absent => nofun
  | plus => exact List.forall_mem_singleton.mpr rfl
  | minus => exact List.forall_mem_singleton.mpr rfl

/-- A sign is no digit. -/
theorem magnitude?_sign {sign : Char} (hsign : sign = '-' ∨ sign = '+') (rest : List Char) :
    magnitude? base (sign :: rest) = none := by
  have hdrop : dropBase base (sign :: rest) = sign :: rest := by
    rcases hsign with rfl | rfl <;> rfl
  have hdigit : digitIn? base sign = none := by
    rcases hsign with rfl | rfl <;> rfl
  rw [magnitude?, hdrop]
  unfold grouped?
  split <;> simp_all

/-- The reader takes a sign and digits between the blanks. -/
theorem read?_eq_some_iff_signed {n : Int} : read? base cs = some n ↔
    ∃ sign body m, Text.trim isBlank (cs.map asciiForm) = sign ++ body ∧ Signed sign m n ∧
      magnitude? base body = some m := by
  unfold read?
  generalize Text.trim isBlank (cs.map asciiForm) = core
  have hnone : ∀ {sign}, sign = '-' ∨ sign = '+' → ∀ rest m, magnitude? base (sign :: rest) ≠ some m := by
    intro sign hsign rest m
    rw [magnitude?_sign hsign]
    nofun
  constructor
  · intro h
    split at h <;> simp only [bind, pure, Option.map_eq_some_iff, Option.bind_eq_some_iff,
      Option.some.injEq] at h <;> obtain ⟨_, ⟨m, hbody, rfl⟩, rfl⟩ := h
    · exact ⟨['-'], _, m, rfl, .minus, hbody⟩
    · exact ⟨['+'], _, m, rfl, .plus, hbody⟩
    · exact ⟨[], _, m, rfl, .absent, hbody⟩
  · rintro ⟨sign, body, m, rfl, hsign, hbody⟩
    cases hsign with
    | minus => simp [hbody]
    | plus => simp [hbody]
    | absent =>
        rw [List.nil_append]
        split
        · exact absurd hbody (hnone (Or.inl rfl) _ m)
        · exact absurd hbody (hnone (Or.inr rfl) _ m)
        · simp [hbody]

/-- **The reader reads what its grammar derives.** -/
theorem read?_eq_some_iff (hbase : base ≤ 36) {n : Int} : read? base cs = some n ↔ Relaxed base cs n := by
  rw [read?_eq_some_iff_signed]
  constructor
  · rintro ⟨sign, body, m, htrim, hsign, hbody⟩
    obtain ⟨mark, digits, ds, rfl, hmark, hdigits, rfl⟩ := (magnitude?_eq_some_iff hbase).mp hbody
    obtain ⟨before, after, hcs, hbefore, hafter⟩ := Text.exists_trim isBlank (cs.map asciiForm)
    rw [htrim] at hcs
    exact ⟨before, sign, mark, digits, after, ds, hcs, hbefore, hsign, hmark, hdigits, hafter⟩
  · rintro ⟨before, sign, mark, digits, after, ds, hcs, hbefore, hsign, hmark, hdigits, hafter⟩
    have hcore : ∀ c ∈ sign ++ (mark ++ digits), isBlank c = false :=
      List.forall_mem_append.mpr ⟨hsign.not_blank,
        List.forall_mem_append.mpr ⟨hmark.not_blank, hdigits.not_blank hbase⟩⟩
    refine ⟨sign, mark ++ digits, positional base ds, ?_, hsign,
      (magnitude?_eq_some_iff hbase).mpr ⟨mark, digits, ds, rfl, hmark, hdigits, rfl⟩⟩
    rw [hcs, Text.trim_append hbefore hcore hafter]

/-! ## Plain digits -/

theorem Grouped.of_spells (hne : ds ≠ []) (hlt : ∀ d ∈ ds, d < base) (h : Spells cs ds) :
    Grouped base cs ds := by
  induction h with
  | nil => exact absurd rfl hne
  | @cons c d cs ds hc hcs ih =>
      obtain ⟨hd, hds⟩ := List.forall_mem_cons.mp hlt
      cases hcs with
      | nil => exact .last hd hc
      | cons hc' hcs' => exact .digit hd hc (ih (by simp) hds)

theorem asciiForm_of_spells (hbase : base ≤ 36) (hlt : ∀ d ∈ ds, d < base) (h : Spells cs ds) :
    cs.map asciiForm = cs := by
  have hascii : ∀ upper, ∀ d < 36, (Text.hexDigit upper d).toNat < 127 := by decide
  induction h with
  | nil => rfl
  | cons hc hcs ih =>
      obtain ⟨hd, hds⟩ := List.forall_mem_cons.mp hlt
      obtain ⟨upper, rfl⟩ := hc
      rw [List.map_cons, ih hds, asciiForm, if_pos (hascii upper _ (by omega))]

/-- The grammar of the reader derives plain digits. -/
theorem Relaxed.of_plain (hbase : base ≤ 36) (h : PlainDigits base cs ds) :
    Relaxed base cs (positional base ds) :=
  ⟨[], [], [], cs, [], ds, by simp [asciiForm_of_spells hbase h.lt_base h.spells], nofun, .absent, .absent,
    .of_spells h.ne_nil h.lt_base h.spells, nofun⟩

end IntegerText

/-! ## Prefixed texts -/

/-- The letters behind a zero that announce a base. -/
def Number.prefixLetters : List (Char × Nat) :=
  [('x', 16), ('X', 16), ('o', 8), ('O', 8), ('b', 2), ('B', 2)]

namespace Value

variable {letter : Char} {base : Nat}

theorem ofText_prefixed (hletter : (letter, base) ∈ Number.prefixLetters) (s : List Char) :
    Number.ofText (String.ofList ('0' :: letter :: s)) =
      (IntegerText.read? base (s.rdropWhile Text.isBlank)).elim Number.nan .int := by
  have hblank : ∀ p ∈ Number.prefixLetters, Text.isBlank p.1 = false := by decide
  have hbase : ∀ p ∈ Number.prefixLetters, ∀ rest,
      Number.announcedBase? ('0' :: p.1 :: rest) = some (p.2, rest) := by
    simp [Number.prefixLetters, Number.announcedBase?]
  rw [Number.ofText, String.toList_ofList, Text.trim_cons (by decide),
    Text.rdropWhile_cons (hblank _ hletter), Number.ofTrimmed, if_neg (by simp)]
  simp only [hbase _ hletter]
  cases IntegerText.read? base (s.rdropWhile Text.isBlank) <;> rfl

/-- **Behind a prefix the reader takes the texts of its wider grammar.**  Plain digits are among them
and are read as their positional value; so a prefixed text is a number exactly if plain digits follow,
except for the texts that the grammar derives and that are not plain digits. -/
theorem prefixedNumber_iff (hletter : (letter, base) ∈ Number.prefixLetters) (s : List Char) :
    ∃ w, (text (String.ofList ('0' :: letter :: s))).toNumber = .ok w ∧
      (∀ ds, PlainDigits base (s.rdropWhile Text.isBlank) ds → w = .int (positional base ds)) ∧
      (∀ n, w = .int n ↔ IntegerText.Relaxed base (s.rdropWhile Text.isBlank) n) ∧
      (w ≠ Number.nan ↔ ∃ n, IntegerText.Relaxed base (s.rdropWhile Text.isBlank) n) ∧
      ((w ≠ Number.nan ↔ ∃ ds, PlainDigits base (s.rdropWhile Text.isBlank) ds) ↔
        ((∃ n, IntegerText.Relaxed base (s.rdropWhile Text.isBlank) n) →
          ∃ ds, PlainDigits base (s.rdropWhile Text.isBlank) ds)) := by
  have hbounds : ∀ p ∈ Number.prefixLetters, p.2 ≤ 36 := by decide
  have hbase : base ≤ 36 := hbounds _ hletter
  refine ⟨_, rfl, ?_⟩
  rw [ofText_prefixed hletter]
  generalize s.rdropWhile Text.isBlank = body
  have hint : ∀ n, (IntegerText.read? base body).elim Number.nan .int = .int n ↔
      IntegerText.Relaxed base body n := by
    intro n
    rw [← IntegerText.read?_eq_some_iff hbase]
    cases IntegerText.read? base body <;> simp [Number.nan]
  have hnumber : (IntegerText.read? base body).elim Number.nan .int ≠ Number.nan ↔
      ∃ n, IntegerText.Relaxed base body n := by
    simp only [← IntegerText.read?_eq_some_iff hbase]
    cases IntegerText.read? base body <;> simp [Number.nan]
  have hplain : (∃ ds, PlainDigits base body ds) → ∃ n, IntegerText.Relaxed base body n :=
    fun ⟨_, h⟩ => ⟨_, .of_plain hbase h⟩
  refine ⟨fun ds h => (hint _).mpr (.of_plain hbase h), hint, hnumber, ?_⟩
  rw [hnumber]
  exact ⟨Iff.mp, fun h => ⟨h, hplain⟩⟩

/-- An underscore between the digits: the text is a number, and the digits are not plain. -/
theorem prefixedNumber_iff_underscore :
    ('x', 16) ∈ Number.prefixLetters ∧
    (text (String.ofList ['0', 'x', '1', '_', '0'])).toNumber = .ok (.int 16) ∧
    ¬ ∃ ds, PlainDigits 16 ['1', '_', '0'] ds := by
  have hletter : ('x', 16) ∈ Number.prefixLetters := by decide
  have hbody : ['1', '_', '0'].rdropWhile Text.isBlank = ['1', '_', '0'] := by decide
  obtain ⟨w, hw, -, hint, -⟩ := prefixedNumber_iff hletter ['1', '_', '0']
  have hdigits : IntegerText.Grouped 16 ['1', '_', '0'] [1, 0] :=
    .underscore (by decide) ⟨false, by decide⟩ (.last (by decide) ⟨false, by decide⟩)
  have hrelaxed : IntegerText.Relaxed 16 ['1', '_', '0'] 16 :=
    ⟨[], [], [], _, [], _, by decide, nofun, .absent, .absent, hdigits, nofun⟩
  rw [hbody] at hint
  refine ⟨hletter, by rw [hw, (hint 16).mpr hrelaxed], ?_⟩
  rintro ⟨ds, -, hlt, hspells⟩
  cases hspells with
  | cons _ hcs =>
      cases hcs with
      | cons hc _ =>
          have hdigit := (IntegerText.digitIn?_eq_some_iff (by decide)).mpr ⟨hlt _ (by simp), hc⟩
          rw [IntegerText.digitIn?_underscore] at hdigit
          cases hdigit

end Value

end Descramble

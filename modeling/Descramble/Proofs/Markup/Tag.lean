import Descramble.Markup.Script

/-!
# The start tags of scripts

A start tag is a bracket with a name, a gap, the attributes and a closing bracket.  It is read whole
where its parts are told apart by what follows them.

* `IsTag` — the parts of a start tag in front of the rest of a page.
* `IsTag.startTagLength?_eq`, `IsTag.startTag?_eq` — such a tag is read up to its closing bracket.
* `isTag_script`, `isTag_source` — the start tag of a script, without and with a source.
-/

set_option autoImplicit false

namespace Descramble.Markup

theorem isSpace_bracket : isSpace '>' = false := by decide

theorem spanLength_append {p : Char → Bool} {part rest : List Char} (hpart : ∀ c ∈ part, p c = true)
    (hrest : ∀ c, rest.head? = some c → p c = false) :
    spanLength p (part ++ rest) = part.length := by
  rw [spanLength, List.takeWhile_append_of_pos hpart]
  cases rest with
  | nil => simp
  | cons c rest => rw [List.takeWhile_cons_of_neg (by simp [hrest c rfl]), List.append_nil]

theorem gapLength_append {rest : List Char}
    (hrest : ∀ c, rest.head? = some c → isSpace c = false ∧ c ≠ '/') : ∀ {gap : List Char},
    (∀ c ∈ gap, isSpace c = true) → gapLength (gap ++ rest) = gap.length
  | [], _ => by
      cases rest with
      | nil => rfl
      | cons c rest =>
          obtain ⟨hspace, hslash⟩ := hrest c rfl
          simp [gapLength, hspace, hslash]
  | c :: gap, hgap => by
      have hc := hgap c List.mem_cons_self
      rw [List.cons_append, gapLength, if_pos (by rw [hc, Bool.true_or]),
        gapLength_append hrest fun d hd => hgap d (List.mem_cons_of_mem _ hd), List.length_cons]

section
variable {name gap attrs rest : List Char} {names : List String}

/-- A start tag with the attributes of given names, in front of the rest of a page. -/
structure IsTag (name gap attrs rest : List Char) (names : List String) : Prop where
  isName : ∀ c ∈ name, continuesTagName c = true
  isGap : ∀ c ∈ gap, isSpace c = true
  endsName : ∀ c, (gap ++ (attrs ++ '>' :: rest)).head? = some c → continuesTagName c = false
  endsGap : ∀ c, (attrs ++ '>' :: rest).head? = some c → isSpace c = false ∧ c ≠ '/'
  attributes_eq : ∀ fuel limit, limit = none ∨ limit = some (attrs.length + 1) →
    attributes (fuel + 2) limit (lastOr '<' ('<' :: (name ++ gap))) (attrs ++ '>' :: rest) =
      (names, attrs.length)

namespace IsTag

theorem drop_name (body : List Char) :
    ('<' :: (name ++ (gap ++ body))).drop (1 + name.length) = gap ++ body := by
  rw [Nat.add_comm, List.drop_succ_cons, List.drop_left]

theorem drop_gap (body : List Char) :
    ('<' :: (name ++ (gap ++ body))).drop (1 + name.length + gap.length) = body := by
  rw [← List.drop_drop, drop_name, List.drop_left]

theorem take_gap (body : List Char) :
    ('<' :: (name ++ (gap ++ body))).take (1 + name.length + gap.length) = '<' :: (name ++ gap) := by
  rw [← List.append_assoc, ← List.cons_append]
  exact List.take_left' (by simp; omega)

theorem startTagLength?_eq (h : IsTag name gap attrs rest names) :
    startTagLength? ('<' :: (name ++ (gap ++ (attrs ++ '>' :: rest)))) =
      some (1 + name.length + gap.length + attrs.length + 1) := by
  have hname := spanLength_append h.isName h.endsName
  have hgap : spanLength (fun c => isSpace c || c == '/') (gap ++ (attrs ++ '>' :: rest)) =
      gap.length :=
    spanLength_append (fun c hc => by rw [h.isGap c hc, Bool.true_or]) fun c hc => by
      simp [h.endsGap c hc]
  have hattrs := fun fuel => h.attributes_eq fuel none (.inl rfl)
  have hend : ('<' :: (name ++ (gap ++ (attrs ++ '>' :: rest)))).drop
      (1 + name.length + gap.length + attrs.length) = '>' :: rest := by
    rw [← List.drop_drop, drop_gap, List.drop_left]
  have hspace : spanLength isSpace ('>' :: rest) = 0 := by simp [spanLength, isSpace_bracket]
  rw [startTagLength?]
  simp only [List.drop_one, List.tail_cons, hname, drop_name, hgap, drop_gap, take_gap,
    List.length_cons, hattrs, hend, hspace, Nat.add_zero]

theorem startTag?_eq (h : IsTag name gap attrs rest names) :
    startTag? ('<' :: (name ++ (gap ++ (attrs ++ '>' :: rest))))
      (1 + name.length + gap.length + attrs.length + 1) = some ⟨lowered name, names, false⟩ := by
  have hname := spanLength_append h.isName h.endsName
  have hgap := gapLength_append h.endsGap h.isGap
  have hattrs := fun fuel => h.attributes_eq fuel (some (attrs.length + 1)) (.inr rfl)
  have hlimit : 1 + name.length + gap.length + attrs.length + 1 - (1 + name.length + gap.length) =
      attrs.length + 1 := by omega
  have hfinish : (('<' :: (name ++ (gap ++ (attrs ++ '>' :: rest)))).take
      (1 + name.length + gap.length + attrs.length + 1)).drop
        (1 + name.length + gap.length + attrs.length) = ['>'] := by
    rw [List.drop_take, ← List.drop_drop, drop_gap, List.drop_left, Nat.add_sub_cancel_left]
    rfl
  have htrim : Text.trim isSpace ['>'] = ['>'] := by simp [Text.trim, isSpace_bracket]
  rw [startTag?]
  simp only [List.drop_one, List.tail_cons, hname, drop_name, hgap, drop_gap, take_gap,
    hlimit, hfinish, htrim, List.length_cons, hattrs, List.take_left]
  simp

theorem startConstruct_eq (h : IsTag name gap attrs rest names) :
    startConstruct ('<' :: (name ++ (gap ++ (attrs ++ '>' :: rest)))) =
      .start ⟨lowered name, names, false⟩ (1 + name.length + gap.length + attrs.length + 1) := by
  rw [startConstruct, h.startTagLength?_eq]
  simp only [h.startTag?_eq]

end IsTag

end

theorem attribute?_bracket (before : Char) (rest : List Char) :
    attribute? before ('>' :: rest) = none := by
  rw [attribute?, if_neg (by simp)]

theorem attributes_of_none {fuel : Nat} {limit : Option Nat} {before : Char} {cs : List Char}
    (h : attribute? before cs = none) : attributes (fuel + 1) limit before cs = ([], 0) := by
  rw [attributes, h]
  split <;> rfl

def scriptName : List Char := ['s', 'c', 'r', 'i', 'p', 't']

theorem isTag_script (rest : List Char) : IsTag scriptName [] [] rest [] where
  isName := List.all_eq_true.mp (by decide)
  isGap := List.all_eq_true.mp (by decide)
  endsName := by
    rintro c ⟨⟩
    decide
  endsGap := by
    rintro c ⟨⟩
    decide
  attributes_eq fuel limit _ := attributes_of_none (attribute?_bracket _ _)

/-- The attribute with the source of a script. -/
def sourceAttribute (source : List Char) : List Char :=
  ['s', 'r', 'c', '=', '"'] ++ source ++ ['"']

section
variable {source : List Char} (h : '"' ∉ source) (rest : List Char)
include h

theorem quotedLength?_append :
    quotedLength? '"' (source ++ '"' :: rest) = some (source.length + 2) := by
  have hbody : spanLength (· != '"') (source ++ '"' :: rest) = source.length :=
    spanLength_append (fun c hc => by
      rw [bne_iff_ne]
      rintro rfl
      exact h hc) (by rintro c ⟨⟩; rfl)
  rw [quotedLength?, hbody, if_pos (by simp)]

theorem valueLength?_quoted :
    valueLength? ('=' :: '"' :: (source ++ '"' :: rest)) = some (source.length + 3) := by
  have hblanks : spanLength isSpace ('=' :: '"' :: (source ++ '"' :: rest)) = 0 := by
    simp [spanLength, show isSpace '=' = false by decide]
  have hsigns : spanLength (· == '=') ('=' :: '"' :: (source ++ '"' :: rest)) = 1 := by
    simp [spanLength]
  have hinner : spanLength isSpace ('"' :: (source ++ '"' :: rest)) = 0 := by
    simp [spanLength, show isSpace '"' = false by decide]
  rw [valueLength?]
  simp only [hblanks, List.drop_zero, hsigns, Nat.zero_add, List.drop_one, List.tail_cons, hinner]
  simp [quotedLength?_append h, Nat.add_comm 1]

theorem attribute?_source : attribute? ' ' (sourceAttribute source ++ '>' :: rest) =
    some ("src", (sourceAttribute source).length) := by
  have hmore : ∀ body, spanLength (fun c => !(isSpace c || c == '/' || c == '=' || c == '>'))
      ('r' :: 'c' :: '=' :: body) = 2 := fun body =>
    @spanLength_append _ ['r', 'c'] ('=' :: body) (List.all_eq_true.mp (by decide))
      (by rintro c ⟨⟩; decide)
  have hvalue := valueLength?_quoted h ('>' :: rest)
  rw [sourceAttribute]
  simp only [List.append_assoc, List.cons_append, List.nil_append]
  rw [attribute?, if_pos (by decide)]
  have hgap : gapLength
      (('=' :: '"' :: (source ++ '"' :: '>' :: rest)).drop (source.length + 3)) = 0 := by
    simp [gapLength, isSpace_bracket]
  have hbehind : ('r' :: 'c' :: '=' :: '"' :: (source ++ '"' :: '>' :: rest)).drop 2 =
      '=' :: '"' :: (source ++ '"' :: '>' :: rest) := rfl
  simp only [hmore, hbehind, hvalue, Option.getD_some, hgap]
  simp [lowered]
  omega

end

theorem isTag_source {source : List Char} (h : '"' ∉ source) (rest : List Char) :
    IsTag scriptName [' '] (sourceAttribute source) rest ["src"] where
  isName := List.all_eq_true.mp (by decide)
  isGap := List.all_eq_true.mp (by decide)
  endsName := by
    rintro c ⟨⟩
    decide
  endsGap := by
    rintro c ⟨⟩
    decide
  attributes_eq fuel limit hlimit := by
    have hlast : lastOr '<' ('<' :: (scriptName ++ [' '])) = ' ' := by decide
    have hpos : (limit == some 0) = false := by
      rcases hlimit with rfl | rfl <;> rfl
    rw [hlast, attributes, if_neg (by rw [hpos]; exact Bool.false_ne_true), attribute?_source h]
    simp only [List.drop_left, attributes_of_none (attribute?_bracket _ _)]
    rfl

end Descramble.Markup

import Descramble.Link
import Descramble.Source.Packed
import Descramble.Proofs.Text.Utf8

/-!
# Reading a link

The link to the viewer page carries a text behind its first hash mark.  The text is written in letters,
digits, nine marks, and bytes by their codes, so it holds no hash mark itself and can be read back.

* `Link.Escaped` — the texts that are made of marks and of bytes by their codes.
* `Link.escaped_flatMap_percentChar` — what a link carries is such a text.
* `Link.percentBytes_flatMap_percentChar` — the bytes of what a link carries.
* `Text.ofUtf8?` — the text of bytes, if they are the standard encoding of one.
* `Link.carried?` — the path and the text of a link, from the two sides of its first hash mark.
* `viewerLink_decodes` — a link can be read back, and different texts have different links.
-/

set_option autoImplicit false

namespace Descramble

open Packed (percentBytes)

/-- The text whose standard encoding the bytes are. -/
def Text.ofUtf8? (bytes : List Nat) : Option String :=
  String.fromUTF8? (bytes.map UInt8.ofNat).toByteArray

theorem Text.ofUtf8?_encode (s : String) : ofUtf8? (encode s.toList) = some s := by
  have hbytes : (s.toList.flatMap String.utf8EncodeChar).toByteArray = s.toByteArray := by
    calc (s.toList.flatMap String.utf8EncodeChar).toByteArray
        = (String.ofList s.toList).toByteArray := String.toByteArray_ofList.symm
      _ = s.toByteArray := by rw [String.ofList_toList]
  rw [ofUtf8?, encode_eq_standard, hbytes, String.fromUTF8?, dif_pos s.isValidUTF8]
  rfl

namespace Link

/-! ## What a link carries -/

/-- Letters, digits and nine marks. -/
def IsMark (c : Char) : Prop :=
  ('A' ≤ c ∧ c ≤ 'Z') ∨ ('a' ≤ c ∧ c ≤ 'z') ∨ ('0' ≤ c ∧ c ≤ '9') ∨
    c ∈ ['-', '_', '.', '!', '~', '*', '\'', '(', ')']

/-- Hexadecimal digits whose letters are upper-case. -/
def IsHexDigit (c : Char) : Prop := ('0' ≤ c ∧ c ≤ '9') ∨ ('A' ≤ c ∧ c ≤ 'F')

instance (c : Char) : Decidable (IsHexDigit c) :=
  inferInstanceAs (Decidable (('0' ≤ c ∧ c ≤ '9') ∨ ('A' ≤ c ∧ c ≤ 'F')))

/-- The text consists of marks, and of percent signs with two digits each. -/
inductive Escaped : List Char → Prop where
  | nil : Escaped []
  | mark {c : Char} {rest : List Char} : IsMark c → Escaped rest → Escaped (c :: rest)
  | byte {high low : Char} {rest : List Char} :
    IsHexDigit high → IsHexDigit low → Escaped rest → Escaped ('%' :: high :: low :: rest)

variable {c : Char} {cs ds : List Char} {byte n : Nat}

theorem standsForItself_iff : standsForItself c = true ↔ IsMark c := by
  have hmarks : "-_.!~*'()".toList = ['-', '_', '.', '!', '~', '*', '\'', '(', ')'] := by decide
  have hupper : c.isUpper = true ↔ 'A' ≤ c ∧ c ≤ 'Z' := decide_eq_true_iff
  have hlower : c.isLower = true ↔ 'a' ≤ c ∧ c ≤ 'z' := by
    rw [show c.isLower = (decide ('a' ≤ c) && decide (c ≤ 'z')) from rfl, Bool.and_eq_true,
      decide_eq_true_iff, decide_eq_true_iff]
  have hdigit : c.isDigit = true ↔ '0' ≤ c ∧ c ≤ '9' := by
    rw [Char.isDigit, Bool.and_eq_true, decide_eq_true_iff, decide_eq_true_iff]
    rfl
  have hletters : c.isAlphanum = (c.isUpper || c.isLower || c.isDigit) := rfl
  simp only [standsForItself, hmarks, hletters, Bool.or_eq_true, hupper, hlower, hdigit,
    List.contains_iff_mem, IsMark, or_assoc]

theorem isHexDigit_hexDigit : ∀ d < 16, IsHexDigit (Text.hexDigit true d) := by decide

theorem percentByte_eq (byte : Nat) : percentByte byte =
    ['%', Text.hexDigit true (byte / 16 % 16), Text.hexDigit true (byte % 16)] := rfl

theorem Escaped.append (hcs : Escaped cs) (hds : Escaped ds) : Escaped (cs ++ ds) := by
  induction hcs with
  | nil => exact hds
  | mark hc _ ih => exact .mark hc ih
  | byte hhigh hlow _ ih => exact .byte hhigh hlow ih

theorem escaped_flatMap {α : Type} {f : α → List Char} (xs : List α) (h : ∀ x ∈ xs, Escaped (f x)) :
    Escaped (xs.flatMap f) := by
  induction xs with
  | nil => exact .nil
  | cons x xs ih =>
      rw [List.flatMap_cons]
      exact (h x List.mem_cons_self).append (ih fun y hy => h y (List.mem_cons_of_mem _ hy))

theorem escaped_percentChar (c : Char) : Escaped (percentChar c) := by
  unfold percentChar
  split
  · rename_i hmark
    exact .mark (standsForItself_iff.mp hmark) .nil
  · refine escaped_flatMap _ fun byte _ => ?_
    rw [percentByte_eq]
    exact .byte (isHexDigit_hexDigit _ (by omega)) (isHexDigit_hexDigit _ (by omega)) .nil

/-- **What a link carries** consists of marks, and of bytes by their codes. -/
theorem escaped_flatMap_percentChar (cs : List Char) : Escaped (cs.flatMap percentChar) :=
  escaped_flatMap cs fun c _ => escaped_percentChar c

/-! ## Its bytes -/

theorem percentBytes_of_ne (h : c ≠ '%') : percentBytes (c :: cs) = c.toNat :: percentBytes cs := by
  rw [percentBytes]
  rintro a b rest ⟨⟩
  exact absurd rfl h

theorem isHexDigit_of_lt : ∀ d < 16, Formatter.isHexDigit (Text.hexDigit true d) = true ∧
    (IntegerText.digitValue? (Text.hexDigit true d)).getD 0 = d := by decide

theorem percentBytes_percentByte (h : byte < 0x100) :
    percentBytes (percentByte byte ++ cs) = byte :: percentBytes cs := by
  obtain ⟨hhigh, hhigh'⟩ := isHexDigit_of_lt (byte / 16 % 16) (by omega)
  obtain ⟨hlow, hlow'⟩ := isHexDigit_of_lt (byte % 16) (by omega)
  rw [percentByte_eq, List.cons_append, List.cons_append, List.cons_append, List.nil_append,
    percentBytes]
  simp only [hhigh, hlow, hhigh', hlow', Bool.and_self, if_true, List.cons.injEq, and_true]
  omega

theorem percentBytes_flatMap_percentByte : ∀ {bytes : List Nat}, (∀ byte ∈ bytes, byte < 0x100) →
    percentBytes (bytes.flatMap percentByte ++ cs) = bytes ++ percentBytes cs
  | [], _ => rfl
  | byte :: bytes, h => by
      rw [List.flatMap_cons, List.append_assoc, percentBytes_percentByte (h byte List.mem_cons_self),
        percentBytes_flatMap_percentByte fun b hb => h b (List.mem_cons_of_mem _ hb), List.cons_append]

theorem utf8_lt (c : Char) : ∀ byte ∈ utf8 c, byte < 0x100 := by
  have hvalid := toNat_valid c
  unfold utf8
  dsimp only
  intro byte hbyte
  split at hbyte
  · simp only [List.mem_singleton] at hbyte
    omega
  split at hbyte
  · simp only [List.mem_cons, List.not_mem_nil, or_false] at hbyte
    omega
  split at hbyte <;> simp only [List.mem_cons, List.not_mem_nil, or_false] at hbyte <;> omega

theorem toNat_lt_of_isMark (h : IsMark c) : c.toNat < 0x80 := by
  rcases h with ⟨-, h⟩ | ⟨-, h⟩ | ⟨-, h⟩ | h
  · exact Nat.lt_of_le_of_lt (show c.toNat ≤ 'Z'.toNat from h) (by decide)
  · exact Nat.lt_of_le_of_lt (show c.toNat ≤ 'z'.toNat from h) (by decide)
  · exact Nat.lt_of_le_of_lt (show c.toNat ≤ '9'.toNat from h) (by decide)
  · have hmarks : ['-', '_', '.', '!', '~', '*', '\'', '(', ')'].all
        (decide <| ·.toNat < 0x80) = true := by decide
    exact of_decide_eq_true (List.all_eq_true.mp hmarks c h)

theorem ne_percent_of_isMark (h : IsMark c) : c ≠ '%' := by
  rintro rfl
  revert h
  unfold IsMark
  decide

/-- A character is carried as its bytes. -/
theorem percentBytes_percentChar (c : Char) (cs : List Char) :
    percentBytes (percentChar c ++ cs) = utf8 c ++ percentBytes cs := by
  unfold percentChar
  split
  · rename_i hmark
    have hmark := standsForItself_iff.mp hmark
    rw [List.singleton_append, percentBytes_of_ne (ne_percent_of_isMark hmark), utf8,
      if_pos (toNat_lt_of_isMark hmark), List.singleton_append]
  · exact percentBytes_flatMap_percentByte (utf8_lt c)

/-- **The bytes of what a link carries** are those of the text. -/
theorem percentBytes_flatMap_percentChar (cs : List Char) :
    percentBytes (cs.flatMap percentChar) = Text.encode cs := by
  induction cs with
  | nil => rfl
  | cons c cs ih =>
      rw [List.flatMap_cons, percentBytes_percentChar, ih]
      rfl

/-! ## Reading -/

/-- The path and the text of a link: what stands before its first hash mark, and what is carried
behind it. -/
def carried? (link : String) : Option (String × String) := do
  let path ← "file://".toList.isPrefixOf? (link.toList.takeWhile (· != '#'))
  let text ← Text.ofUtf8? (percentBytes ((link.toList.dropWhile (· != '#')).drop 1))
  return (String.ofList path, text)

variable {path code : String}

theorem toList_viewerLink (path code : String) : (viewerLink path code).toList =
    "file://".toList ++ path.toList ++ '#' :: code.toList.flatMap percentChar := by
  simp only [viewerLink, percentEncoded, String.toList_append, String.toList_ofList, List.append_assoc]
  rfl

theorem ofUtf8?_percentBytes (code : String) :
    Text.ofUtf8? (percentBytes (code.toList.flatMap percentChar)) = some code := by
  rw [percentBytes_flatMap_percentChar, Text.ofUtf8?_encode]

/-- **A link is read back**, as long as its path has no hash mark. -/
theorem carried?_viewerLink (hpath : '#' ∉ path.toList) :
    carried? (viewerLink path code) = some (path, code) := by
  have hbefore : ∀ c ∈ "file://".toList ++ path.toList, (c != '#') = true := by
    intro c hc
    rw [bne_iff_ne]
    rcases List.mem_append.mp hc with hc | hc
    · have hscheme : "file://".toList.all (· != '#') = true := by decide
      exact bne_iff_ne.mp (List.all_eq_true.mp hscheme c hc)
    · rintro rfl
      exact hpath hc
  have hprefix : "file://".toList.isPrefixOf? ("file://".toList ++ path.toList) = some path.toList := rfl
  rw [carried?, toList_viewerLink, List.takeWhile_append_of_pos hbefore,
    List.dropWhile_append_of_pos hbefore, List.takeWhile_cons_of_neg (by decide),
    List.dropWhile_cons_of_neg (by decide), List.append_nil, List.drop_one, List.tail_cons, hprefix,
    ofUtf8?_percentBytes]
  simp only [bind, Option.bind, pure, String.ofList_toList]

end Link

/-- **A link can be decoded**: behind the path and a hash mark it has only marks, and bytes by their
codes; these are the bytes of the text, and as bytes of a text they give it back.  So the path and the
text are read back from the two sides of the first hash mark, and different texts have different
links. -/
theorem viewerLink_decodes (path code : String) :
    (∃ carried, (viewerLink path code).toList = "file://".toList ++ path.toList ++ '#' :: carried ∧
      Link.Escaped carried ∧ Text.decode (percentBytes carried) = code.toList ∧
      Text.ofUtf8? (percentBytes carried) = some code) ∧
    ('#' ∉ path.toList → Link.carried? (viewerLink path code) = some (path, code)) ∧
    ∀ other, viewerLink path other = viewerLink path code → other = code := by
  refine ⟨⟨_, Link.toList_viewerLink path code, Link.escaped_flatMap_percentChar _, ?_,
    Link.ofUtf8?_percentBytes code⟩, Link.carried?_viewerLink, ?_⟩
  · rw [Link.percentBytes_flatMap_percentChar, Text.decode_encode]
  · intro other hlink
    have hcarried : other.toList.flatMap percentChar = code.toList.flatMap percentChar := by
      have := congrArg String.toList hlink
      rw [Link.toList_viewerLink, Link.toList_viewerLink] at this
      exact (List.cons.inj (List.append_cancel_left this)).2
    have hread := Link.ofUtf8?_percentBytes other
    rw [hcarried, Link.ofUtf8?_percentBytes] at hread
    exact (Option.some.inj hread).symm

/-- Percent signs and hash marks of a text are not those of the link. -/
theorem viewerLink_decodes_marks :
    '#' ∉ "/v.html".toList ∧ viewerLink "/v.html" "%#é" = "file:///v.html#%25%23%C3%A9" ∧
    Link.carried? "file:///v.html#%25%23%C3%A9" = some ("/v.html", "%#é") := by
  have hpath : '#' ∉ "/v.html".toList := by decide
  have hlink : viewerLink "/v.html" "%#é" = "file:///v.html#%25%23%C3%A9" := by decide
  exact ⟨hpath, hlink, hlink ▸ (viewerLink_decodes "/v.html" "%#é").2.1 hpath⟩

end Descramble

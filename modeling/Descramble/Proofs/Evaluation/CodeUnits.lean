import Descramble.Proofs.Evaluation.Literal
import Descramble.Proofs.Pass.Names

/-!
# Known texts and their code units

Script code counts and indexes a text by its 16-bit code units: a character beyond the basic plane has
two of them.  Static evaluation counts and indexes characters.

* `Text.codeUnits` — the code units of a text; `Text.codeUnits_eq_iff` — they are its characters exactly
  if all of these are in the basic plane.
* `Builtin.charsOfCodes_eq_ok`, `Builtin.charsOfCodes_eq_error` — the characters made from codes have
  just these codes, and where one of them is a surrogate there is no text.
* `MakesText.evaluate_eq` — so it is for the calls of a script that make a text from codes.
* `Value.member_length`, `Value.callMethod_charCodeAt` — lengths and character codes as the values have
  them are those of the code units.
* `known_text_units` — every text that static evaluation finds is counted and indexed alike both ways.
-/

set_option autoImplicit false

namespace Descramble

namespace Text

/-- Is the code one half of a pair that stands for a character beyond the basic plane? -/
def IsSurrogate (code : Nat) : Prop := 0xD800 ≤ code ∧ code ≤ 0xDFFF

/-- The code units of a character: two surrogates, if it is beyond the basic plane. -/
def charUnits (c : Char) : List Nat :=
  if c.toNat ≤ 0xFFFF then [c.toNat]
  else [0xD800 + (c.toNat - 0x10000) / 0x400, 0xDC00 + (c.toNat - 0x10000) % 0x400]

/-- The code units of a text. -/
def codeUnits (cs : List Char) : List Nat := cs.flatMap charUnits

theorem not_isSurrogate (c : Char) : ¬ IsSurrogate c.toNat := by
  have hvalid : c.toNat < 0xD800 ∨ 0xDFFF < c.toNat ∧ c.toNat < 0x110000 := c.valid
  unfold IsSurrogate
  omega

theorem codeUnits_cons (c : Char) (cs : List Char) :
    codeUnits (c :: cs) = charUnits c ++ codeUnits cs := by
  simp only [codeUnits, List.flatMap_cons]

theorem charUnits_of_basic {c : Char} (h : c.toNat ≤ 0xFFFF) : charUnits c = [c.toNat] := if_pos h

theorem length_charUnits_of_not_basic {c : Char} (h : ¬ c.toNat ≤ 0xFFFF) :
    (charUnits c).length = 2 := by
  rw [charUnits, if_neg h]
  rfl

/-- No text has fewer code units than characters. -/
theorem length_le_length_codeUnits : ∀ cs : List Char, cs.length ≤ (codeUnits cs).length
  | [] => Nat.le_refl 0
  | c :: cs => by
      have hrest := length_le_length_codeUnits cs
      rw [codeUnits_cons, List.length_append, List.length_cons]
      by_cases hc : c.toNat ≤ 0xFFFF
      · rw [charUnits_of_basic hc, List.length_singleton]
        omega
      · rw [length_charUnits_of_not_basic hc]
        omega

/-- A text in the basic plane is its code units. -/
theorem codeUnits_of_basic : ∀ {cs : List Char}, Basic cs → codeUnits cs = cs.map Char.toNat
  | [], _ => rfl
  | c :: cs, h => by
      rw [codeUnits_cons, charUnits_of_basic (h c List.mem_cons_self),
        codeUnits_of_basic (h.subset (List.subset_cons_self _ _)), List.map_cons,
        List.singleton_append]

/-- **Only texts in the basic plane have as many code units as characters.** -/
theorem length_codeUnits_eq_iff {cs : List Char} :
    (codeUnits cs).length = cs.length ↔ Basic cs := by
  refine ⟨fun h => ?_, fun h => by rw [codeUnits_of_basic h, List.length_map]⟩
  induction cs with
  | nil => exact Basic.nil
  | cons c cs ih =>
      have hrest := length_le_length_codeUnits cs
      rw [codeUnits_cons, List.length_append, List.length_cons] at h
      by_cases hc : c.toNat ≤ 0xFFFF
      · rw [charUnits_of_basic hc, List.length_singleton] at h
        exact Basic.cons hc (ih (by omega))
      · -- the two units of this character are not made up for by the others
        rw [length_charUnits_of_not_basic hc] at h
        omega

end Text

/-! ## Characters from codes -/

theorem toNat_ofNat_of_not_isSurrogate {n : Nat} (hn : n ≤ 0xFFFF) (h : ¬ Text.IsSurrogate n) :
    (Char.ofNat n).toNat = n := by
  have hvalid : n.isValidChar := by
    unfold Text.IsSurrogate at h
    unfold Nat.isValidChar
    omega
  rw [Char.ofNat, dif_pos hvalid]
  rfl

/-- **The characters made from codes have just these codes**, taken modulo `2^16`: none is replaced,
and where a code is that of a surrogate there is no text. -/
theorem Builtin.charsOfCodes_eq_ok {codes : List Nat} {cs : List Char} :
    charsOfCodes codes = .ok cs ↔ cs.map Char.toNat = codes.map (· % 0x10000) := by
  have hbound : ∀ u ∈ codes.map (· % 0x10000), u ≤ 0xFFFF := by
    intro u hu
    obtain ⟨code, -, rfl⟩ := List.mem_map.mp hu
    omega
  simp only [charsOfCodes]
  split
  · rename_i hany
    obtain ⟨u, hu, hsurrogate⟩ := List.any_eq_true.mp hany
    simp only [reduceCtorEq, false_iff]
    intro he
    rw [← he] at hu
    obtain ⟨c, -, rfl⟩ := List.mem_map.mp hu
    exact Text.not_isSurrogate c (by simpa [Text.IsSurrogate] using hsurrogate)
  · rename_i hnone
    generalize codes.map (· % 0x10000) = units at *
    have hvalid : ∀ u ∈ units, (Char.ofNat u).toNat = u := by
      intro u hu
      refine toNat_ofNat_of_not_isSurrogate (hbound u hu) fun hsurrogate => hnone ?_
      exact List.any_eq_true.mpr ⟨u, hu, by simpa [Text.IsSurrogate] using hsurrogate⟩
    constructor
    · rintro ⟨⟩
      rw [List.map_map]
      exact (List.map_congr_left hvalid).trans (List.map_id units)
    · intro he
      rw [← he, List.map_map]
      exact congrArg Except.ok
        ((List.map_congr_left fun c _ => Char.ofNat_toNat c).trans (List.map_id cs))

/-- **Only where one of the codes is a surrogate there is no text.** -/
theorem Builtin.charsOfCodes_eq_error {codes : List Nat} {f : Fault} :
    charsOfCodes codes = .error f ↔
      f = .surrogate ∧ ∃ code ∈ codes, Text.IsSurrogate (code % 0x10000) := by
  have hany : (codes.map (· % 0x10000)).any (fun u => 0xD800 ≤ u && u ≤ 0xDFFF) = true ↔
      ∃ code ∈ codes, Text.IsSurrogate (code % 0x10000) := by
    simp only [List.any_map, List.any_eq_true, Function.comp_apply, Bool.and_eq_true,
      decide_eq_true_eq, Text.IsSurrogate]
  rw [← hany, charsOfCodes]
  split
  · rename_i h
    rw [Except.error.injEq, eq_comm, and_iff_left h]
  · rename_i h
    refine iff_of_false (fun hok => ?_) fun he => h he.2
    cases hok

/-! ## Lengths and indexes -/

theorem Value.indexOf_number {n : Number} {d : Double} (h : n.toDouble = .ok d) :
    (number n).indexOf = .ok (d, n.truncate?.getD 0) := by
  rw [indexOf, toNumber]
  show (do return (← n.toDouble, n.truncate?.getD 0) : Except Fault (Double × Int)) = _
  rw [h]
  rfl

theorem Value.charAt?_ofInt (cs : List Char) {i : Nat} (hi : Number.isSafe i = true) :
    charAt? cs (ofInt i) = .ok cs[i]? := by
  obtain ⟨rank, hrank, -⟩ := Double.exists_ofInt hi
  have hindex := indexOf_number ((Number.toDouble_int hi).trans (congrArg Except.ok hrank))
  rw [ofInt, charAt?]
  · rw [hindex]
    show (Except.ok (if (i : Int) < 0 then none else cs[(i : Int).toNat]?) : Except Fault _) = _
    rw [if_neg (by omega), Int.toNat_natCast]
  · simp

/-- **The length of a text is the number of its code units.** -/
theorem Value.member_length {s : String} (h : Text.Basic s.toList) :
    (text s).member (.text "length") = .ok (ofInt (Text.codeUnits s.toList).length) := by
  rw [Text.length_codeUnits_eq_iff.mpr h]
  rfl

/-- **The code of the character at an index is the code unit there.** -/
theorem Value.callMethod_charCodeAt {s : String} (h : Text.Basic s.toList) {i : Nat}
    (hi : Number.isSafe i = true) :
    (text s).callMethod "charCodeAt" [.ofInt i] =
      .ok (((Text.codeUnits s.toList)[i]?.map fun u => ofInt u).getD nan) := by
  change (charAt? s.toList (.ofInt i) >>= _) = _
  rw [charAt?_ofInt _ hi, Text.codeUnits_of_basic h, List.getElem?_map]
  cases s.toList[i]? with
  | none => rfl
  | some c => rfl

/-! ## Known texts -/

/-- The text that an evaluation finds. -/
def knownText? : Except Fault Outcome → Option String
  | .ok (.known (.text s)) => some s
  | _ => none

theorem eq_of_knownText? {o : Except Fault Outcome} {s : String} (h : knownText? o = some s) :
    o = .ok (.known (.text s)) := by
  unfold knownText? at h
  split at h
  · cases h
    rfl
  · cases h

/-- At a place stands a call of `String.fromCharCode`, and the codes of its arguments are known. -/
inductive MakesText (ctx : Context) (p : Position) (codes : List Nat) : Prop where
  | intro {computed : Bool} {owner property : Node} {arguments : List (Option Node)}
      {values : List Value}
      (get : ctx.tree.get? p = some (.mk .call
        [.one (some (.mk (.member computed) [.one (some owner), .one (some property)])),
          .many arguments]))
      (callee : globalMember? ctx.surroundings (p ++ [first, first]) owner
        (accessedName? computed property) = some .fromCharCode)
      (evaluated : ctx.isDecoderCall p = false)
      (known : itemValues ctx.surroundings p 1 0 arguments = .ok values)
      (codes_eq : values.mapM Value.toUint32 = .ok codes) : MakesText ctx p codes

theorem Builtin.apply_fromCharCode {values : List Value} {codes : List Nat}
    (h : values.mapM Value.toUint32 = .ok codes) :
    fromCharCode.apply values = (charsOfCodes codes).map fun cs => .text (String.ofList cs) := by
  show (values.mapM Value.toUint32 >>= fun codes => (charsOfCodes codes) >>= fun cs =>
    pure (Value.text (String.ofList cs)) : Except Fault Value) = _
  rw [h]
  show (charsOfCodes codes >>= fun cs => pure (Value.text (String.ofList cs))) = _
  cases charsOfCodes codes <;> rfl

/-- **A call makes the text with just the codes of its arguments**, taken modulo `2^16`; if one of them
is a surrogate, then the call has no value. -/
theorem MakesText.evaluate_eq {ctx : Context} {p : Position} {codes : List Nat}
    (h : MakesText ctx p codes) :
    ((∃ code ∈ codes, Text.IsSurrogate (code % 0x10000)) → ctx.evaluate p = .ok .unknown) ∧
      ((∀ code ∈ codes, ¬ Text.IsSurrogate (code % 0x10000)) → ∃ s : String,
        ctx.evaluate p = .ok (.known (.text s)) ∧
          Text.codeUnits s.toList = codes.map (· % 0x10000)) := by
  obtain ⟨hget, hcallee, hevaluated, hknown, hcodes⟩ := h
  have hdecoder : ctx.surroundings.isDecoderCall p = false := hevaluated
  have happly := Builtin.apply_fromCharCode hcodes
  constructor
  · intro hsurrogate
    rw [Builtin.charsOfCodes_eq_error.mpr ⟨rfl, hsurrogate⟩] at happly
    rw [Context.evaluate, hget]
    simp only [valueOf, hdecoder, Bool.false_eq_true, if_false, hcallee, hknown, bind, Except.bind,
      happly]
    rfl
  · intro hnone
    cases hmade : Builtin.charsOfCodes codes with
    | error f =>
        obtain ⟨-, code, hcode, hsurrogate⟩ := Builtin.charsOfCodes_eq_error.mp hmade
        exact absurd hsurrogate (hnone code hcode)
    | ok cs =>
        rw [hmade] at happly
        have hvalue := Computes.valueOf_eq (.callMember hdecoder hcallee hknown happly)
        refine ⟨String.ofList cs, evaluate_eq_known_iff.mpr ⟨_, hget, hvalue, rfl⟩, ?_⟩
        have hbasic : Text.Basic cs := Builtin.charsOfCodes_basic codes cs hmade
        rw [String.toList_ofList, Text.codeUnits_of_basic hbasic]
        exact Builtin.charsOfCodes_eq_ok.mp hmade

/-- **A known text is counted and indexed alike by characters and by code units**: all of it is in the
basic plane, whatever the tree and whichever calls are left alone.  Its length and the codes at its
indexes are those of its code units, and a text that a call makes from codes has these codes as its
code units; from a surrogate no text is made. -/
theorem known_text_units (ctx : Context) :
    (∀ p s, ctx.evaluate p = .ok (.known (.text s)) →
      (∀ c ∈ s.toList, c.toNat ≤ 0xFFFF ∧ ¬ Text.IsSurrogate c.toNat) ∧
        (Text.codeUnits s.toList).length = s.length ∧
        (∀ i : Nat, (Text.codeUnits s.toList)[i]? = s.toList[i]?.map Char.toNat) ∧
        (Value.text s).member (.text "length") = .ok (.ofInt (Text.codeUnits s.toList).length) ∧
        ∀ i : Nat, Number.isSafe i = true → (Value.text s).callMethod "charCodeAt" [.ofInt i] =
          .ok (((Text.codeUnits s.toList)[i]?.map fun u => Value.ofInt u).getD .nan)) ∧
      ∀ p codes, MakesText ctx p codes →
        ((∃ code ∈ codes, Text.IsSurrogate (code % 0x10000)) → ctx.evaluate p = .ok .unknown) ∧
          ((∀ code ∈ codes, ¬ Text.IsSurrogate (code % 0x10000)) → ∃ s : String,
            ctx.evaluate p = .ok (.known (.text s)) ∧
              Text.codeUnits s.toList = codes.map (· % 0x10000)) := by
  refine ⟨fun p s h => ?_, fun p codes => MakesText.evaluate_eq⟩
  obtain ⟨n, -, hv, -⟩ := evaluate_eq_known_iff.mp h
  have hbasic : Text.Basic s.toList := Value.basic_text.mp (evaluate_basic hv)
  refine ⟨fun c hc => ⟨hbasic c hc, Text.not_isSurrogate c⟩, ?_, fun i => ?_,
    Value.member_length hbasic, fun i => Value.callMethod_charCodeAt hbasic⟩
  · rw [Text.length_codeUnits_eq_iff.mpr hbasic, String.length_toList]
  · rw [Text.codeUnits_of_basic hbasic, List.getElem?_map]

/-- `var k = 8364; ("ß" + String.fromCharCode(k)).toUpperCase();` -/
def mappedText : Node :=
  .programOf "script" [
    .varOf "k" (.ofInt 8364),
    .statementOf (.callOf (.memberOf false
      (.binary2 (.binary "+") (.ofText "ß")
        (.callOf (.memberOf false (.ident "String") (.ident "fromCharCode")) [some (.ident "k")]))
      (.ident "toUpperCase")) [])]

/-- The text is `SS€`, three code units, the last of which is made from its code. -/
theorem known_text_units_mappedText :
    let ctx := Context.ofTree mappedText (analyze mappedText) none
    ctx.evaluate [⟨0, some 1⟩, first] = .ok (.known (.text "SS€")) ∧
      (Text.codeUnits "SS€".toList).length = "SS€".length ∧
      MakesText ctx [⟨0, some 1⟩, first, first, first, second] [8364] ∧
      ∃ s : String, ctx.evaluate [⟨0, some 1⟩, first, first, first, second] =
        .ok (.known (.text s)) ∧ Text.codeUnits s.toList = [8364] := by
  intro ctx
  have h : ctx.evaluate [⟨0, some 1⟩, first] = .ok (.known (.text "SS€")) :=
    eq_of_knownText? (by decide +kernel)
  have hmakes : MakesText ctx [⟨0, some 1⟩, first, first, first, second] [8364] := by
    have hcodes : (itemValues ctx.surroundings [⟨0, some 1⟩, first, first, first, second] 1 0
        [some (.ident "k")]).toOption.bind (fun values => (values.mapM Value.toUint32).toOption) =
          some [8364] := by decide +kernel
    obtain ⟨values, hvalues, hcodes⟩ := Option.bind_eq_some_iff.mp hcodes
    exact .intro rfl (by decide +kernel) rfl (eq_ok_of_toOption hvalues) (eq_ok_of_toOption hcodes)
  exact ⟨h, ((known_text_units ctx).1 _ _ h).2.1, hmakes,
    ((known_text_units ctx).2 _ _ hmakes).2 (by simp [Text.IsSurrogate])⟩

end Descramble

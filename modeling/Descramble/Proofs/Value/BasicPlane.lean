import Descramble.Evaluation

/-!
# Known texts stay in the basic plane

A text with a character beyond the basic plane has no static value, and no operation makes one out
of texts that have none: a value that static evaluation finds can be written as a literal and read
again.

* `Text.Basic`, `Value.Basic` — no character is beyond the basic plane.
* `Value.toText_basic`, `BinaryOp.apply_basic`, `Builtin.apply_basic`, `Value.callMethod_basic`,
  `Value.member_basic` — what the operations keep.
* `valueOf_basic` — the values of expressions.
-/

set_option autoImplicit false

namespace Descramble

/-- All results of a computation have a property. -/
def Ensures {α : Type} (P : α → Prop) (r : Except Fault α) : Prop := ∀ a, r = .ok a → P a

namespace Ensures

variable {α β : Type} {P : α → Prop} {Q : β → Prop}

theorem ok {a : α} (h : P a) : Ensures P (.ok a) := by
  rintro _ ⟨⟩
  exact h

theorem error (f : Fault) : Ensures P (.error f) := by
  rintro _ ⟨⟩

theorem bind {r : Except Fault α} {k : α → Except Fault β} (h : Ensures P r)
    (hk : ∀ a, P a → Ensures Q (k a)) : Ensures Q (r >>= k) := by
  cases r with
  | error f => exact error f
  | ok a => exact hk a (h a rfl)

/-- A property of the results that does not depend on the first step. -/
theorem andThen {r : Except Fault α} {k : α → Except Fault β} (hk : ∀ a, Ensures Q (k a)) :
    Ensures Q (r >>= k) := by
  cases r with
  | error f => exact error f
  | ok a => exact hk a

theorem mapM {f : β → Except Fault α} : ∀ {items : List β}, (∀ b ∈ items, Ensures P (f b)) →
    Ensures (fun results : List α => ∀ a ∈ results, P a) (items.mapM f)
  | [], _ => by
      intro results h
      cases h
      simp
  | b :: rest, h => by
      rw [List.mapM_cons]
      refine bind (h b List.mem_cons_self) fun a ha => ?_
      refine bind (mapM fun b' hb' => h b' (List.mem_cons_of_mem _ hb')) fun results hresults => ?_
      refine ok fun a' ha' => ?_
      rcases List.mem_cons.mp ha' with rfl | ha'
      · exact ha
      · exact hresults a' ha'

end Ensures

/-! ## Texts -/

namespace Text

/-- No character is beyond the basic plane. -/
def Basic (cs : List Char) : Prop := ∀ c ∈ cs, c.toNat ≤ 0xFFFF

namespace Basic

theorem nil : Basic [] := by
  intro c hc
  cases hc

theorem cons {c : Char} {cs : List Char} (hc : c.toNat ≤ 0xFFFF) (hcs : Basic cs) :
    Basic (c :: cs) := by
  intro d hd
  rcases List.mem_cons.mp hd with rfl | hd
  · exact hc
  · exact hcs d hd

theorem append {cs ds : List Char} (hcs : Basic cs) (hds : Basic ds) : Basic (cs ++ ds) := by
  intro c hc
  rcases List.mem_append.mp hc with hc | hc
  · exact hcs c hc
  · exact hds c hc

theorem subset {cs ds : List Char} (hds : Basic ds) (h : cs ⊆ ds) : Basic cs :=
  fun c hc => hds c (h hc)

theorem replicate {c : Char} (hc : c.toNat ≤ 0xFFFF) (n : Nat) : Basic (List.replicate n c) := by
  intro d hd
  rw [(List.mem_replicate.mp hd).2]
  exact hc

theorem of_all {cs : List Char} (h : cs.all (fun c => decide (c.toNat ≤ 0xFFFF)) = true) :
    Basic cs := by
  intro c hc
  exact of_decide_eq_true (List.all_eq_true.mp h c hc)

end Basic

theorem joinWith_basic {separator : List Char} (hsep : Basic separator) :
    ∀ {pieces : List (List Char)}, (∀ p ∈ pieces, Basic p) → Basic (joinWith separator pieces)
  | [], _ => Basic.nil
  | [piece], h => h piece List.mem_cons_self
  | piece :: next :: rest, h => by
      rw [joinWith]
      · exact ((h piece List.mem_cons_self).append hsep).append
          (joinWith_basic hsep fun p hp => h p (List.mem_cons_of_mem _ hp))
      · simp

/-- The scan keeps to the characters that it has read. -/
theorem splitScan_basic {separator : List Char} : ∀ {skip : Nat} {piece cs : List Char},
    Basic piece → Basic cs → ∀ p ∈ splitScan separator skip piece cs, Basic p := by
  intro skip piece cs hpiece hcs
  fun_induction splitScan separator skip piece cs with
  | case1 skip piece =>
      intro p hp
      rw [List.mem_singleton.mp hp]
      exact hpiece.subset fun c hc => List.mem_reverse.mp hc
  | case2 piece skip c rest ih =>
      exact ih hpiece (hcs.subset (List.subset_cons_self _ _))
  | case3 piece c rest hstart ih =>
      intro p hp
      rcases List.mem_cons.mp hp with rfl | hp
      · exact hpiece.subset fun c hc => List.mem_reverse.mp hc
      · exact ih Basic.nil (hcs.subset (List.subset_cons_self _ _)) p hp
  | case4 piece c rest hstart ih =>
      exact ih (Basic.cons (hcs c List.mem_cons_self) hpiece)
        (hcs.subset (List.subset_cons_self _ _))

theorem trim_basic {drop : Char → Bool} {cs : List Char} (h : Basic cs) : Basic (trim drop cs) := by
  refine h.subset fun c hc => ?_
  have hmem := List.mem_reverse.mp hc
  have hmem := (List.dropWhile_sublist drop).subset hmem
  exact (List.dropWhile_sublist drop).subset (List.mem_reverse.mp hmem)

end Text

/-! ## Case mapping -/

namespace Unicode

theorem toNat_ofNat_le (n : Nat) : (Char.ofNat n).toNat ≤ n := by
  by_cases hvalid : n.isValidChar
  · rw [Char.ofNat, dif_pos hvalid]
    exact Nat.le_refl n
  · rw [Char.ofNat, dif_neg hvalid]
    exact Nat.zero_le n

/-- A run that starts in the basic plane ends there, with its images. -/
def CaseRun.staysBasic (run : CaseRun) : Bool :=
  decide (0xFFFF < run.first) || decide (run.image + (run.last - run.first) ≤ 0xFFFF)

theorem upperRuns_stayBasic : upperRuns.all CaseRun.staysBasic = true := by decide +kernel

theorem lowerRuns_stayBasic : lowerRuns.all CaseRun.staysBasic = true := by decide +kernel

theorem upperExpansions_basic :
    upperExpansions.all (fun e => e.2.all fun code => decide (code ≤ 0xFFFF)) = true := by
  decide +kernel

theorem mapThrough_le {runs : List CaseRun} (hruns : runs.all CaseRun.staysBasic = true) {code : Nat}
    (hcode : code ≤ 0xFFFF) : mapThrough runs code ≤ 0xFFFF := by
  unfold mapThrough
  cases himage : runs.findSome? (CaseRun.image? code) with
  | none => exact hcode
  | some image =>
      obtain ⟨run, hrun, hrun'⟩ := List.exists_of_findSome?_eq_some himage
      have hstays := List.all_eq_true.mp hruns run hrun
      simp only [CaseRun.staysBasic, Bool.or_eq_true, decide_eq_true_eq] at hstays
      unfold CaseRun.image? at hrun'
      split at hrun'
      · cases hrun'
        rw [Option.getD_some]
        omega
      · cases hrun'

theorem upperChar_basic {c : Char} (hc : c.toNat ≤ 0xFFFF) : Text.Basic (upperChar c) := by
  unfold upperChar
  split
  · rename_i codes hcodes
    intro d hd
    obtain ⟨code, hcode, rfl⟩ := List.mem_map.mp hd
    obtain ⟨l, r, hsplit, -⟩ := List.lookup_eq_some_iff.mp hcodes
    have hall := List.all_eq_true.mp upperExpansions_basic (c.toNat, codes)
      (by rw [hsplit]; simp)
    have := of_decide_eq_true (List.all_eq_true.mp hall code hcode)
    exact Nat.le_trans (toNat_ofNat_le code) this
  · refine Text.Basic.cons ?_ Text.Basic.nil
    exact Nat.le_trans (toNat_ofNat_le _) (mapThrough_le upperRuns_stayBasic hc)

theorem lowerChar_basic {c : Char} (hc : c.toNat ≤ 0xFFFF) : Text.Basic (lowerChar c) := by
  unfold lowerChar
  split
  · exact Text.Basic.cons (by decide) (Text.Basic.cons (by decide) Text.Basic.nil)
  · refine Text.Basic.cons ?_ Text.Basic.nil
    exact Nat.le_trans (toNat_ofNat_le _) (mapThrough_le lowerRuns_stayBasic hc)

theorem upper_basic {cs : List Char} (h : Text.Basic cs) : Text.Basic (upper cs) := by
  intro d hd
  obtain ⟨c, hc, hd⟩ := List.mem_flatMap.mp hd
  exact upperChar_basic (h c hc) d hd

theorem lowerFrom_basic : ∀ (before : List Char) {cs : List Char}, Text.Basic cs →
    Text.Basic (lowerFrom before cs)
  | _, [], _ => Text.Basic.nil
  | before, c :: rest, h => by
      rw [lowerFrom]
      refine Text.Basic.append ?_ (lowerFrom_basic _ (h.subset (List.subset_cons_self _ _)))
      split
      · refine Text.Basic.cons (Nat.le_trans (toNat_ofNat_le _) ?_) Text.Basic.nil
        split <;> decide
      · exact lowerChar_basic (h c List.mem_cons_self)

end Unicode

/-! ## Numbers -/

theorem digitsOf_basic (n : Nat) : Text.Basic (digitsOf n) := by
  intro c hc
  have hdigit := Nat.isDigit_of_mem_toDigits (by decide) (by decide) hc
  simp only [Char.isDigit, ge_iff_le, Bool.and_eq_true, decide_eq_true_eq] at hdigit
  have : c.toNat ≤ 57 := UInt32.le_iff_toNat_le.mp hdigit.2
  omega

theorem intText_basic (n : Int) : Text.Basic (intText n).toList := by
  unfold intText
  split <;> rw [String.toList_ofList]
  · exact Text.Basic.cons (by decide) (digitsOf_basic _)
  · exact digitsOf_basic _

namespace Decimal

theorem positional_basic (keepPoint : Bool) (d : Decimal) : Text.Basic (d.positional keepPoint) := by
  have hdigits := digitsOf_basic d.digits
  have hzero : ('0' : Char).toNat ≤ 0xFFFF := by decide
  have hpoint : ('.' : Char).toNat ≤ 0xFFFF := by decide
  simp only [positional]
  split
  · exact Text.Basic.cons hzero
      (Text.Basic.cons hpoint ((Text.Basic.replicate hzero _).append hdigits))
  · split
    · refine (hdigits.append (Text.Basic.replicate hzero _)).append ?_
      split
      · exact Text.Basic.cons hpoint (Text.Basic.cons hzero Text.Basic.nil)
      · exact Text.Basic.nil
    · exact (hdigits.subset (List.take_subset _ _)).append
        (Text.Basic.cons hpoint (hdigits.subset (List.drop_subset _ _)))

theorem scientific_basic (exponentDigits : Nat) (d : Decimal) :
    Text.Basic (d.scientific exponentDigits) := by
  have hdigits := digitsOf_basic d.digits
  unfold scientific
  refine Text.Basic.append ?_ (Text.Basic.cons (by decide) (Text.Basic.cons ?_ ?_))
  · split
    · exact Text.Basic.nil
    · rename_i c hc
      rw [hc] at hdigits
      exact hdigits
    · rename_i c rest _ hc
      rw [hc] at hdigits
      exact Text.Basic.cons (hdigits c List.mem_cons_self)
        (Text.Basic.cons (by decide) (hdigits.subset (List.subset_cons_self _ _)))
  · split <;> decide
  · exact (Text.Basic.replicate (by decide) _).append (digitsOf_basic _)

theorem layout_basic (style : DecimalStyle) (d : Decimal) : Text.Basic (d.layout style) := by
  simp only [layout]
  split
  · exact positional_basic _ d
  · exact scientific_basic _ d

end Decimal

namespace Number

theorem doubleText_basic (d : Double) : Text.Basic (doubleText d).toList := by
  cases d with
  | nan => exact Text.Basic.of_all (by decide)
  | infinite negative => cases negative <;> exact Text.Basic.of_all (by decide)
  | finite negative rank =>
      rw [doubleText]
      split
      · exact intText_basic _
      · split
        · exact Text.Basic.of_all (by decide)
        · have hlong : Text.Basic (longText rank) := by
            simp only [longText]
            split <;> exact Decimal.layout_basic _ _
          rw [String.toList_ofList]
          split
          · exact Text.Basic.cons (by decide) hlong
          · exact hlong

theorem text_basic (n : Number) : Ensures (fun s => Text.Basic s.toList) n.text := by
  cases n with
  | float d => exact Ensures.ok (doubleText_basic d)
  | int i =>
      rw [text]
      split
      · exact Ensures.ok (intText_basic i)
      · exact Ensures.andThen fun d => Ensures.ok (doubleText_basic d)

end Number

/-! ## Values -/

namespace Value

mutual

/-- No text in the value has a character beyond the basic plane. -/
def Basic : Value → Prop
  | .text s => Text.Basic s.toList
  | .array items => BasicItems items
  | _ => True

def BasicItems : List Value → Prop
  | [] => True
  | v :: rest => Basic v ∧ BasicItems rest

end

theorem basicItems_cons {v : Value} {rest : List Value} :
    BasicItems (v :: rest) ↔ v.Basic ∧ BasicItems rest := Iff.rfl

theorem basicItems_iff : ∀ {items : List Value}, BasicItems items ↔ ∀ v ∈ items, Basic v
  | [] => iff_of_true trivial (by simp)
  | v :: rest => by rw [basicItems_cons, basicItems_iff, List.forall_mem_cons]

@[simp] theorem basic_text {s : String} : (text s).Basic ↔ Text.Basic s.toList := Iff.rfl

@[simp] theorem basic_array {items : List Value} : (array items).Basic ↔ ∀ v ∈ items, v.Basic :=
  basicItems_iff

theorem basic_number (n : Number) : (number n).Basic := trivial

theorem basic_bool (b : Bool) : (bool b).Basic := trivial

theorem basic_undefined : undefined.Basic := trivial

theorem basic_null : null.Basic := trivial

theorem basic_ofList {cs : List Char} (h : Text.Basic cs) : (text (String.ofList cs)).Basic := by
  rw [basic_text, String.toList_ofList]
  exact h

mutual

/-- **The text of a value has no new characters**, its digits and separators apart. -/
theorem toText_basic : ∀ {v : Value}, v.Basic → Ensures (fun s => Text.Basic s.toList) v.toText
  | .undefined, _ => Ensures.ok (Text.Basic.of_all (by decide))
  | .null, _ => Ensures.ok (Text.Basic.of_all (by decide))
  | .bool b, _ => Ensures.ok (by cases b <;> exact Text.Basic.of_all (by decide))
  | .number n, _ => n.text_basic
  | .text s, h => Ensures.ok (basic_text.mp h)
  | .array items, h => by
      refine Ensures.bind (itemTexts_basic h) fun parts hparts => Ensures.ok ?_
      rw [String.toList_ofList]
      exact Text.joinWith_basic (Text.Basic.cons (by decide) Text.Basic.nil) hparts
  | .foreign, _ => Ensures.error _

theorem itemTexts_basic : ∀ {items : List Value}, BasicItems items →
    Ensures (fun parts => ∀ p ∈ parts, Text.Basic p) (itemTexts items)
  | [], _ => Ensures.ok (by simp)
  | v :: rest, h => by
      have hrest := itemTexts_basic h.2
      have hcons : ∀ {cs : List Char} {parts : List (List Char)}, Text.Basic cs →
          (∀ p ∈ parts, Text.Basic p) → ∀ p ∈ cs :: parts, Text.Basic p := by
        intro cs parts hcs hparts p hp
        rcases List.mem_cons.mp hp with rfl | hp
        · exact hcs
        · exact hparts p hp
      cases v with
      | undefined => exact Ensures.bind hrest fun _ hparts => Ensures.ok (hcons Text.Basic.nil hparts)
      | null => exact Ensures.bind hrest fun _ hparts => Ensures.ok (hcons Text.Basic.nil hparts)
      | _ =>
          refine Ensures.bind (toText_basic h.1) fun s hs => ?_
          exact Ensures.bind hrest fun _ hparts => Ensures.ok (hcons hs hparts)

end

theorem checkedText_basic {cs : List Char} (h : Text.Basic cs) : Ensures Basic (checkedText cs) := by
  unfold checkedText
  split
  · exact Ensures.error _
  · exact Ensures.ok (basic_ofList h)

theorem arithmetic_basic (op : Double → Double → Double) (left right : Value) :
    Ensures Basic (arithmetic op left right) :=
  Ensures.andThen fun _ => Ensures.andThen fun _ => Ensures.ok (basic_number _)

theorem flattened_basic {v : Value} (h : v.Basic) : Ensures Basic v.flattened := by
  cases v with
  | array items => exact Ensures.bind (toText_basic h) fun s hs => Ensures.ok (basic_text.mpr hs)
  | _ => exact Ensures.ok h

theorem add_basic {left right : Value} (hl : left.Basic) (hr : right.Basic) :
    Ensures Basic (left.add right) := by
  refine Ensures.bind (flattened_basic hl) fun l hl => ?_
  refine Ensures.bind (flattened_basic hr) fun r hr => ?_
  split
  · refine Ensures.bind (toText_basic hl) fun a ha => ?_
    exact Ensures.bind (toText_basic hr) fun b hb => checkedText_basic (ha.append hb)
  · exact arithmetic_basic _ _ _

theorem bitwise_basic (op : Int → Int → Int) (left right : Value) :
    Ensures Basic (bitwise op left right) :=
  Ensures.andThen fun _ => Ensures.andThen fun _ => Ensures.ok (basic_number _)

theorem power_basic (left right : Value) : Ensures Basic (left.power right) := by
  refine Ensures.andThen fun base => Ensures.andThen fun exponent => ?_
  split
  · exact Ensures.error _
  · split <;> exact Ensures.ok (basic_number _)

end Value

/-- **The operators keep to the basic plane.** -/
theorem BinaryOp.apply_basic (op : BinaryOp) {left right : Value} (hl : left.Basic)
    (hr : right.Basic) : Ensures Value.Basic (op.apply left right) := by
  cases op with
  | add => exact Value.add_basic hl hr
  | sub => exact Value.arithmetic_basic _ _ _
  | mul => exact Value.arithmetic_basic _ _ _
  | div => exact Value.arithmetic_basic _ _ _
  | mod => exact Value.arithmetic_basic _ _ _
  | power => exact Value.power_basic _ _
  | bitAnd => exact Value.bitwise_basic _ _ _
  | bitOr => exact Value.bitwise_basic _ _ _
  | bitXor => exact Value.bitwise_basic _ _ _
  | shiftLeft =>
      exact Ensures.andThen fun _ => Ensures.andThen fun _ => Ensures.ok (Value.basic_number _)
  | shiftRight =>
      exact Ensures.andThen fun _ => Ensures.andThen fun _ => Ensures.ok (Value.basic_number _)
  | shiftRightUnsigned =>
      exact Ensures.andThen fun _ => Ensures.andThen fun _ => Ensures.ok (Value.basic_number _)
  | strictEq => exact Ensures.andThen fun _ => Ensures.ok (Value.basic_bool _)
  | strictNe => exact Ensures.andThen fun _ => Ensures.ok (Value.basic_bool _)
  | looseEq => exact Ensures.andThen fun _ => Ensures.ok (Value.basic_bool _)
  | looseNe => exact Ensures.andThen fun _ => Ensures.ok (Value.basic_bool _)
  | relation r => exact Ensures.andThen fun _ => Ensures.ok (Value.basic_bool _)

theorem Value.typeName_basic (v : Value) :
    Ensures (fun s => Text.Basic s.toList) v.typeName := by
  cases v with
  | foreign => exact Ensures.error _
  | _ => exact Ensures.ok (Text.Basic.of_all (by decide))

theorem UnaryOp.apply_basic (op : UnaryOp) (v : Value) : Ensures Value.Basic (op.apply v) := by
  cases op with
  | neg => exact Ensures.andThen fun _ => Ensures.ok (Value.basic_number _)
  | pos => exact Ensures.andThen fun _ => Ensures.ok (Value.basic_number _)
  | not => exact Ensures.andThen fun _ => Ensures.ok (Value.basic_bool _)
  | bitNot => exact Ensures.andThen fun _ => Ensures.ok (Value.basic_number _)
  | typeOf => exact Ensures.bind v.typeName_basic fun s hs => Ensures.ok (Value.basic_text.mpr hs)
  | void => exact Ensures.ok Value.basic_undefined

/-! ## Functions, methods and members -/

theorem Value.basic_getD {args : List Value} (h : ∀ v ∈ args, v.Basic) (i : Nat) :
    (args.getD i .undefined).Basic := by
  rw [List.getD_eq_getElem?_getD]
  cases harg : args[i]? with
  | none => exact Value.basic_undefined
  | some v => exact h v (List.mem_of_getElem? harg)

theorem Builtin.charsOfCodes_basic (codes : List Nat) :
    Ensures Text.Basic (charsOfCodes codes) := by
  simp only [charsOfCodes]
  split
  · exact Ensures.error _
  · refine Ensures.ok fun c hc => ?_
    obtain ⟨unit, hunit, rfl⟩ := List.mem_map.mp hc
    obtain ⟨code, -, rfl⟩ := List.mem_map.mp hunit
    have := Unicode.toNat_ofNat_le (code % 0x10000)
    omega

/-- **The global functions keep to the basic plane.** -/
theorem Builtin.apply_basic (f : Builtin) {args : List Value} (hargs : ∀ v ∈ args, v.Basic) :
    Ensures Value.Basic (f.apply args) := by
  cases f with
  | parseInt =>
      refine Ensures.andThen fun s => ?_
      split
      · exact Ensures.ok (Value.basic_number _)
      · exact Ensures.andThen fun _ => Ensures.ok (Value.basic_number _)
  | parseFloat => exact Ensures.andThen fun _ => Ensures.ok (Value.basic_number _)
  | number =>
      cases args with
      | nil => exact Ensures.ok (Value.basic_number _)
      | cons v args => exact Ensures.andThen fun _ => Ensures.ok (Value.basic_number _)
  | string =>
      cases args with
      | nil => exact Ensures.ok (Value.basic_text.mpr Text.Basic.nil)
      | cons v args =>
          exact Ensures.bind (Value.toText_basic (hargs v List.mem_cons_self)) fun s hs =>
            Ensures.ok (Value.basic_text.mpr hs)
  | boolean =>
      cases args with
      | nil => exact Ensures.ok (Value.basic_bool _)
      | cons v args => exact Ensures.andThen fun _ => Ensures.ok (Value.basic_bool _)
  | isNaN => exact Ensures.andThen fun _ => Ensures.ok (Value.basic_bool _)
  | isFinite => exact Ensures.andThen fun _ => Ensures.ok (Value.basic_bool _)
  | math f =>
      cases f with
      | pow => exact Value.power_basic _ _
      | _ => exact Ensures.andThen fun _ => Ensures.andThen fun _ => Ensures.ok (Value.basic_number _)
  | fromCharCode =>
      refine Ensures.andThen fun codes => ?_
      exact Ensures.bind (charsOfCodes_basic codes) fun cs hcs => Ensures.ok (Value.basic_ofList hcs)

namespace Value

theorem between_subset {α : Type} (start stop : Nat) (xs : List α) : between start stop xs ⊆ xs :=
  List.Subset.trans (List.drop_subset _ _) (List.take_subset _ _)

theorem slice_subset {α : Type} (xs : List α) (start stop : Value) :
    Ensures (· ⊆ xs) (Value.slice xs start stop) :=
  Ensures.andThen fun _ => Ensures.andThen fun _ => Ensures.ok (between_subset _ _ xs)

theorem substring_subset (cs : List Char) (start stop : Value) :
    Ensures (· ⊆ cs) (Value.substring cs start stop) :=
  Ensures.andThen fun _ => Ensures.andThen fun _ => Ensures.ok (between_subset _ _ cs)

theorem charAt?_mem (cs : List Char) (index : Value) :
    Ensures (fun found => ∀ c, found = some c → c ∈ cs) (charAt? cs index) := by
  have hhead : ∀ c, cs.head? = some c → c ∈ cs := fun c hc => List.mem_of_head? hc
  unfold charAt?
  split
  · exact Ensures.ok hhead
  · refine Ensures.andThen fun found => ?_
    split
    · exact Ensures.ok hhead
    · exact Ensures.ok (by simp)
    · refine Ensures.ok fun c hc => ?_
      split at hc
      · cases hc
      · exact List.mem_of_getElem? hc

theorem pieces_basic {cs : List Char} (h : Text.Basic cs) (separator : Value) :
    Ensures (fun parts => ∀ p ∈ parts, Text.Basic p) (pieces cs separator) := by
  unfold pieces
  split
  · exact Ensures.ok (by simpa using h)
  · refine Ensures.andThen fun s => Ensures.ok ?_
    split
    · intro p hp
      obtain ⟨c, hc, rfl⟩ := List.mem_map.mp hp
      exact Text.Basic.cons (h c hc) Text.Basic.nil
    · exact Text.splitScan_basic Text.Basic.nil h

theorem split_basic {cs : List Char} (h : Text.Basic cs) (separator limit : Value) :
    Ensures Basic (Value.split cs separator limit) := by
  refine Ensures.bind (pieces_basic h separator) fun parts hparts => ?_
  have harray : ∀ kept : List (List Char), kept ⊆ parts →
      (Value.array (kept.map fun p => .text (String.ofList p))).Basic := by
    intro kept hkept
    rw [basic_array]
    intro v hv
    obtain ⟨p, hp, rfl⟩ := List.mem_map.mp hv
    exact basic_ofList (hparts p (hkept hp))
  split
  · exact Ensures.ok (harray parts (List.Subset.refl _))
  · refine Ensures.andThen fun n => ?_
    exact Ensures.ok (harray _ (List.take_subset n parts))

theorem textIndexOf_basic (cs : List Char) (needle start : Value) :
    Ensures Basic (textIndexOf cs needle start) := by
  refine Ensures.andThen fun i => Ensures.andThen fun s => Ensures.ok ?_
  unfold ofPlace
  split <;> exact basic_number _

/-- **The methods of texts keep to the basic plane.** -/
theorem TextMethod.apply_basic (m : TextMethod) {cs : List Char} {args : List Value}
    (hcs : Text.Basic cs) (hargs : ∀ v ∈ args, v.Basic) : Ensures Basic (m.apply cs args) := by
  unfold TextMethod.apply
  split
  · exact Ensures.error _
  · cases m with
    | charAt =>
        refine Ensures.bind (charAt?_mem cs _) fun found hfound => ?_
        split
        · rename_i c
          exact Ensures.ok (basic_ofList (Text.Basic.cons (hcs c (hfound c rfl)) Text.Basic.nil))
        · exact Ensures.ok (basic_text.mpr Text.Basic.nil)
    | charCodeAt =>
        refine Ensures.andThen fun found => ?_
        split <;> exact Ensures.ok (basic_number _)
    | toUpperCase => exact Ensures.ok (basic_ofList (Unicode.upper_basic hcs))
    | toLowerCase => exact Ensures.ok (basic_ofList (Unicode.lowerFrom_basic [] hcs))
    | slice =>
        exact Ensures.bind (slice_subset cs _ _) fun part hpart =>
          Ensures.ok (basic_ofList (hcs.subset hpart))
    | substring =>
        exact Ensures.bind (substring_subset cs _ _) fun part hpart =>
          Ensures.ok (basic_ofList (hcs.subset hpart))
    | indexOf => exact textIndexOf_basic _ _ _
    | trim => exact Ensures.ok (basic_ofList (Text.trim_basic hcs))
    | concat =>
        refine Ensures.bind (Ensures.mapM fun v hv => toText_basic (hargs v hv)) fun parts hparts => ?_
        refine checkedText_basic (hcs.append fun c hc => ?_)
        obtain ⟨s, hs, hc⟩ := List.mem_flatMap.mp hc
        exact hparts s hs c hc
    | split => exact split_basic hcs _ _

theorem join_basic {items : List Value} {separator : Value} (hitems : ∀ v ∈ items, v.Basic)
    (hsep : separator.Basic) : Ensures Basic (join items separator) := by
  have hjoin : ∀ s : String, Text.Basic s.toList → Ensures Basic
      (do let parts ← itemTexts items; checkedText (Text.joinWith s.toList parts)) := by
    intro s hs
    refine Ensures.bind (itemTexts_basic (basicItems_iff.mpr hitems)) fun parts hparts => ?_
    exact checkedText_basic (Text.joinWith_basic hs hparts)
  unfold join
  split
  · exact hjoin "," (Text.Basic.of_all (by decide))
  · exact Ensures.bind (toText_basic hsep) hjoin

/-- **The methods of arrays keep to the basic plane.** -/
theorem ArrayMethod.apply_basic (m : ArrayMethod) {items args : List Value}
    (hitems : ∀ v ∈ items, v.Basic) (hargs : ∀ v ∈ args, v.Basic) :
    Ensures Basic (m.apply items args) := by
  unfold ArrayMethod.apply
  split
  · exact Ensures.error _
  · cases m with
    | join => exact join_basic hitems (basic_getD hargs 0)
    | indexOf =>
        refine Ensures.andThen fun i => Ensures.andThen fun place => Ensures.ok ?_
        unfold ofPlace
        split <;> exact basic_number _
    | slice =>
        exact Ensures.bind (slice_subset items _ _) fun part hpart =>
          Ensures.ok (basic_array.mpr fun v hv => hitems v (hpart hv))

theorem callMethod_basic {receiver : Value} (name : String) {args : List Value}
    (hreceiver : receiver.Basic) (hargs : ∀ v ∈ args, v.Basic) :
    Ensures Basic (receiver.callMethod name args) := by
  unfold callMethod
  split
  · split
    · exact TextMethod.apply_basic _ (basic_text.mp hreceiver) hargs
    · exact Ensures.error _
  · split
    · exact ArrayMethod.apply_basic _ (basic_array.mp hreceiver) hargs
    · exact Ensures.error _
  · exact Ensures.error _

theorem memberOf_basic {item : Nat → Option Value} (hitem : ∀ i v, item i = some v → v.Basic)
    (length : Nat) (key : String) : Ensures Basic (memberOf length item key) := by
  unfold memberOf
  split
  · exact Ensures.ok (basic_number _)
  · refine Ensures.andThen fun index => ?_
    split
    · rename_i i
      refine Ensures.ok ?_
      cases h : item i with
      | none => exact basic_undefined
      | some v => exact hitem i v h
    · exact Ensures.error _

theorem member_basic {receiver : Value} (key : Value) (h : receiver.Basic) :
    Ensures Basic (receiver.member key) := by
  unfold member
  split
  · refine Ensures.andThen fun word => memberOf_basic (fun i v hv => ?_) _ word
    obtain ⟨c, hc, rfl⟩ := Option.map_eq_some_iff.mp hv
    exact basic_ofList (Text.Basic.cons (basic_text.mp h c (List.mem_of_getElem? hc)) Text.Basic.nil)
  · refine Ensures.andThen fun word => memberOf_basic (fun i v hv => ?_) _ word
    exact basic_array.mp h v (List.mem_of_getElem? hv)
  · exact Ensures.error _

end Value

end Descramble

import Descramble.Proofs.Evaluation.LeftAlone
import Descramble.Proofs.Evaluation.Literal
import Descramble.Proofs.Pass.Names
import Descramble.Proofs.Tree.Everywhere
import Descramble.Proofs.Value.Length

/-!
# The length of known texts

A concatenation beyond the limit has no known value.  But not all expressions that write a text measure
it, so a short script can have known texts beyond the limit.

* `Unmeasured` — the expressions that write a text without measuring it: templates, changes of case, the
  text of an array, and characters with given codes.
* `valueOf_short` — all other expressions keep to the limit.
* `known_short_iff` — the known texts of a tree keep to the limit exactly if those of its unmeasured
  expressions do.
-/

set_option autoImplicit false

namespace Descramble

/-! ## With more fuel -/

namespace Context

variable {ctx : Context}

/-- A name keeps its value where there is more fuel and less has been passed. -/
theorem valueOfBinding_of_within : ∀ (fuel fuel' : Nat) (passed passed' : List Nat), fuel ≤ fuel' →
    passed' ⊆ passed → ∀ p name slots v, ctx.tree.get? p = some (.mk (.identifier name) slots) →
      valueOfBinding ctx fuel passed p name = .ok v →
        valueOfBinding ctx fuel' passed' p name = .ok v := by
  intro fuel
  induction fuel with
  | zero =>
      intro _ _ _ _ _ p name slots v _ hv
      cases hv
  | succ fuel ih =>
      intro fuel' passed passed' hfuel hpassed p name slots v hget hv
      obtain ⟨fuel', rfl⟩ : ∃ k, fuel' = k + 1 := ⟨fuel' - 1, by omega⟩
      rcases valueOfBinding_eq_ok.mp hv with hglobal | ⟨i, initPlace, init, hinit, hnew, harray, hv⟩
      · exact valueOfBinding_eq_ok.mpr (Or.inl hglobal)
      · obtain ⟨b, -, hnode, -, -, -, -, rfl⟩ := constantInit?_eq_some.mp hinit
        have hsim := simulates_of_fewer (fun c _ _ (h : ctx.isDecoderCall c = true) => h)
          (ih fuel' (i :: passed) (i :: passed') (by omega) (List.cons_subset_cons i hpassed))
        obtain ⟨n', v', hn', hv', rfl⟩ := hsim.valueOf init b.initPlace v trivial
          (get?_initPlace hnode) hv
        cases (get?_initPlace hnode).symm.trans hn'
        exact valueOfBinding_eq_ok.mpr
          (Or.inr ⟨i, _, init, hinit, fun hmem => hnew (hpassed hmem), harray, hv'⟩)

/-- **A value that is found after some bindings have been passed is found from the start.** -/
theorem valueOf_of_within {fuel : Nat} {passed : List Nat}
    (hfuel : fuel ≤ ctx.analysis.bindings.length + 1) {p : Position} {n : Node} {v : Value}
    (hget : ctx.tree.get? p = some n) (hv : valueOf (ctx.within fuel passed) p n = .ok v) :
    valueOf ctx.surroundings p n = .ok v := by
  have hsim := simulates_of_fewer (fun c _ _ (h : ctx.isDecoderCall c = true) => h)
    (ctx.valueOfBinding_of_within fuel _ passed [] hfuel (List.nil_subset _))
  obtain ⟨n', v', hn', hv', rfl⟩ := hsim.valueOf n p v trivial hget hv
  cases hget.symm.trans hn'
  exact hv'

end Context

/-! ## Expressions that measure nothing -/

/-- An expression that writes a text without measuring it. -/
inductive Unmeasured (env : Surroundings) (p : Position) : Node → Prop
  | template {slots : List Slot} : Unmeasured env p (.mk .templateLiteral slots)
  | cased {computed : Bool} {owner property : Node} {arguments : List (Option Node)} {name : String}
      (hname : accessedName? computed property = some name) (h : Value.ChangesCase name) :
      Unmeasured env p (.mk .call [.one (some (.mk (.member computed)
        [.one (some owner), .one (some property)])), .many arguments])
  | array {slots : List Slot} {argument : Node} {rest : List (Option Node)} {items : List Value}
      (h : valueOf env (p ++ [⟨1, some 0⟩]) argument = .ok (.array items)) :
      Unmeasured env p (.mk .call [.one (some (.mk (.identifier "String") slots)),
        .many (some argument :: rest)])
  | codes {computed : Bool} {owner property : Node} {arguments : List (Option Node)}
      (h : globalMember? env (p ++ [first, first]) owner (accessedName? computed property) =
        some .fromCharCode) :
      Unmeasured env p (.mk .call [.one (some (.mk (.member computed)
        [.one (some owner), .one (some property)])), .many arguments])

theorem Builtin.eq_of_ofName?_string {name : String} (h : Builtin.ofName? name = some .string) :
    name = "String" := by
  unfold Builtin.ofName? at h
  split at h <;> first | rfl | cases h

theorem Builtin.ofName?_ne_fromCharCode (name : String) : Builtin.ofName? name ≠ some .fromCharCode := by
  unfold Builtin.ofName?
  split <;> simp

section
variable {env : Surroundings} {p : Position}

/-- No global function changes the case of a text, or is found as a member and converts to text. -/
theorem of_globalMember? {owner : Node} {name : Option String} {f : Builtin}
    (h : globalMember? env p owner name = some f) :
    f ≠ .string ∧ ∀ word, name = some word → ¬ Value.ChangesCase word := by
  unfold globalMember? at h
  split at h
  · split at h
    · unfold Builtin.ofMember? at h
      split at h
      · obtain ⟨m, hm, rfl⟩ := Option.map_eq_some_iff.mp h
        refine ⟨by simp, ?_⟩
        rintro word ⟨⟩ (rfl | rfl) <;> cases hm
      · split at h <;> cases h
        rename_i hname
        refine ⟨by simp, ?_⟩
        rintro word ⟨⟩ (rfl | rfl) <;> exact absurd hname.2 (by decide)
    · cases h
  · cases h

theorem Value.isText_of_changesCase {receiver v : Value} {name : String} {args : List Value}
    (hname : ChangesCase name) (h : receiver.callMethod name args = .ok v) : ∃ s, v = .text s := by
  cases receiver with
  | text r =>
      rcases hname with rfl | rfl
      · have h : TextMethod.toUpperCase.apply r.toList args = .ok v := h
        unfold TextMethod.apply at h
        split at h <;> cases h
        exact ⟨_, rfl⟩
      · have h : TextMethod.toLowerCase.apply r.toList args = .ok v := h
        unfold TextMethod.apply at h
        split at h <;> cases h
        exact ⟨_, rfl⟩
  | array items => rcases hname with rfl | rfl <;> cases h
  | _ => cases h

/-- What such an expression writes is a text. -/
theorem Unmeasured.isText {n : Node} {v : Value} (h : Unmeasured env p n)
    (hv : valueOf env p n = .ok v) : ∃ s, v = .text s := by
  have hcomputes := valueOf_eq_ok_iff.mp hv
  cases h with
  | template =>
      cases hcomputes with
      | template hstart htext hv => exact ⟨_, (basicPlaneOnly_eq_ok.mp hv).1⟩
  | cased hname hcase =>
      cases hcomputes with
      | callMember hdecoder hf hvs hv => exact absurd hcase ((of_globalMember? hf).2 _ hname)
      | callMethod hdecoder hf hname' hreceiver hvs hv =>
          cases hname.symm.trans hname'
          exact Value.isText_of_changesCase hcase hv
  | array hitems =>
      cases hcomputes with
      | callGlobal hdecoder hf hglobal hvs hv =>
          cases hf
          obtain ⟨w, ws, -, -, rfl⟩ := itemValues_cons_some.mp hvs
          obtain ⟨s, -, hv⟩ := bind_eq_ok.mp hv
          cases hv
          exact ⟨_, rfl⟩
  | codes hf =>
      cases hcomputes with
      | callMember hdecoder hf' hvs hv =>
          cases hf.symm.trans hf'
          obtain ⟨codes, -, hv⟩ := bind_eq_ok.mp hv
          obtain ⟨cs, -, hv⟩ := bind_eq_ok.mp hv
          cases hv
          exact ⟨_, rfl⟩
      | callMethod hdecoder hf' hname' hreceiver hvs hv => cases hf.symm.trans hf'

end

/-! ## Values -/

/-- The values of a list of expressions are those of its items, and undefined for the gaps. -/
theorem mem_itemValues {env : Surroundings} {p : Position} {slot : Nat} {v : Value} :
    ∀ {items : List (Option Node)} {i : Nat} {vs : List Value},
      itemValues env p slot i items = .ok vs → v ∈ vs →
        v = .undefined ∨ ∃ j c, items[j]? = some (some c) ∧
          valueOf env (p ++ [⟨slot, some (i + j)⟩]) c = .ok v
  | [], _, _, h, hv => by
      rw [itemValues_nil] at h
      cases h
      cases hv
  | none :: rest, i, _, h, hv => by
      obtain ⟨ws, hws, rfl⟩ := itemValues_cons_none.mp h
      rcases List.mem_cons.mp hv with hv | hv
      · exact Or.inl hv
      · refine (mem_itemValues hws hv).imp_right fun ⟨j, c, hc, hvalue⟩ => ⟨j + 1, c, hc, ?_⟩
        rwa [show i + (j + 1) = i + 1 + j by omega]
  | some item :: rest, i, _, h, hv => by
      obtain ⟨w, ws, hw, hws, rfl⟩ := itemValues_cons_some.mp h
      rcases List.mem_cons.mp hv with rfl | hv
      · exact Or.inr ⟨0, item, rfl, hw⟩
      · refine (mem_itemValues hws hv).imp_right fun ⟨j, c, hc, hvalue⟩ => ⟨j + 1, c, hc, ?_⟩
        rwa [show i + (j + 1) = i + 1 + j by omega]

/-- Every text in a literal of the tree is within the limit. -/
def LiteralsShort (t : Node) : Prop :=
  t.Everywhere fun n => ∀ s raw slots, n = .mk (.literal (.text s) raw none) slots →
    s.length ≤ maxTextLength

/-- A literal is as short as its text. -/
theorem valueOfLiteral_short {value : Constant} {regex : Option Pattern} {v : Value}
    (hlength : ∀ s, value = .text s → regex = none → s.length ≤ maxTextLength)
    (h : valueOfLiteral value regex = .ok v) : v.Short := by
  unfold valueOfLiteral at h
  split at h
  · cases h
  · rename_i hregex
    cases value with
    | text s =>
        obtain ⟨rfl, -⟩ := basicPlaneOnly_eq_ok.mp h
        rw [Value.short_text, Text.Short, String.length_toList]
        exact hlength s rfl (by simpa using hregex)
    | _ =>
        cases h
        exact Value.IsScalar.short trivial

/-- Only a list of expressions that starts with one has a value that starts with a list. -/
theorem itemValues_eq_ok_cons_array {env : Surroundings} {p : Position} {slot i : Nat}
    {items : List (Option Node)} {elements rest : List Value}
    (h : itemValues env p slot i items = .ok (.array elements :: rest)) :
    ∃ item others, items = some item :: others ∧
      valueOf env (p ++ [⟨slot, some i⟩]) item = .ok (.array elements) := by
  match items, h with
  | [], h => cases h
  | none :: others, h =>
      obtain ⟨vs, -, hvs⟩ := itemValues_cons_none.mp h
      cases hvs
  | some item :: others, h =>
      obtain ⟨v, vs, hv, -, hvs⟩ := itemValues_cons_some.mp h
      cases hvs
      exact ⟨item, others, rfl, hv⟩

/-- **Values keep to the limit** if the literals, the values of names and the unmeasured texts do. -/
theorem valueOf_short {t : Node} {env : Surroundings} (hliterals : LiteralsShort t)
    (hnames : ∀ p name slots v, t.get? p = some (.mk (.identifier name) slots) →
      env.nameValue p name = .ok v → v.Short)
    (hmade : ∀ p n v, t.get? p = some n → Unmeasured env p n → valueOf env p n = .ok v → v.Short)
    (n : Node) : ∀ p v, t.get? p = some n → valueOf env p n = .ok v → v.Short := by
  induction n using Node.belowInduction with
  | h n ih =>
      intro p v hget h
      have hbelow : ∀ s q c w, n.get? (s :: q) = some c → valueOf env (p ++ s :: q) c = .ok w →
          w.Short := by
        intro s q c w hc hw
        refine ih s q c hc _ w ?_ hw
        rw [Node.get?_append, hget]
        exact hc
      have hitems : ∀ (i : Nat) (items : List (Option Node)) (vs : List Value),
          n.slots[i]? = some (.many items) → itemValues env p i 0 items = .ok vs →
            ∀ v ∈ vs, v.Short := by
        intro i items vs hslot hvs w hw
        rcases mem_itemValues hvs hw with rfl | ⟨j, c, hc, hw⟩
        · exact Value.IsScalar.short trivial
        · refine hbelow ⟨i, some (0 + j)⟩ [] c w ?_ hw
          rw [Node.get?_cons, Nat.zero_add, Simulates.child?_of_item hslot hc]
          rfl
      have hcomputes := valueOf_eq_ok_iff.mp h
      cases hcomputes with
      | @literal value raw regex slots v hv =>
          refine valueOfLiteral_short ?_ hv
          rintro s rfl rfl
          exact hliterals p _ hget s raw slots rfl
      | identifier hv => exact hnames _ _ _ _ hget hv
      | template hstart htext hv => exact hmade _ _ _ hget .template h
      | unary hne hop ha hv => exact UnaryOp.apply_short _ _ _ hv
      | binary hop hl hr hv => exact BinaryOp.apply_short _ _ _ _ hv
      | logicalLeft hl hv => exact hbelow first [] _ _ rfl hl
      | logicalRight hl hkeep hr => exact hbelow second [] _ _ rfl hr
      | conditionalYes ht hb hv => exact hbelow second [] _ _ rfl hv
      | conditionalNo ht hb hv => exact hbelow ⟨2, none⟩ [] _ _ rfl hv
      | sequence hvs hlast => exact hitems 0 _ _ rfl hvs v (List.mem_of_getLast? hlast)
      | array hvs => exact Value.short_array.mpr (hitems 0 _ _ rfl hvs)
      | member hreceiver hkey hv => exact Value.member_short _ (hbelow first [] _ _ rfl hreceiver) _ hv
      | @callGlobal name slots arguments f vs v hdecoder hf hglobal hvs hv =>
          by_cases harray : f = .string ∧ ∃ items rest, vs = .array items :: rest
          · obtain ⟨rfl, items, rest, rfl⟩ := harray
            cases Builtin.eq_of_ofName?_string hf
            obtain ⟨argument, others, rfl, hargument⟩ := itemValues_eq_ok_cons_array hvs
            exact hmade _ _ _ hget (.array hargument) h
          · refine Builtin.apply_short ?_ ?_ (hitems 1 _ _ rfl hvs) _ hv
            · rintro rfl
              exact Builtin.ofName?_ne_fromCharCode _ hf
            · exact fun hstring items rest hvs => harray ⟨hstring, items, rest, hvs⟩
      | @callMember computed owner property arguments f vs v hdecoder hf hvs hv =>
          by_cases hcodes : f = .fromCharCode
          · subst hcodes
            exact hmade _ _ _ hget (.codes hf) h
          · exact Builtin.apply_short hcodes (fun hstring => absurd hstring (of_globalMember? hf).1)
              (hitems 1 _ _ rfl hvs) _ hv
      | @callMethod computed owner property arguments name receiver vs v hdecoder hf hname hreceiver
          hvs hv =>
          by_cases hcase : Value.ChangesCase name
          · exact hmade _ _ _ hget (.cased hname hcase) h
          · exact Value.callMethod_short (fun _ => hcase) (hbelow first [first] _ _ rfl hreceiver) _ _
              hv

/-! ## Known texts -/

/-- The unmeasured expressions of a tree keep to the limit. -/
def Context.MadeShort (ctx : Context) : Prop :=
  ∀ p n s, ctx.tree.get? p = some n → Unmeasured ctx.surroundings p n →
    valueOf ctx.surroundings p n = .ok (.text s) → s.length ≤ maxTextLength

namespace Context

variable {ctx : Context} {fuel : Nat} {passed : List Nat}

/-- An expression that measures nothing inside an initial value measures nothing from the start. -/
theorem unmeasured_of_within (hfuel : fuel ≤ ctx.analysis.bindings.length + 1) {p : Position} {n : Node}
    (hget : ctx.tree.get? p = some n) (h : Unmeasured (ctx.within fuel passed) p n) :
    Unmeasured ctx.surroundings p n := by
  cases h with
  | template => exact .template
  | cased hname hcase => exact .cased hname hcase
  | array hitems =>
      refine .array (valueOf_of_within hfuel ?_ hitems)
      rw [Node.get?_concat, hget]
      rfl
  | codes hf => exact .codes hf

/-- What is found inside an initial value keeps to the limit, if the names in it do. -/
theorem within_short (hliterals : LiteralsShort ctx.tree) (hmade : ctx.MadeShort)
    (hfuel : fuel ≤ ctx.analysis.bindings.length + 1)
    (hnames : ∀ p name slots v, ctx.tree.get? p = some (.mk (.identifier name) slots) →
      valueOfBinding ctx fuel passed p name = .ok v → v.Short) {p : Position} {n : Node} {v : Value}
    (hget : ctx.tree.get? p = some n) (hv : valueOf (ctx.within fuel passed) p n = .ok v) : v.Short := by
  refine valueOf_short hliterals hnames (fun q m w hgetm hm hw => ?_) n p v hget hv
  obtain ⟨s, rfl⟩ := hm.isText hw
  rw [Value.short_text, Text.Short, String.length_toList]
  exact hmade q m s hgetm (unmeasured_of_within hfuel hgetm hm) (valueOf_of_within hfuel hgetm hw)

/-- **The values of names keep to the limit**, by induction on the bindings that can be passed. -/
theorem valueOfBinding_short (hliterals : LiteralsShort ctx.tree) (hmade : ctx.MadeShort) :
    ∀ (fuel : Nat) (passed : List Nat), fuel ≤ ctx.analysis.bindings.length + 1 →
      ∀ p name slots v, ctx.tree.get? p = some (.mk (.identifier name) slots) →
        valueOfBinding ctx fuel passed p name = .ok v → v.Short := by
  intro fuel
  induction fuel with
  | zero =>
      intro _ _ p name slots v _ hv
      cases hv
  | succ fuel ih =>
      intro passed hfuel p name slots v _ hv
      rcases valueOfBinding_eq_ok.mp hv with ⟨-, hglobal⟩ | ⟨i, initPlace, init, hinit, -, -, hv⟩
      · unfold globalValue? at hglobal
        split at hglobal <;> cases hglobal <;> exact Value.IsScalar.short trivial
      · obtain ⟨b, -, hnode, -, -, -, -, rfl⟩ := constantInit?_eq_some.mp hinit
        exact within_short hliterals hmade (by omega) (ih (i :: passed) (by omega))
          (get?_initPlace hnode) hv

end Context

/-- **Known texts keep to the limit exactly if the unmeasured ones do**: where no literal has a text
beyond the limit, a known text beyond it comes from a template, a change of case, an array that is
converted to text, or characters with given codes. -/
theorem known_short_iff {ctx : Context} (hliterals : LiteralsShort ctx.tree) :
    (∀ p s, ctx.evaluate p = .ok (.known (.text s)) → s.length ≤ maxTextLength) ↔
      ∀ p n s, ctx.tree.get? p = some n → Unmeasured ctx.surroundings p n →
        valueOf ctx.surroundings p n = .ok (.text s) → s.length ≤ maxTextLength := by
  constructor
  · intro hknown p n s hget _ hv
    exact hknown p s (evaluate_eq_known_iff.mpr ⟨n, hget, hv, rfl⟩)
  · intro hmade p s hknown
    obtain ⟨n, hget, hv, -⟩ := evaluate_eq_known_iff.mp hknown
    have hshort := Context.within_short hliterals hmade (Nat.le_refl _)
      (ctx.valueOfBinding_short hliterals hmade _ [] (Nat.le_refl _)) hget hv
    rwa [Value.short_text, Text.Short, String.length_toList] at hshort

/-- A script with a template that has a text twice in it. -/
def twice (s : String) : Node :=
  .programOf "script" [.statementOf (.mk .templateLiteral
    [.many (List.replicate 3 (some (.leaf (.templateElement "" (some "") false)))),
      .many (List.replicate 2 (some (.ofText s)))])]

theorem literalsShort_twice {s : String} (h : s.length ≤ maxTextLength) : LiteralsShort (twice s) := by
  have hs : ∀ (s' raw : String) (slots : List Slot), s = s' → Text.doubleQuoted s = raw →
      slots = [] → s'.length ≤ maxTextLength := by
    rintro _ _ _ rfl _ _
    exact h
  unfold LiteralsShort twice Node.ofText
  simpa [Node.everywhere_mk, Node.InSlots] using hs

theorem valueOf_twice (env : Surroundings) {s : String} (h : Text.Basic s.toList) :
    ∃ n, (twice s).get? [⟨0, some 0⟩, first] = some n ∧ Unmeasured env [⟨0, some 0⟩, first] n ∧
      valueOf env [⟨0, some 0⟩, first] n = .ok (.text (String.ofList (s.toList ++ s.toList))) := by
  have hs : ∀ p, valueOf env p (.ofText s) = .ok (.text s) := by
    intro p
    rw [Node.ofText, valueOf]
    exact basicPlaneOnly_eq_ok.mpr ⟨rfl, h⟩
  refine ⟨_, rfl, .template, Computes.valueOf_eq (.template rfl ?_ (basicPlaneOnly_eq_ok.mpr ⟨rfl, ?_⟩))⟩
  · refine templateText_cons.mpr ⟨_, _, _, hs _, rfl, rfl, ?_⟩
    refine templateText_cons.mpr ⟨_, _, _, hs _, rfl, rfl, ?_⟩
    simp [List.replicate, templateText]
  · rw [String.toList_ofList]
    exact h.append h

/-- A text of a given length. -/
def repeated (n : Nat) : String := String.ofList (List.replicate n 'x')

theorem length_repeated (n : Nat) : (repeated n).length = n := by
  rw [repeated, String.length_ofList, List.length_replicate]

theorem basic_repeated (n : Nat) : Text.Basic (repeated n).toList := by
  rw [repeated, String.toList_ofList]
  exact Text.Basic.replicate (by decide) n

/-- The literals of the script are within the limit, and the text of its template is not. -/
theorem known_short_iff_twice :
    LiteralsShort (twice (repeated 60000)) ∧
      ¬ ∀ p s, (Context.ofTree (twice (repeated 60000)) (analyze (twice (repeated 60000))) none).evaluate
        p = .ok (.known (.text s)) → s.length ≤ maxTextLength := by
  have hliterals : LiteralsShort (twice (repeated 60000)) :=
    literalsShort_twice (by rw [length_repeated]; decide)
  refine ⟨hliterals, fun hknown => ?_⟩
  obtain ⟨n, hget, hmade, hvalue⟩ := valueOf_twice _ (basic_repeated 60000)
  have hshort := (known_short_iff hliterals).mp hknown _ n _ hget hmade hvalue
  rw [String.length_ofList, List.length_append, String.length_toList, length_repeated] at hshort
  exact absurd hshort (by decide)

end Descramble

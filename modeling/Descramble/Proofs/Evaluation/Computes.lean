import Descramble.Alias

/-!
# How expressions come to their values

* `Computes` — the ways in which an expression has a value, one rule for each.
* `valueOf_eq_ok_iff` — these are all.
* `itemValues_cons_some`, `itemValues_cons_none` — the values of a list of expressions, item by item.
* `valueOfBinding_eq_ok` — how a name has a value.
-/

set_option autoImplicit false

namespace Descramble

theorem bind_eq_ok {ε α β : Type} {r : Except ε α} {k : α → Except ε β} {b : β} :
    (r >>= k) = .ok b ↔ ∃ a, r = .ok a ∧ k a = .ok b := by
  cases r with
  | error e => simp [bind, Except.bind]
  | ok a => simp [bind, Except.bind]

theorem eq_ok_of_toOption {ε α : Type} {r : Except ε α} {a : α} (h : r.toOption = some a) :
    r = .ok a := by
  cases r with
  | error e => cases h
  | ok b =>
      cases h
      rfl

@[simp] theorem unlessFault_eq_ok {α : Type} {r : Except Fault α} {a : α} :
    unlessFault r = .ok a ↔ r = .ok a := by
  cases r <;> simp [unlessFault]

/-- Does a logical operator give its left side?  There is no answer for other operators, and for a
side that has no truth value. -/
def keepsLeft? (symbol : String) (left : Value) : Option Bool :=
  match symbol with
  | "&&" => left.truthy.toOption.map (!·)
  | "||" => left.truthy.toOption
  | "??" => some (!left.isNullish)
  | _ => none

/-- The key of a member access. -/
inductive ComputesKey (env : Surroundings) (p : Position) : Bool → Node → Value → Prop
  | plain {name : String} {slots : List Slot} :
      ComputesKey env p false (.mk (.identifier name) slots) (.text name)
  | computed {property : Node} {key : Value} (h : valueOf env (p ++ [second]) property = .ok key) :
      ComputesKey env p true property key

/-- An expression has a value: one rule for each way to get one. -/
inductive Computes (env : Surroundings) (p : Position) : Node → Value → Prop
  | literal {value : Constant} {raw : String} {regex : Option Pattern} {slots : List Slot} {v : Value}
      (h : valueOfLiteral value regex = .ok v) :
      Computes env p (.mk (.literal value raw regex) slots) v
  | identifier {name : String} {slots : List Slot} {v : Value} (h : env.nameValue p name = .ok v) :
      Computes env p (.mk (.identifier name) slots) v
  | template {quasis expressions : List (Option Node)} {start : String} {text : List Char} {v : Value}
      (hstart : cookedText quasis.head?.join = .ok start)
      (htext : templateText env p 0 start.toList quasis.tail expressions = .ok text)
      (h : basicPlaneOnly (String.ofList text) = .ok v) :
      Computes env p (.mk .templateLiteral [.many quasis, .many expressions]) v
  | unary {symbol : String} {leading : Bool} {argument : Node} {op : UnaryOp} {a v : Value}
      (hne : symbol ≠ "delete") (hop : UnaryOp.ofSymbol? symbol = some op)
      (ha : valueOf env (p ++ [first]) argument = .ok a) (h : op.apply a = .ok v) :
      Computes env p (.mk (.unary symbol leading) [.one (some argument)]) v
  | binary {symbol : String} {left right : Node} {op : BinaryOp} {l r v : Value}
      (hop : BinaryOp.ofSymbol? symbol = some op) (hl : valueOf env (p ++ [first]) left = .ok l)
      (hr : valueOf env (p ++ [second]) right = .ok r) (h : op.apply l r = .ok v) :
      Computes env p (.mk (.binary symbol) [.one (some left), .one (some right)]) v
  | logicalLeft {symbol : String} {left right : Node} {l : Value}
      (hl : valueOf env (p ++ [first]) left = .ok l) (h : keepsLeft? symbol l = some true) :
      Computes env p (.mk (.logical symbol) [.one (some left), .one (some right)]) l
  | logicalRight {symbol : String} {left right : Node} {l v : Value}
      (hl : valueOf env (p ++ [first]) left = .ok l) (h : keepsLeft? symbol l = some false)
      (hr : valueOf env (p ++ [second]) right = .ok v) :
      Computes env p (.mk (.logical symbol) [.one (some left), .one (some right)]) v
  | conditionalYes {test yes no : Node} {t v : Value}
      (ht : valueOf env (p ++ [first]) test = .ok t) (h : t.truthy = .ok true)
      (hv : valueOf env (p ++ [second]) yes = .ok v) :
      Computes env p (.mk .conditional [.one (some test), .one (some yes), .one (some no)]) v
  | conditionalNo {test yes no : Node} {t v : Value}
      (ht : valueOf env (p ++ [first]) test = .ok t) (h : t.truthy = .ok false)
      (hv : valueOf env (p ++ [⟨2, none⟩]) no = .ok v) :
      Computes env p (.mk .conditional [.one (some test), .one (some yes), .one (some no)]) v
  | sequence {expressions : List (Option Node)} {vs : List Value} {v : Value}
      (hvs : itemValues env p 0 0 expressions = .ok vs) (h : vs.getLast? = some v) :
      Computes env p (.mk .sequence [.many expressions]) v
  | array {elements : List (Option Node)} {vs : List Value}
      (hvs : itemValues env p 0 0 elements = .ok vs) :
      Computes env p (.mk .arrayExpression [.many elements]) (.array vs)
  | member {computed : Bool} {object property : Node} {receiver key v : Value}
      (hreceiver : valueOf env (p ++ [first]) object = .ok receiver)
      (hkey : ComputesKey env p computed property key) (h : receiver.member key = .ok v) :
      Computes env p (.mk (.member computed) [.one (some object), .one (some property)]) v
  | callGlobal {name : String} {slots : List Slot} {arguments : List (Option Node)} {f : Builtin}
      {vs : List Value} {v : Value} (hdecoder : env.isDecoderCall p = false)
      (hf : Builtin.ofName? name = some f) (hglobal : env.isGlobal (p ++ [first]) = true)
      (hvs : itemValues env p 1 0 arguments = .ok vs) (h : f.apply vs = .ok v) :
      Computes env p (.mk .call [.one (some (.mk (.identifier name) slots)), .many arguments]) v
  | callMember {computed : Bool} {owner property : Node} {arguments : List (Option Node)}
      {f : Builtin} {vs : List Value} {v : Value} (hdecoder : env.isDecoderCall p = false)
      (hf : globalMember? env (p ++ [first, first]) owner (accessedName? computed property) = some f)
      (hvs : itemValues env p 1 0 arguments = .ok vs) (h : f.apply vs = .ok v) :
      Computes env p (.mk .call [.one (some (.mk (.member computed)
        [.one (some owner), .one (some property)])), .many arguments]) v
  | callMethod {computed : Bool} {owner property : Node} {arguments : List (Option Node)}
      {name : String} {receiver : Value} {vs : List Value} {v : Value}
      (hdecoder : env.isDecoderCall p = false)
      (hf : globalMember? env (p ++ [first, first]) owner (accessedName? computed property) = none)
      (hname : accessedName? computed property = some name)
      (hreceiver : valueOf env (p ++ [first, first]) owner = .ok receiver)
      (hvs : itemValues env p 1 0 arguments = .ok vs) (h : receiver.callMethod name vs = .ok v) :
      Computes env p (.mk .call [.one (some (.mk (.member computed)
        [.one (some owner), .one (some property)])), .many arguments]) v

namespace Computes

variable {env : Surroundings} {p : Position}

theorem ofLogical {symbol : String} {left right : Node} {v : Value}
    (h : valueOf env p (.mk (.logical symbol) [.one (some left), .one (some right)]) = .ok v) :
    Computes env p (.mk (.logical symbol) [.one (some left), .one (some right)]) v := by
  obtain ⟨l, hl, h⟩ := bind_eq_ok.mp h
  split at h
  · obtain ⟨b, hb, h⟩ := bind_eq_ok.mp h
    rw [unlessFault_eq_ok] at hb
    cases b with
    | true => exact .logicalRight hl (by simp [keepsLeft?, hb, Except.toOption]) h
    | false =>
        cases h
        exact .logicalLeft hl (by simp [keepsLeft?, hb, Except.toOption])
  · obtain ⟨b, hb, h⟩ := bind_eq_ok.mp h
    rw [unlessFault_eq_ok] at hb
    cases b with
    | false => exact .logicalRight hl (by simp [keepsLeft?, hb, Except.toOption]) h
    | true =>
        cases h
        exact .logicalLeft hl (by simp [keepsLeft?, hb, Except.toOption])
  · split at h
    · rename_i hnull
      exact .logicalRight hl (by simp [keepsLeft?, hnull]) h
    · rename_i hnull
      cases h
      exact .logicalLeft hl (by simp [keepsLeft?, hnull])
  · cases h

theorem ofMember {computed : Bool} {object property : Node} {v : Value}
    (h : valueOf env p (.mk (.member computed) [.one (some object), .one (some property)]) = .ok v) :
    Computes env p (.mk (.member computed) [.one (some object), .one (some property)]) v := by
  obtain ⟨receiver, hreceiver, h⟩ := bind_eq_ok.mp h
  cases computed with
  | true =>
      rw [if_pos rfl] at h
      obtain ⟨key, hkey, h⟩ := bind_eq_ok.mp h
      exact .member hreceiver (.computed hkey) (unlessFault_eq_ok.mp h)
  | false =>
      rw [if_neg (by decide)] at h
      obtain ⟨k, slots⟩ := property
      simp only [Node.kind] at h
      split at h
      · exact .member hreceiver .plain (unlessFault_eq_ok.mp h)
      · cases h

theorem ofCall {callee : Node} {arguments : List (Option Node)} {v : Value}
    (h : valueOf env p (.mk .call [.one (some callee), .many arguments]) = .ok v) :
    Computes env p (.mk .call [.one (some callee), .many arguments]) v := by
  rw [valueOf.eq_def] at h
  split at h <;> rename_i heq <;> cases heq
  · rename_i name slots
    split at h
    · cases h
    · rename_i hdecoder
      split at h
      · rename_i f hf
        split at h
        · rename_i hglobal
          obtain ⟨vs, hvs, h⟩ := bind_eq_ok.mp h
          exact .callGlobal (by simpa using hdecoder) hf hglobal hvs (unlessFault_eq_ok.mp h)
        · cases h
      · cases h
  · rename_i computed owner property
    split at h
    · cases h
    · rename_i hdecoder
      simp only at h
      split at h
      · rename_i f _ hf
        obtain ⟨vs, hvs, h⟩ := bind_eq_ok.mp h
        exact .callMember (by simpa using hdecoder) hf hvs (unlessFault_eq_ok.mp h)
      · cases h
      · rename_i name hf hname
        obtain ⟨receiver, hreceiver, h⟩ := bind_eq_ok.mp h
        split at h
        · obtain ⟨vs, hvs, h⟩ := bind_eq_ok.mp h
          exact .callMethod (by simpa using hdecoder) hf hname hreceiver hvs
            (unlessFault_eq_ok.mp h)
        · cases h
  · split at h <;> cases h
  · split at h <;> cases h

theorem of_valueOf {n : Node} {v : Value} (h : valueOf env p n = .ok v) : Computes env p n v := by
  have h' := h
  rw [valueOf.eq_def] at h
  split at h
  · exact .literal h
  · exact .identifier h
  · obtain ⟨start, hstart, h⟩ := bind_eq_ok.mp h
    obtain ⟨text, htext, h⟩ := bind_eq_ok.mp h
    exact .template hstart htext h
  · split at h
    · cases h
    · rename_i hne
      split at h
      · cases h
      · rename_i op hop
        obtain ⟨a, ha, h⟩ := bind_eq_ok.mp h
        exact .unary hne hop ha (unlessFault_eq_ok.mp h)
  · split at h
    · cases h
    · rename_i op hop
      obtain ⟨l, hl, h⟩ := bind_eq_ok.mp h
      obtain ⟨r, hr, h⟩ := bind_eq_ok.mp h
      exact .binary hop hl hr (unlessFault_eq_ok.mp h)
  · exact ofLogical h'
  · obtain ⟨t, ht, h⟩ := bind_eq_ok.mp h
    obtain ⟨b, hb, h⟩ := bind_eq_ok.mp h
    rw [unlessFault_eq_ok] at hb
    cases b with
    | true => exact .conditionalYes ht hb h
    | false => exact .conditionalNo ht hb h
  · obtain ⟨vs, hvs, h⟩ := bind_eq_ok.mp h
    split at h
    · rename_i v' hv'
      cases h
      exact .sequence hvs hv'
    · cases h
  · obtain ⟨vs, hvs, h⟩ := bind_eq_ok.mp h
    cases h
    exact .array hvs
  · exact ofMember h'
  · exact ofCall h'
  · exact ofCall h'
  · split at h <;> cases h
  · split at h <;> cases h

theorem isText_or_isArray_of_callMethod {receiver : Value} {name : String} {vs : List Value}
    {v : Value} (h : receiver.callMethod name vs = .ok v) :
    (receiver.isText || receiver.isArray) = true := by
  cases receiver <;> first | rfl | cases h

theorem valueOf_eq {n : Node} {v : Value} (h : Computes env p n v) : valueOf env p n = .ok v := by
  cases h with
  | literal h => rw [valueOf, h]
  | identifier h => rw [valueOf, h]
  | template hstart htext h =>
      rw [valueOf, bind_eq_ok]
      exact ⟨_, hstart, bind_eq_ok.mpr ⟨_, htext, h⟩⟩
  | unary hne hop ha h =>
      rw [valueOf, if_neg hne, hop]
      exact bind_eq_ok.mpr ⟨_, ha, unlessFault_eq_ok.mpr h⟩
  | binary hop hl hr h =>
      rw [valueOf, hop]
      exact bind_eq_ok.mpr ⟨_, hl, bind_eq_ok.mpr ⟨_, hr, unlessFault_eq_ok.mpr h⟩⟩
  | logicalLeft hl h =>
      rw [valueOf, bind_eq_ok]
      refine ⟨v, hl, ?_⟩
      unfold keepsLeft? at h
      split at h
      · refine bind_eq_ok.mpr ⟨false, ?_, rfl⟩
        cases ht : v.truthy <;> simp_all [Except.toOption]
      · refine bind_eq_ok.mpr ⟨true, ?_, rfl⟩
        cases ht : v.truthy <;> simp_all [Except.toOption]
      · simp_all
      · cases h
  | @logicalRight symbol left right l v hl h hr =>
      rw [valueOf, bind_eq_ok]
      refine ⟨l, hl, ?_⟩
      unfold keepsLeft? at h
      split at h
      · refine bind_eq_ok.mpr ⟨true, ?_, hr⟩
        cases ht : l.truthy <;> simp_all [Except.toOption]
      · refine bind_eq_ok.mpr ⟨false, ?_, hr⟩
        cases ht : l.truthy <;> simp_all [Except.toOption]
      · simp_all
      · cases h
  | conditionalYes ht h hv =>
      rw [valueOf]
      exact bind_eq_ok.mpr ⟨_, ht, bind_eq_ok.mpr ⟨true, unlessFault_eq_ok.mpr h, hv⟩⟩
  | conditionalNo ht h hv =>
      rw [valueOf]
      exact bind_eq_ok.mpr ⟨_, ht, bind_eq_ok.mpr ⟨false, unlessFault_eq_ok.mpr h, hv⟩⟩
  | sequence hvs h =>
      rw [valueOf, bind_eq_ok]
      exact ⟨_, hvs, by rw [h]⟩
  | array hvs =>
      rw [valueOf, bind_eq_ok]
      exact ⟨_, hvs, rfl⟩
  | member hreceiver hkey h =>
      rw [valueOf, bind_eq_ok]
      refine ⟨_, hreceiver, ?_⟩
      cases hkey with
      | plain => exact unlessFault_eq_ok.mpr h
      | computed hkey => exact bind_eq_ok.mpr ⟨_, hkey, unlessFault_eq_ok.mpr h⟩
  | callGlobal hdecoder hf hglobal hvs h =>
      rw [valueOf, hdecoder, if_neg (by decide), hf]
      simp only [hglobal, if_true]
      exact bind_eq_ok.mpr ⟨_, hvs, unlessFault_eq_ok.mpr h⟩
  | callMember hdecoder hf hvs h =>
      rw [valueOf, hdecoder, if_neg (by decide)]
      simp only [hf]
      exact bind_eq_ok.mpr ⟨_, hvs, unlessFault_eq_ok.mpr h⟩
  | callMethod hdecoder hf hname hreceiver hvs h =>
      rw [valueOf, hdecoder, if_neg (by decide)]
      rw [hname] at hf
      simp only [hname, hf]
      refine bind_eq_ok.mpr ⟨_, hreceiver, ?_⟩
      rw [if_pos (isText_or_isArray_of_callMethod h)]
      exact bind_eq_ok.mpr ⟨_, hvs, unlessFault_eq_ok.mpr h⟩

end Computes

/-- **The rules give all values**, and nothing else. -/
theorem valueOf_eq_ok_iff {env : Surroundings} {p : Position} {n : Node} {v : Value} :
    valueOf env p n = .ok v ↔ Computes env p n v :=
  ⟨Computes.of_valueOf, Computes.valueOf_eq⟩

/-- No call that is left alone has a value. -/
theorem not_isDecoderCall_of_valueOf {env : Surroundings} {p : Position} {slots : List Slot}
    {v : Value} (h : valueOf env p (.mk .call slots) = .ok v) : env.isDecoderCall p = false := by
  cases valueOf_eq_ok_iff.mp h with
  | callGlobal hdecoder => exact hdecoder
  | callMember hdecoder => exact hdecoder
  | callMethod hdecoder => exact hdecoder

/-! ## Lists and templates -/

section Lists

variable {env : Surroundings} {p : Position} {slot i : Nat}

@[simp] theorem itemValues_nil : itemValues env p slot i [] = .ok [] := rfl

theorem itemValues_cons_none {rest : List (Option Node)} {vs : List Value} :
    itemValues env p slot i (none :: rest) = .ok vs ↔
      ∃ ws, itemValues env p slot (i + 1) rest = .ok ws ∧ vs = .undefined :: ws := by
  refine bind_eq_ok.trans ?_
  constructor
  · rintro ⟨ws, hws, ⟨⟩⟩
    exact ⟨ws, hws, rfl⟩
  · rintro ⟨ws, hws, rfl⟩
    exact ⟨ws, hws, rfl⟩

theorem itemValues_cons_some {item : Node} {rest : List (Option Node)} {vs : List Value} :
    itemValues env p slot i (some item :: rest) = .ok vs ↔
      ∃ v ws, valueOf env (p ++ [⟨slot, some i⟩]) item = .ok v ∧
        itemValues env p slot (i + 1) rest = .ok ws ∧ vs = v :: ws := by
  refine bind_eq_ok.trans ?_
  constructor
  · rintro ⟨v, hv, h⟩
    obtain ⟨ws, hws, ⟨⟩⟩ := bind_eq_ok.mp h
    exact ⟨v, ws, hv, hws, rfl⟩
  · rintro ⟨v, ws, hv, hws, rfl⟩
    exact ⟨v, hv, bind_eq_ok.mpr ⟨ws, hws, rfl⟩⟩

theorem templateText_cons {start : List Char} {quasi : Option Node} {quasis : List (Option Node)}
    {expression : Node} {rest : List (Option Node)} {text : List Char} :
    templateText env p i start (quasi :: quasis) (some expression :: rest) = .ok text ↔
      ∃ v s piece, valueOf env (p ++ [⟨1, some i⟩]) expression = .ok v ∧ v.toText = .ok s ∧
        cookedText quasi = .ok piece ∧
        templateText env p (i + 1) (start ++ s.toList ++ piece.toList) quasis rest = .ok text := by
  refine bind_eq_ok.trans ?_
  constructor
  · rintro ⟨v, hv, h⟩
    obtain ⟨s, hs, h⟩ := bind_eq_ok.mp h
    obtain ⟨piece, hpiece, h⟩ := bind_eq_ok.mp h
    exact ⟨v, s, piece, hv, unlessFault_eq_ok.mp hs, hpiece, h⟩
  · rintro ⟨v, s, piece, hv, hs, hpiece, h⟩
    exact ⟨v, hv, bind_eq_ok.mpr ⟨s, unlessFault_eq_ok.mpr hs, bind_eq_ok.mpr ⟨piece, hpiece, h⟩⟩⟩

end Lists

/-! ## Names -/

/-- The surroundings of an initial value after some bindings have been passed. -/
def Context.within (ctx : Context) (fuel : Nat) (passed : List Nat) : Surroundings where
  nameValue := valueOfBinding ctx fuel passed
  isGlobal := ctx.analysis.isGlobal
  isDecoderCall := ctx.isDecoderCall

theorem constantInit?_eq_some {ctx : Context} {p : Position} {number : Nat} {initPlace : Position}
    {init : Node} :
    ctx.constantInit? p = some (number, initPlace, init) ↔
      ∃ b, ctx.analysis.bindingFor? p = some (number, b) ∧ b.init? ctx.tree = some init ∧
        b.constant = true ∧ b.kind.isVariable = true ∧ p.before b.place = false ∧
        p.isInside b.place = false ∧ initPlace = b.initPlace := by
  unfold Context.constantInit?
  cases hb : ctx.analysis.bindingFor? p with
  | none => simp
  | some found =>
      obtain ⟨i, b⟩ := found
      cases hi : b.init? ctx.tree with
      | none => simp_all
      | some n =>
          simp only [Option.bind_eq_bind, Option.bind_some, Option.some.injEq, Prod.mk.injEq, hi]
          constructor
          · intro h
            split at h
            · rename_i hc
              simp only [Bool.and_eq_true, Bool.not_eq_true'] at hc
              cases h
              exact ⟨b, ⟨rfl, rfl⟩, hi, hc.1.1.1, hc.1.1.2, hc.1.2, hc.2, rfl⟩
            · cases h
          · rintro ⟨b', ⟨rfl, rfl⟩, hi', hconst, hvar, hbefore, hinside, rfl⟩
            rw [hi] at hi'
            cases hi'
            simp [hconst, hvar, hbefore, hinside]

theorem bindingNumber?_of_constantInit? {ctx : Context} {p : Position} {number : Nat}
    {initPlace : Position} {init : Node}
    (h : ctx.constantInit? p = some (number, initPlace, init)) :
    ctx.analysis.bindingNumber? p = some number := by
  obtain ⟨b, hb, -⟩ := constantInit?_eq_some.mp h
  unfold Analysis.bindingFor? at hb
  simp only [Option.bind_eq_bind, Option.bind_eq_some_iff, Option.pure_def, Option.some.injEq,
    Prod.mk.injEq] at hb
  obtain ⟨i, hi, b', -, rfl, -⟩ := hb
  exact hi

/-- **How a name has a value**: it is a global constant, or the initial value of its binding has a
value that is no array. -/
theorem valueOfBinding_eq_ok {ctx : Context} {fuel : Nat} {passed : List Nat} {p : Position}
    {name : String} {v : Value} :
    valueOfBinding ctx (fuel + 1) passed p name = .ok v ↔
      (ctx.analysis.bindingNumber? p = none ∧ globalValue? name = some v) ∨
      ∃ number initPlace init, ctx.constantInit? p = some (number, initPlace, init) ∧
        number ∉ passed ∧ v.isArray = false ∧
        valueOf (ctx.within fuel (number :: passed)) initPlace init = .ok v := by
  rw [valueOfBinding]
  cases hb : ctx.analysis.bindingNumber? p with
  | none =>
      have hnone : ∀ found, ctx.constantInit? p ≠ some found := by
        rintro ⟨number, initPlace, init⟩ h
        rw [bindingNumber?_of_constantInit? h] at hb
        cases hb
      simp only [hnone, true_and, false_and, exists_const, or_false]
      cases globalValue? name <;> simp
  | some k =>
      simp only [reduceCtorEq, false_and, false_or]
      cases hi : ctx.constantInit? p with
      | none => simp
      | some found =>
          obtain ⟨number, initPlace, init⟩ := found
          simp only [Option.some.injEq, Prod.mk.injEq, List.contains_iff_mem]
          constructor
          · intro h
            split at h
            · cases h
            · rename_i hpassed
              refine ⟨number, initPlace, init, ⟨rfl, rfl, rfl⟩, hpassed, ?_⟩
              split at h
              · cases h
              · rename_i w hne hw
                cases h
                refine ⟨?_, hw⟩
                cases v <;> first | rfl | exact absurd rfl (hne _)
              · cases h
          · rintro ⟨_, _, _, ⟨rfl, rfl, rfl⟩, hpassed, harray, hv⟩
            rw [if_neg hpassed]
            unfold Context.within at hv
            rw [hv]
            cases v <;> first | rfl | cases harray

end Descramble

import Descramble.Proofs.Encoded.Cleaning
import Descramble.Proofs.Encoded.Decoding
import Descramble.Proofs.Source.Printable

/-!
# Recovering the texts of a script with a string table

A run on a script with a string table decodes all calls in its first iteration, finds nothing more to
do in the second, and removes the statements that are not needed any more.

* `EncodedScript.iterate_tree` — one iteration.
* `EncodedScript.recover_decodes` — the run, for every `render` that gives the script a text before and
  after the calls are decoded.
* `EncodedScript.printable_tree` — the printer is such a `render`.
-/

set_option autoImplicit false

namespace Descramble

namespace EncodedScript

variable {s : EncodedScript}

/-! ## Iterations -/

/-- What is found in the script, at some point of a run. -/
def progress (s : EncodedScript) (iteration : Int) (changed : Bool) : RunState :=
  { s.found with iteration := iteration, changed := changed }

theorem map_resolved_map_resolved (args : List s.Argument) :
    (args.map resolved).map resolved = args.map resolved := by
  rw [List.map_map]
  exact List.map_congr_left fun arg _ => resolved_resolved arg

/-- The four passes decode all calls. -/
theorem applyPasses_tree (iteration : Int) (changed : Bool) (args : List s.Argument) :
    ∃ changes, (applyPasses (s.progress iteration changed) (tree args)).outcome =
      .ok (tree (args.map resolved), changes) := by
  obtain ⟨resolving, hresolve⟩ := resolveCalls_tree args
  obtain ⟨folding, hfold⟩ := foldConstants_tree (s.progress iteration changed) (args.map resolved)
  refine ⟨_, applyPasses_eq_ok.mpr ⟨_, _, resolving, folding, ?_, hfold, ?_, rfl⟩⟩
  · -- the pass does not look at how far the run is
    exact hresolve
  · rw [inlined_tree, normalized_tree]

section
variable {ε : Type} {render : Node → Except ε String}

/-- **One iteration**, from the start or later, decodes all calls; it counts as a change only if there
was one to decode. -/
theorem iterate_tree {state : RunState} {iteration : Int} {changed : Bool} {args : List s.Argument}
    (hbefore : ∃ text, render (tree args) = .ok text)
    (hafter : ∃ text, render (tree (args.map resolved)) = .ok text)
    (h : (discover (tree args) state).outcome = .ok (s.progress iteration changed)) :
    ∃ changed', (iterate render state (tree args)).outcome =
      .ok (tree (args.map resolved), s.progress (iteration + 1) changed') := by
  obtain ⟨before, hbefore⟩ := hbefore
  obtain ⟨after, hafter⟩ := hafter
  obtain ⟨changes, hpasses⟩ := applyPasses_tree iteration changed args
  exact ⟨before != after, iterate_eq_ok.mpr
    ⟨before, after, _, changes, hbefore, h, hpasses, hafter, rfl⟩⟩

/-- **Further iterations** find nothing to decode. -/
theorem iterateWhileChanged_tree {args : List s.Argument} (h : args.map resolved = args)
    (hrender : ∃ text, render (tree args) = .ok text) :
    ∀ (remaining : Nat) (iteration : Int) (changed : Bool), ∃ iteration' changed',
      (iterateWhileChanged render remaining (s.progress iteration changed) (tree args)).outcome =
        .ok (tree args, s.progress iteration' changed')
  | 0, iteration, changed => ⟨iteration, changed, rfl⟩
  | _ + 1, iteration, false => ⟨iteration, false, rfl⟩
  | remaining + 1, iteration, true => by
      have hfound : (discover (tree args) (s.progress iteration true)).outcome =
          .ok (s.progress iteration true) := rfl
      obtain ⟨changed₁, hfirst⟩ := iterate_tree hrender (h.symm ▸ hrender) hfound
      rw [h] at hfirst
      obtain ⟨iteration', changed', hrest⟩ :=
        iterateWhileChanged_tree h hrender remaining (iteration + 1) changed₁
      exact ⟨iteration', changed', Logged.bind_outcome_eq_ok.mpr ⟨_, hfirst, hrest⟩⟩

/-! ## The run -/

/-- **A run decodes a script with a string table.**  With at least one iteration, each call for which
the table has an entry becomes that entry, every other call stays as it is, and the loader, the
decoder and the aliases stay as far as the calls that are left need them.  Only the texts before and
after are needed of `render`. -/
theorem recover_decodes (calls : List s.Call) {maxIterations : Int} (hm : 1 ≤ maxIterations)
    (hbefore : ∃ text, render (tree (calls.map .call)) = .ok text)
    (hafter : ∃ text, render (tree (calls.map decoded)) = .ok text) :
    ∃ iteration changed, (recover render maxIterations (tree (calls.map .call))).outcome =
      .ok (cleaned (calls.map decoded), s.progress iteration changed) := by
  obtain ⟨remaining, hremaining⟩ : ∃ n, maxIterations.toNat = n + 1 :=
    ⟨maxIterations.toNat - 1, by omega⟩
  have hdecoded : (calls.map Argument.call).map resolved = calls.map decoded := List.map_map ..
  rw [← hdecoded] at hafter
  obtain ⟨changed₁, hfirst⟩ :=
    iterate_tree hbefore hafter (discover_tree (s := s) (calls.map .call))
  obtain ⟨iteration, changed, hrest⟩ :=
    iterateWhileChanged_tree (map_resolved_map_resolved (calls.map (Argument.call (s := s))))
      hafter remaining _ changed₁
  refine ⟨iteration, changed, recover_eq_ok.mpr ⟨tree (calls.map decoded), ?_, ?_⟩⟩
  · rw [hremaining, ← hdecoded]
    exact Logged.bind_outcome_eq_ok.mpr ⟨_, hfirst, hrest⟩
  · rw [sweptTree_tree]

end

/-! ## The printer -/

theorem printable_name {name : String} (h : name ∈ s.names ∨ name = s.user) :
    Printable (.ident name) := by
  refine printable_ident (s.valid name ?_)
  rcases h with h | rfl
  · exact List.mem_append_left _ h
  · exact List.mem_append_right _ (List.mem_singleton.mpr rfl)

theorem printable_local {name : String} (h : name ∈ s.form.locals) : Printable (.ident name) :=
  printable_name (Or.inl (mem_names_of_local h))

theorem printable_callee {j : Nat} {name : String} (h : s.callees[j]? = some name) :
    Printable (.ident name) :=
  printable_name (Or.inl (mem_names_of_callee h))

theorem printable_varOf {name : String} {init : Node} (hname : Printable (.ident name))
    (hinit : Printable init) : Printable (.varOf name init) :=
  printable_declaration (printable_declarator hname hinit) allPrintable_nil

theorem printable_loaderNode : Printable s.loaderNode := by
  have hloader : Printable (.ident s.loader) := printable_name (Or.inl List.mem_cons_self)
  have harray : Printable (.ident s.array) := printable_name (s := s) (Or.inl (by simp [names]))
  have htable := printable_array (@allPrintable_map _ (fun entry : TableEntry =>
    .lit (.text entry.text) entry.raw) s.entries fun entry _ => printable_text _ _)
  have hvariable := printable_varOf harray htable
  have hfunction : Printable (.functionOf [] [.returnOf (.ident s.array)]) :=
    printable_functionExpression allPrintable_nil
      (allPrintable_cons (printable_return harray) allPrintable_nil)
  have hredefinition : Printable (.statementOf (.assigned s.loader _)) :=
    printable_statement (printable_assignment hloader hfunction)
  have hresult := printable_return (printable_call hloader allPrintable_nil)
  exact printable_functionDeclaration hloader allPrintable_nil (allPrintable_cons hvariable
    (allPrintable_cons hredefinition (allPrintable_cons hresult allPrintable_nil)))

theorem printable_decoderNode : Printable s.decoderNode := by
  have hloader : Printable (.ident s.loader) := printable_name (Or.inl List.mem_cons_self)
  have hdecoder : Printable (.ident s.decoder) := printable_callee (j := 0) rfl
  have hlocal : ∀ name ∈ s.form.locals, Printable (.ident name) := fun _ h => printable_local h
  have hoffset : Printable s.offsetNode := printable_int s.offset_safe _
  rw [decoderNode]
  cases hform : s.form with
  | direct param table entry =>
      simp only [hform, DecoderForm.locals, List.forall_mem_cons] at hlocal
      obtain ⟨hparam, htable, hentry, -⟩ := hlocal
      have hfetch := printable_varOf htable (printable_call hloader allPrintable_nil)
      have hindex : Printable (.lessened param s.offsetNode) := printable_binary hparam hoffset
      have hlookup := printable_varOf hentry (printable_index htable hindex)
      exact printable_functionDeclaration hdecoder (allPrintable_cons hparam allPrintable_nil)
        (allPrintable_cons hfetch (allPrintable_cons hlookup
          (allPrintable_cons (printable_return hentry) allPrintable_nil)))
  | selfRedefining param spare table index other entry =>
      simp only [hform, DecoderForm.locals, List.forall_mem_cons] at hlocal
      obtain ⟨hparam, hspare, htable, hindex, hother, hentry, -⟩ := hlocal
      have hfetch := printable_varOf htable (printable_call hloader allPrintable_nil)
      have hlessened : Printable (.lessened index s.offsetNode) := printable_binary hindex hoffset
      have hassigned : Printable (.assigned index _) := printable_assignment hindex hlessened
      have hlookup := printable_varOf hentry (printable_index htable hindex)
      have hfunction : Printable (.functionOf [index, other] [.statementOf (.assigned index _), _, _]) :=
        printable_functionExpression
          (allPrintable_cons hindex (allPrintable_cons hother allPrintable_nil))
          (allPrintable_cons (printable_statement hassigned) (allPrintable_cons hlookup
            (allPrintable_cons (printable_return hentry) allPrintable_nil)))
      have hredefinition : Printable (.assigned s.decoder _) := printable_assignment hdecoder hfunction
      have hagain := printable_call hdecoder
        (allPrintable_cons hparam (allPrintable_cons hspare allPrintable_nil))
      have hresult := printable_return (printable_sequence
        (allPrintable_cons hredefinition (allPrintable_cons hagain allPrintable_nil)))
      exact printable_functionDeclaration hdecoder
        (allPrintable_cons hparam (allPrintable_cons hspare allPrintable_nil))
        (allPrintable_cons hfetch (allPrintable_cons hresult allPrintable_nil))

theorem printable_ofInt {v : Int} (h : Number.isSafe v = true) : Printable (.ofInt v) := by
  rcases ofInt_cases h with ⟨-, he⟩ | ⟨-, he⟩
  · rw [he]
    exact printable_int h _
  · rw [he]
    exact printable_unary (printable_int (by rw [Number.isSafe_neg, h]) _)

theorem printable_argument : ∀ arg : s.Argument, Printable arg.node
  | .call c => printable_call (printable_callee c.callee_eq)
      (allPrintable_cons (printable_ofInt c.safe) allPrintable_nil)
  | .text _ => printable_text _ _

/-- **The script has a text.** -/
theorem printable_tree (args : List s.Argument) : Printable (tree args) := by
  refine printable_program (allPrintable_map (f := id) fun n hn => ?_)
  obtain ⟨i, hi⟩ := List.mem_iff_getElem?.mp hn
  cases getElem?_statements.mp hi with
  | loader => exact printable_loaderNode
  | decoder => exact printable_decoderNode
  | aliased hname htarget =>
      exact printable_varOf (printable_callee (j := _ + 1) hname) (printable_callee htarget)
  | use =>
      exact printable_statement (printable_call (printable_name (Or.inr rfl))
        (allPrintable_map fun arg _ => printable_argument arg))

/-- `function A() {..}`, `function B(p, q) {..}`, `var k = B;`, `var j = k;` with the table `["x", "y"]`
and the offset 5. -/
def twoAliases : EncodedScript where
  source := "script"
  loader := "A"
  array := "t"
  decoder := "B"
  form := .selfRedefining "p" "q" "b" "x" "y" "d"
  aliases := ["k", "j"]
  user := "use"
  entries := [⟨"x", "\"x\""⟩, ⟨"y", "\"y\""⟩]
  offset := 5
  offsetRaw := "5"
  offset_safe := by decide
  distinct := by decide
  valid := by decide
  unlisted := by decide

/-- `j(6)`, `k(-1)`, `B(99)` -/
def threeCalls : List twoAliases.Call :=
  [⟨⟨2, by decide⟩, 6, by decide⟩, ⟨⟨1, by decide⟩, -1, by decide⟩, ⟨⟨0, by decide⟩, 99, by decide⟩]

/-- With the printer, the first call becomes a text, and the others keep all but the last alias:
`var k = B; use("y", k(-1), B(99));` -/
theorem recover_decodes_twoAliases :
    1 ≤ (1 : Int) ∧ (∃ text, print (tree (threeCalls.map .call)) = .ok text) ∧
    (∃ text, print (tree (threeCalls.map decoded)) = .ok text) ∧ ∃ iteration changed,
      (recover print 1 (tree (threeCalls.map .call))).outcome =
        .ok (.programOf "script" [twoAliases.loaderNode, twoAliases.decoderNode,
          .varOf "k" (.ident "B"), .statementOf (.callOf (.ident "use") [some (.ofText "y"),
            some (.callOf (.ident "k") [some (.ofInt (-1))]),
            some (.callOf (.ident "B") [some (.ofInt 99)])])],
          twoAliases.progress iteration changed) := by
  have hm : 1 ≤ (1 : Int) := by decide
  have hbefore := print_of_printable (printable_tree (threeCalls.map .call))
  have hafter := print_of_printable (printable_tree (threeCalls.map decoded))
  exact ⟨hm, hbefore, hafter, recover_decodes threeCalls hm hbefore hafter⟩

end EncodedScript

end Descramble

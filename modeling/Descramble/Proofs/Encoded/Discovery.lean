import Descramble.Proofs.Encoded.Nodes
import Descramble.Proofs.Run.Outcome

/-!
# Finding the table

* `EncodedScript.found` — what is to be found in a script with a string table.
* `EncodedScript.discover_tree` — the discovery finds it.
-/

set_option autoImplicit false

namespace Descramble

theorem integerLiteral?_lit {n : Number} {i : Int} {d : Double} (hd : n.toDouble = .ok d)
    (hwhole : d.isInteger = true) (hn : n.truncate? = some i) (raw : String) :
    (Node.lit (.number n) raw).integerLiteral? = .ok (some i) := by
  simp only [Node.integerLiteral?, Node.constant?, hd, hwhole, hn, bind, Except.bind, if_true]
  rfl

theorem literalTexts?_map (entries : List TableEntry) :
    literalTexts? (entries.map fun entry => some (.lit (.text entry.text) entry.raw)) =
      some (entries.map TableEntry.text) := by
  induction entries with
  | nil => rfl
  | cons entry entries ih => rw [List.map_cons, literalTexts?, ih]; rfl

namespace EncodedScript

variable {s : EncodedScript}

theorem integerLiteral?_offsetNode : s.offsetNode.integerLiteral? = .ok (some (s.offset : Int)) :=
  integerLiteral?_lit (Number.toDouble_int s.offset_safe) (Double.isInteger_ofInt s.offset_safe) rfl _

/-- The loader has the shape of a loader. -/
theorem loader?_loaderNode :
    loader? s.loaderNode = some ⟨s.loader, s.entries.map TableEntry.text⟩ := by
  simp [loader?, loaderNode, functionParts?, blockStatements?, firstDeclarator?, literalTexts?_map,
    selfRedefinition?, statementExpression?, Node.isIdentifier, isReturn]

/-- The loader is no decoder: it has the name of the loader. -/
theorem decoder?_loaderNode : decoder? (some s.loader) s.loaderNode = .ok none := by
  simp [decoder?, loaderNode, functionParts?, blockStatements?, firstDeclarator?]

/-- **The decoder has the shape of a decoder**, in both of its forms. -/
theorem decoder?_decoderNode :
    decoder? (some s.loader) s.decoderNode = .ok (some ⟨s.decoder, s.offset⟩) := by
  have hne : s.loader ≠ s.decoder := by
    have h := s.distinct
    simp only [List.cons_append, List.nodup_cons, List.mem_cons, not_or] at h
    exact h.1.2.1
  have hoffset : s.offsetNode.integerLiteral? = .ok (some (s.offset : Int)) :=
    integerLiteral?_offsetNode
  rw [decoderNode]
  cases s.form with
  | direct param table entry =>
      simp [decoder?, DecoderForm.declaration, functionParts?, blockStatements?, firstDeclarator?,
        hne, callsLoader, Node.isIdentifier, isReturn, redefinedDecoder?, offset?, Node.sites,
        Node.sitesAt, Node.slotSites, Node.childSites, firstResult?, offsetAt?, subtracted?,
        isOneOf, plainParameters, hoffset, bind, Except.bind, pure, Except.pure]
  | selfRedefining param spare table index other entry =>
      simp [decoder?, DecoderForm.declaration, functionParts?, blockStatements?, firstDeclarator?,
        hne, callsLoader, Node.isIdentifier, isReturn, redefinedDecoder?, returnedFirst?,
        selfRedefinition?, offset?, Node.sites, Node.sitesAt, Node.slotSites, Node.childSites,
        firstResult?, offsetAt?, subtracted?, hoffset, bind, Except.bind, pure, Except.pure]

/-- Is the node a function declaration? -/
def isFunctionDeclaration (n : Node) : Bool :=
  match n.kind with
  | .functionDeclaration _ => true
  | _ => false

theorem functionDeclarations_eq (t : Node) :
    functionDeclarations t = (t.sites.map Site.node).filter isFunctionDeclaration := rfl

/-- The loader declares no function but itself. -/
theorem filter_loaderNode (place : Position) :
    ((Node.sitesAt place s.loaderNode).map Site.node).filter isFunctionDeclaration =
      [s.loaderNode] := by
  have hentries : ∀ place, ((Node.childSites place 0 0 (s.entries.map fun entry =>
      some (Node.lit (.text entry.text) entry.raw))).map Site.node).filter isFunctionDeclaration =
        [] := by
    intro place
    refine List.filter_eq_nil_iff.mpr fun n hn => ?_
    obtain ⟨site, hsite, rfl⟩ := List.mem_map.mp hn
    obtain ⟨value, raw, hnode⟩ := lit_of_mem_entrySites hsite
    rw [hnode]
    exact Bool.false_ne_true
  simp only [loaderNode, Node.sitesAt, Node.slotSites, Node.childSites, List.map_cons, List.map_nil,
    List.map_append, List.filter_cons, List.filter_append, List.filter_nil, hentries]
  rfl

/-- The first function declarations of the script are the loader and the decoder. -/
theorem functionDeclarations_tree (args : List s.Argument) :
    ∃ rest, functionDeclarations (tree args) = s.loaderNode :: s.decoderNode :: rest := by
  obtain ⟨below, hbelow⟩ : ∃ below, Node.sitesAt [item 1] s.decoderNode =
      ⟨[item 1], s.decoderNode⟩ :: below := by
    rw [decoderNode]
    cases s.form <;> exact ⟨_, rfl⟩
  have hdecoder : isFunctionDeclaration s.decoderNode = true := by
    rw [decoderNode]
    cases s.form <;> rfl
  have hsites : (tree args).sites = ⟨[], tree args⟩ :: (Node.sitesAt [item 0] s.loaderNode ++
      (Node.sitesAt [item 1] s.decoderNode ++
        Node.childSites [] 0 2 ((s.aliasNodes ++ [useNode args]).map some)) ++ []) := rfl
  rw [functionDeclarations_eq, hsites, hbelow]
  simp only [List.map_cons, List.map_append, List.filter_cons, List.filter_append, filter_loaderNode,
    List.cons_append, List.nil_append, hdecoder, if_true]
  exact ⟨_, rfl⟩

/-- What is to be found in the script. -/
def found (s : EncodedScript) : RunState where
  table := s.entries.map TableEntry.text
  loaderName := some s.loader
  decoderName := some s.decoder
  offset := some (.int s.offset)
  decoderFound := true

/-- **The discovery finds the table, its loader and its decoder.** -/
theorem discover_tree (args : List s.Argument) :
    (discover (tree args) {}).outcome = .ok s.found := by
  obtain ⟨rest, hrest⟩ := functionDeclarations_tree args
  have hloader : findLoader? (tree args) = some ⟨s.loader, s.entries.map TableEntry.text⟩ := by
    rw [findLoader?, hrest, List.findSome?_cons, loader?_loaderNode]
  have hdecoder : findDecoder? (some s.loader) (tree args) = .ok (some ⟨s.decoder, s.offset⟩) := by
    rw [findDecoder?, hrest, firstResult?, decoder?_loaderNode]
    simp only [bind, Except.bind]
    rw [firstResult?, decoder?_decoderNode]
    rfl
  simp [discover, discoverLoader, discoverDecoder, hloader, hdecoder, Logged.bind_outcome_eq_ok,
    found]

end EncodedScript

end Descramble

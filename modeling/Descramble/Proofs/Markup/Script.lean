import Descramble.Document
import Descramble.Proofs.Markup.Collector
import Descramble.Proofs.Markup.Tag
import Descramble.Proofs.Run.Outcome

/-!
# The scripts of a page

Behind its start tag, a script goes up to the first end tag.  So a text without the start of an end
tag is found as it stands, whatever else is in it, and the page goes on behind the end tag.

* `Markup.search_endTag`, `Markup.search_endTag_eq_none` — where a text ends.
* `ScriptElement`, `pageOf`, `IsPageOf` — scripts as they stand in a page, and the page.
* `scriptsFrom_element`, `scriptsFrom_pageOf` — one script is taken off the page, and so are all.
* `scriptsOf_of_isPageOf` — the texts of the scripts of a page.
* `targetScript_eq_some_iff`, `targetScript_eq_none_iff` — which of them is the marked one.
* `extraction_verbatim` — what is found in a page, and what is recovered.
-/

set_option autoImplicit false

namespace Descramble

namespace Markup

/-! ## The end of a text -/

/-- Lower case changes nothing into a character in front of the small letters. -/
theorem eq_of_toLower {c d : Char} (h : c.toLower = d) (hd : d.toNat < 97) : c = d := by
  unfold Char.toLower at h
  split at h
  · rename_i hupper
    obtain ⟨hlow, hhigh⟩ := hupper
    rw [← h] at hd
    have hsum : (c.val + ('a'.val - 'A'.val)).toNat < 97 := hd
    rw [ge_iff_le, UInt32.le_iff_toNat_le] at hlow
    rw [UInt32.le_iff_toNat_le] at hhigh
    rw [UInt32.toNat_add] at hsum
    have : ('a'.val - 'A'.val).toNat = 32 := by decide
    have : 'A'.val.toNat = 65 := by decide
    have : 'Z'.val.toNat = 90 := by decide
    omega
  · exact h

/-- An end tag starts with a bracket and a slash. -/
theorem endTag_eq_none {name : String} {cs : List Char} (h : ¬ ['<', '/'] <+: cs) :
    endTag name cs = none := by
  have hstart : startsLike ['<', '/'] cs = false := by
    rw [← Bool.not_eq_true, startsLike, beq_iff_eq]
    intro hlike
    rcases cs with _ | ⟨c, _ | ⟨d, rest⟩⟩
    · simp at hlike
    · simp at hlike
    · obtain ⟨hc, hd⟩ : c.toLower = '<' ∧ d.toLower = '/' := by simpa using hlike
      rw [eq_of_toLower hc (by decide), eq_of_toLower hd (by decide)] at h
      exact h ⟨rest, rfl⟩
  rw [endTag, spaced, hstart]
  · rfl
  · simp

theorem endTag_script (rest : List Char) :
    endTag "script" ("</script>".toList ++ rest) = some 9 := by
  have hblanks : ∀ c cs, isSpace c = false → spanLength isSpace (c :: cs) = 0 := fun c cs hc => by
    rw [spanLength, List.takeWhile_cons_of_neg (by rw [hc]; exact Bool.false_ne_true)]
    rfl
  simp [endTag, spaced, startsLike, hblanks, show isSpace 's' = false by decide, isSpace_bracket]

/-- A character of a text without an end tag starts no end tag, also if the text is closed. -/
theorem not_prefix_append {c : Char} {s rest : List Char} (h : ¬ ['<', '/'] <:+: c :: s) :
    ¬ ['<', '/'] <+: c :: (s ++ ("</script>".toList ++ rest)) := by
  intro hstarts
  obtain ⟨rfl, hslash⟩ := List.cons_prefix_cons.mp hstarts
  -- behind the last character of the text stands the bracket of the end tag, which is no slash
  cases s with
  | nil => cases (List.cons_prefix_cons.mp hslash).1
  | cons d s =>
      obtain ⟨rfl, -⟩ := List.cons_prefix_cons.mp hslash
      exact h ⟨[], s, rfl⟩

theorem not_isInfix_of_cons {c : Char} {s : List Char} (h : ¬ ['<', '/'] <:+: c :: s) :
    ¬ ['<', '/'] <:+: s := fun hinside => h (hinside.trans (List.suffix_cons c s).isInfix)

/-- The text of a script goes up to its end tag. -/
theorem search_endTag (rest : List Char) : ∀ {s : List Char}, ¬ ['<', '/'] <:+: s →
    search (endTag "script") (s ++ ("</script>".toList ++ rest)) = some (s.length, 9)
  | [], _ => by
      have hend := endTag_script rest
      rw [List.nil_append]
      rw [show "</script>".toList ++ rest = '<' :: ("/script>".toList ++ rest) from rfl] at hend ⊢
      rw [search, hend]
      rfl
  | c :: s, h => by
      rw [List.cons_append, search, endTag_eq_none (not_prefix_append h),
        search_endTag rest (not_isInfix_of_cons h)]
      rfl

/-- A text without an end tag goes up to the end of the page. -/
theorem search_endTag_eq_none : ∀ {s : List Char}, ¬ ['<', '/'] <:+: s →
    search (endTag "script") s = none
  | [], h => by
      rw [search, endTag_eq_none fun hstarts => h hstarts.isInfix]
      rfl
  | c :: s, h => by
      rw [search, endTag_eq_none fun hstarts => h hstarts.isInfix,
        search_endTag_eq_none (not_isInfix_of_cons h)]
      rfl

/-! ## Scripts -/

/-- A script goes up to its end tag, or to the end of the page. -/
theorem scriptsFrom_script {opening after : List Char} {tag : StartTag} (fuel : Nat)
    (hbracket : opening.head? = some '<')
    (h : construct (opening ++ after) = .ok (.start tag opening.length))
    (hname : tag.name = "script") (hopen : tag.closed = false) :
    let found := Construct.start tag opening.length
    scriptsFrom (fuel + 1) (opening ++ after) =
      match search (endTag "script") after with
      | none => .ok (found.ownText after)
      | some (place, n) => (scriptsFrom fuel (after.drop (place + n))).map
          (found.ownText (after.take place) ++ ·) := by
  intro found
  obtain ⟨name, rfl⟩ := List.head?_eq_some_iff.mp hbracket
  have hstart : ('<' :: name ++ after).dropWhile (· != '<') = '<' :: (name ++ after) := rfl
  have hafter : ('<' :: (name ++ after)).drop (found.length ('<' :: (name ++ after))) = after :=
    List.drop_left
  have hraw : found.raw? = some "script" := by simp [found, Construct.raw?, hname, hopen]
  have hread : scriptsFrom (fuel + 1) ('<' :: name ++ after) = _ := scriptsFrom_cons hstart
  rw [List.cons_append] at h
  simp only [h, Except.bind] at hread
  rw [hafter, hraw] at hread
  exact hread

theorem construct_script (rest : List Char) :
    construct ('<' :: (scriptName ++ rest)) = .ok (startConstruct ('<' :: (scriptName ++ rest))) := by
  simp [construct, scriptName]

end Markup

/-! ## Elements -/

/-- A script as it stands in a page: with a text, or with a source and a text of no account. -/
inductive ScriptElement where
  | inline (text : String)
  | external (source text : String)

namespace ScriptElement

def opening : ScriptElement → String
  | inline _ => "<script>"
  | external source _ => "<script src=\"" ++ source ++ "\">"

def text : ScriptElement → String
  | inline text => text
  | external _ text => text

def closing : String := "</script>"

/-- The text that belongs to the page. -/
def inlineText? : ScriptElement → Option String
  | inline text => some text
  | external _ _ => none

/-- No part of the script ends another one early: the text starts no end tag, and the source, which
may be made up of letters, digits and dots, holds no quote. -/
structure IsPlain (e : ScriptElement) : Prop where
  text : ¬ ['<', '/'] <:+: e.text.toList
  source : ∀ source text, e = external source text → '"' ∉ source.toList

/-- What is read of the start tag. -/
def tag : ScriptElement → Markup.StartTag
  | inline _ => ⟨"script", [], false⟩
  | external _ _ => ⟨"script", ["src"], false⟩

variable {e : ScriptElement}

/-- The opening of a plain script is a start tag. -/
theorem exists_isTag (h : e.IsPlain) : ∃ gap attrs,
    e.opening.toList = '<' :: (Markup.scriptName ++ (gap ++ (attrs ++ ['>']))) ∧
      ∀ rest, Markup.IsTag Markup.scriptName gap attrs rest e.tag.attributes := by
  cases e with
  | inline text => exact ⟨[], [], by simp [opening, Markup.scriptName], Markup.isTag_script⟩
  | external source text =>
      refine ⟨[' '], Markup.sourceAttribute source.toList, ?_,
        Markup.isTag_source (h.source source text rfl)⟩
      simp [opening, Markup.scriptName, Markup.sourceAttribute]

/-- A plain script starts with a tag that is read whole. -/
theorem construct_opening (h : e.IsPlain) (rest : List Char) :
    Markup.construct (e.opening.toList ++ rest) = .ok (.start e.tag e.opening.toList.length) := by
  obtain ⟨gap, attrs, hopening, htag⟩ := exists_isTag h
  have hstart := (htag rest).startConstruct_eq
  have hname : e.tag = ⟨Markup.lowered Markup.scriptName, e.tag.attributes, false⟩ := by
    cases e <;> rfl
  have hlength : e.opening.toList.length =
      1 + Markup.scriptName.length + gap.length + attrs.length + 1 := by
    rw [hopening]
    simp only [List.length_cons, List.length_append, List.length_nil]
    omega
  rw [← hname, ← hlength] at hstart
  rw [← hstart, ← Markup.construct_script, hopening]
  simp only [List.cons_append, List.append_assoc, List.nil_append]

theorem name_tag (e : ScriptElement) : e.tag.name = "script" := by
  cases e <;> rfl

theorem closed_tag (e : ScriptElement) : e.tag.closed = false := by
  cases e <;> rfl

theorem head?_opening (h : e.IsPlain) : e.opening.toList.head? = some '<' := by
  obtain ⟨gap, attrs, hopening, -⟩ := exists_isTag h
  rw [hopening, List.head?_cons]

theorem ownText_tag (e : ScriptElement) (n : Nat) :
    (Markup.Construct.start e.tag n).ownText e.text.toList = e.inlineText?.toList := by
  cases e with
  | inline text => exact congrArg (fun text => [text]) String.ofList_toList
  | external source text => rfl

/-- A plain script is taken off the start of a page. -/
theorem scriptsFrom_element (h : e.IsPlain) (fuel : Nat) (rest : List Char) :
    Markup.scriptsFrom (fuel + 1)
        (e.opening.toList ++ (e.text.toList ++ (closing.toList ++ rest))) =
      (Markup.scriptsFrom fuel rest).map (e.inlineText?.toList ++ ·) := by
  have hend : Markup.search (Markup.endTag "script") (e.text.toList ++ (closing.toList ++ rest)) =
      some (e.text.toList.length, 9) := Markup.search_endTag rest h.text
  have hrest : (e.text.toList ++ (closing.toList ++ rest)).drop (e.text.toList.length + 9) =
      rest := by
    rw [← List.drop_drop, List.drop_left]
    rfl
  rw [Markup.scriptsFrom_script fuel (head?_opening h) (construct_opening h _) e.name_tag
    e.closed_tag, hend]
  simp only [hrest, List.take_left, ownText_tag]

/-- A plain script that is not closed is the last one. -/
theorem scriptsFrom_unclosed (h : e.IsPlain) (fuel : Nat) :
    Markup.scriptsFrom (fuel + 1) (e.opening.toList ++ e.text.toList) = .ok e.inlineText?.toList := by
  rw [Markup.scriptsFrom_script fuel (head?_opening h) (construct_opening h _) e.name_tag
    e.closed_tag, Markup.search_endTag_eq_none h.text, ownText_tag]

end ScriptElement

open ScriptElement

/-! ## Pages -/

/-- The page made up of some scripts. -/
def pageOf : List ScriptElement → String
  | [] => ""
  | e :: es => e.opening ++ e.text ++ closing ++ pageOf es

def inlineTexts (es : List ScriptElement) : List String := es.filterMap inlineText?

theorem toList_pageOf_cons (e : ScriptElement) (es : List ScriptElement) :
    (pageOf (e :: es)).toList =
      e.opening.toList ++ (e.text.toList ++ (closing.toList ++ (pageOf es).toList)) := by
  simp only [pageOf, String.toList_append, List.append_assoc]

theorem length_le_pageOf : ∀ es : List ScriptElement, es.length ≤ (pageOf es).toList.length
  | [] => Nat.zero_le _
  | e :: es => by
      have hrest := length_le_pageOf es
      have hclosing : closing.toList.length = 9 := by decide
      rw [toList_pageOf_cons]
      simp only [List.length_append, List.length_cons]
      omega

/-- **The scripts at the start of a page are read one after the other.** -/
theorem scriptsFrom_pageOf (fuel : Nat) (rest : List Char) : ∀ {es : List ScriptElement},
    (∀ e ∈ es, e.IsPlain) → Markup.scriptsFrom (fuel + es.length) ((pageOf es).toList ++ rest) =
      (Markup.scriptsFrom fuel rest).map (inlineTexts es ++ ·)
  | [], _ => by
      cases h : Markup.scriptsFrom fuel rest <;> simp [pageOf, inlineTexts, h, Except.map]
  | e :: es, h => by
      -- each script is one construct, so it takes one unit of the fuel
      rw [List.length_cons, ← Nat.add_assoc, toList_pageOf_cons]
      simp only [List.append_assoc]
      rw [scriptsFrom_element (h e List.mem_cons_self),
        scriptsFrom_pageOf fuel rest fun e' he => h e' (List.mem_cons_of_mem _ he)]
      cases Markup.scriptsFrom fuel rest with
      | error f => rfl
      | ok scripts => cases e <;> rfl

/-- The scripts of a page are those at its start and those of the rest. -/
theorem scriptsOf_append {es : List ScriptElement} {document : String} {rest : List Char}
    {texts : List String} (h : ∀ e ∈ es, e.IsPlain)
    (hdocument : document.toList = (pageOf es).toList ++ rest)
    (hrest : ∀ fuel, Markup.scriptsFrom (fuel + 1) rest = .ok texts)
    (resolve : String → String) :
    Markup.scriptsOf resolve document.toList = .ok (inlineTexts es ++ texts) := by
  have hle : es.length ≤ document.toList.length := by
    rw [hdocument, List.length_append]
    exact Nat.le_add_right_of_le (length_le_pageOf es)
  obtain ⟨fuel, hfuel⟩ := Nat.exists_eq_add_of_le' hle
  have hstart : document.toList.length + 1 = fuel + 1 + es.length := by omega
  rw [Markup.scriptsOf_eq_scriptsFrom, hstart, hdocument, scriptsFrom_pageOf (fuel + 1) rest h,
    hrest]
  rfl

/-- A page that some scripts make up; the end tag of the last one may be missing. -/
inductive IsPageOf (es : List ScriptElement) : String → Prop where
  | closed : IsPageOf es (pageOf es)
  | unclosed {before : List ScriptElement} {last : ScriptElement} : es = before ++ [last] →
    IsPageOf es (pageOf before ++ last.opening ++ last.text)

/-- **The texts of the scripts of a page are found as they are**, in their order, whatever the character
references of a page stand for. -/
theorem scriptsOf_of_isPageOf {es : List ScriptElement} {document : String}
    (h : ∀ e ∈ es, e.IsPlain) (hpage : IsPageOf es document) (resolve : String → String) :
    Markup.scriptsOf resolve document.toList = .ok (inlineTexts es) := by
  cases hpage with
  | closed =>
      have := scriptsOf_append h (List.append_nil _).symm (fun _ => rfl) resolve
      rwa [List.append_nil] at this
  | @unclosed before last hes =>
      subst hes
      have hlast : last.IsPlain := h last (by simp)
      have htexts : inlineTexts (before ++ [last]) =
          inlineTexts before ++ last.inlineText?.toList := by
        rw [inlineTexts, List.filterMap_append]
        cases last <;> rfl
      rw [htexts]
      refine scriptsOf_append (fun e he => h e (List.mem_append_left _ he)) ?_
        (scriptsFrom_unclosed hlast) resolve
      rw [String.toList_append, String.toList_append, List.append_assoc]

/-! ## The marked script -/

theorem Text.isSome_findAt? {needle : List Char} : ∀ {place : Nat} {cs : List Char},
    (findAt? needle place cs).isSome = true ↔ needle <:+: cs
  | place, [] => by
      rw [findAt?, List.infix_nil, ← List.isEmpty_iff]
      cases needle.isEmpty <;> simp
  | place, c :: rest => by
      rw [findAt?, List.infix_cons_iff, ← @isSome_findAt? needle (place + 1) rest]
      split
      · rename_i hstarts
        exact ⟨fun _ => .inl (List.isPrefixOf_iff_prefix.mp hstarts), fun _ => rfl⟩
      · rename_i hnot
        rw [List.isPrefixOf_iff_prefix] at hnot
        exact ⟨.inr, fun h => h.resolve_left hnot⟩

/-- The text holds the marker. -/
def Holds (marker text : String) : Prop := marker.toList <:+: text.toList

instance (marker text : String) : Decidable (Holds marker text) :=
  inferInstanceAs (Decidable (marker.toList <:+: text.toList))

/-- The text is the first one that holds the marker. -/
def IsFirstMarked (marker : String) (texts : List String) (text : String) : Prop :=
  ∃ before after, texts = before ++ text :: after ∧ Holds marker text ∧
    ∀ t ∈ before, ¬ Holds marker t

section
variable {marker : String} (hmarker : marker ≠ "")
include hmarker

theorem isTarget_iff (text : String) :
    (!text.isEmpty && Text.contains marker.toList text.toList) = true ↔ Holds marker text := by
  rw [Bool.and_eq_true, Text.contains, Text.isSome_findAt?, Bool.not_eq_true', ← Holds]
  refine ⟨And.right, fun h => ⟨?_, h⟩⟩
  rw [← Bool.not_eq_true, String.isEmpty_iff]
  rintro rfl
  exact hmarker (String.toList_eq_nil_iff.mp (List.infix_nil.mp h))

/-- **The first script that holds the marker is taken.** -/
theorem targetScript_eq_some_iff {texts : List String} {text : String} :
    targetScript marker texts = some text ↔ IsFirstMarked marker texts text := by
  rw [targetScript, List.find?_eq_some_iff_append, isTarget_iff hmarker]
  constructor
  · rintro ⟨htext, before, after, rfl, hbefore⟩
    refine ⟨before, after, rfl, htext, fun t ht => ?_⟩
    have := hbefore t ht
    rwa [Bool.not_eq_true', ← Bool.not_eq_true, isTarget_iff hmarker] at this
  · rintro ⟨before, after, rfl, htext, hbefore⟩
    refine ⟨htext, before, after, rfl, fun t ht => ?_⟩
    rw [Bool.not_eq_true', ← Bool.not_eq_true, isTarget_iff hmarker]
    exact hbefore t ht

theorem targetScript_eq_none_iff {texts : List String} :
    targetScript marker texts = none ↔ ∀ text ∈ texts, ¬ Holds marker text := by
  rw [targetScript, List.find?_eq_none]
  exact forall₂_congr fun text _ => not_congr (isTarget_iff hmarker text)

end

section
variable {document : String} {scripts : List String} {settings : Settings}
  {recoverSource : String → Int → Logged ScriptFailure String}
  (h : inlineScripts document = .ok scripts)
include h

theorem recoverMarked_of_some {text : String}
    (htarget : targetScript settings.marker scripts = some text) :
    let run := settleScript text (recoverSource text settings.maxIterations)
    recoverMarked recoverSource document settings = ⟨.scriptFound :: run.events, run.outcome⟩ := by
  simp only [recoverMarked, Logged.mapError_eq_ok.mpr h, Logged.ofExcept, bind, Logged.bind, htarget,
    Logged.report, List.nil_append, List.singleton_append]

theorem recoverMarked_of_none (htarget : targetScript settings.marker scripts = none) :
    recoverMarked recoverSource document settings = ⟨[.noScript noScriptMessage], .ok none⟩ := by
  simp only [recoverMarked, Logged.mapError_eq_ok.mpr h, Logged.ofExcept, bind, Logged.bind, htarget,
    Logged.report, List.nil_append, pure, List.append_nil]

end

/-- **Script text is taken from a page as it stands.**  Of a page made up of scripts, the end tag of the
last one present or not, the collector is told the texts of the scripts without a source, in their order
and unchanged; no character reference in them is replaced.  The first one that holds the marker is
handed on to be recovered, however this is done, and if none does, then this is said. -/
theorem extraction_verbatim {es : List ScriptElement} {document : String}
    (h : ∀ e ∈ es, e.IsPlain) (hpage : IsPageOf es document) :
    (∀ resolve : String → String,
        Markup.scriptsOf resolve document.toList = .ok (inlineTexts es)) ∧
      inlineScripts document = .ok (inlineTexts es) ∧
      (∀ marker : String, marker ≠ "" →
        (∀ text, (inlineScripts document).map (targetScript marker) = .ok (some text) ↔
          IsFirstMarked marker (inlineTexts es) text) ∧
        ((inlineScripts document).map (targetScript marker) = .ok none ↔
          ∀ text ∈ inlineTexts es, ¬ Holds marker text)) ∧
      ∀ (recoverSource : String → Int → Logged ScriptFailure String) (settings : Settings),
        settings.marker ≠ "" →
          (∀ text, IsFirstMarked settings.marker (inlineTexts es) text →
            let run := settleScript text (recoverSource text settings.maxIterations)
            recoverMarked recoverSource document settings =
              ⟨.scriptFound :: run.events, run.outcome⟩) ∧
          ((∀ text ∈ inlineTexts es, ¬ Holds settings.marker text) →
            recoverMarked recoverSource document settings =
              ⟨[.noScript noScriptMessage], .ok none⟩) := by
  have hscripts : inlineScripts document = .ok (inlineTexts es) := scriptsOf_of_isPageOf h hpage id
  refine ⟨scriptsOf_of_isPageOf h hpage, hscripts, fun marker hmarker => ⟨fun text => ?_, ?_⟩,
    fun recoverSource settings hmarker => ⟨fun text hfirst => ?_, fun hnone => ?_⟩⟩
  · rw [hscripts, ← targetScript_eq_some_iff hmarker]
    exact ⟨Except.ok.inj, congrArg _⟩
  · rw [hscripts, ← targetScript_eq_none_iff hmarker]
    exact ⟨Except.ok.inj, congrArg _⟩
  · exact recoverMarked_of_some hscripts ((targetScript_eq_some_iff hmarker).mpr hfirst)
  · exact recoverMarked_of_none hscripts ((targetScript_eq_none_iff hmarker).mpr hnone)

/-- A page whose last script is not closed. -/
theorem extraction_verbatim_unclosed :
    let before : List ScriptElement :=
      [.external "lib.min.js" "_0x0", .inline "a < b && \"&lt;\""]
    let last : ScriptElement := .inline "_0x1 < 2 /"
    let document := "<script src=\"lib.min.js\">_0x0</script>" ++
      "<script>a < b && \"&lt;\"</script>" ++ "<script>_0x1 < 2 /"
    (∀ e ∈ before ++ [last], e.IsPlain) ∧ IsPageOf (before ++ [last]) document ∧
      (∀ resolve : String → String, Markup.scriptsOf resolve document.toList =
        .ok ["a < b && \"&lt;\"", "_0x1 < 2 /"]) ∧
      inlineScripts document = .ok ["a < b && \"&lt;\"", "_0x1 < 2 /"] ∧
      (inlineScripts document).map (targetScript "_0x") = .ok (some "_0x1 < 2 /") ∧
      recoverDocument document ⟨"", "$$", 10⟩ = ⟨[.noScript noScriptMessage], .ok none⟩ := by
  intro before last document
  have hplain : ∀ e ∈ before ++ [last], e.IsPlain := by
    simp only [before, last, List.cons_append, List.nil_append, List.forall_mem_cons]
    exact ⟨⟨by decide +kernel, by rintro _ _ ⟨⟩; decide⟩, ⟨by decide +kernel, by rintro _ _ ⟨⟩⟩,
      ⟨by decide +kernel, by rintro _ _ ⟨⟩⟩, by simp⟩
  have hdocument : document = pageOf before ++ last.opening ++ last.text := by decide +kernel
  have hpage : IsPageOf (before ++ [last]) document := hdocument ▸ .unclosed rfl
  have hfirst : IsFirstMarked "_0x" (inlineTexts (before ++ [last])) "_0x1 < 2 /" :=
    ⟨["a < b && \"&lt;\""], [], rfl, by decide +kernel, by decide +kernel⟩
  have hnone : ∀ text ∈ inlineTexts (before ++ [last]), ¬ Holds "$$" text := by decide +kernel
  obtain ⟨hread, hscripts, htarget, hrecover⟩ := extraction_verbatim hplain hpage
  exact ⟨hplain, hpage, hread, hscripts, ((htarget "_0x" (by decide)).1 _).mpr hfirst,
    (hrecover recoverScript ⟨"", "$$", 10⟩ (by decide)).2 hnone⟩

end Descramble

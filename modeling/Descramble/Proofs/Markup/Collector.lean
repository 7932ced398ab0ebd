import Descramble.Markup.Script

/-!
# Collecting the scripts of a page

Between two constructs of a page no script is open, and the collector holds the scripts that have been
closed.  So what it has at the end can be read off the page construct by construct, with no buffer; how
character references are read is of no account, as they stand only in text that belongs to no script.

* `one_le_length`, `lt_length_of_search` — reading goes on.
* `scriptsFrom` — the scripts of a text, construct by construct.
* `Collector.foldl_events`, `Collector.foldl_raw` — what the collector makes of one construct, and of
  the raw text behind it.
* `map_run_readEvents` — what it makes of a whole text, by the number of characters left to read.
* `scriptsOf_eq_scriptsFrom` — so both read the same scripts off every page.
-/

set_option autoImplicit false

namespace Descramble.Markup

/-! ## Progress -/

theorem search_eq_some {recognise : List Char → Option Nat} : ∀ {cs : List Char} {place n : Nat},
    search recognise cs = some (place, n) → recognise (cs.drop place) = some n
  | [], place, n, h => by
      obtain ⟨m, hm, hpair⟩ := Option.map_eq_some_iff.mp h
      cases hpair
      exact hm
  | c :: rest, place, n, h => by
      rw [search] at h
      split at h
      · rename_i m hm
        cases h
        exact hm
      · obtain ⟨⟨place', m⟩, hrest, hpair⟩ := Option.map_eq_some_iff.mp h
        cases hpair
        exact @search_eq_some _ rest _ _ hrest

theorem le_of_lengthTo {start n : Nat} {recognise : List Char → Option Nat} {cs : List Char}
    (h : lengthTo start recognise cs = some n) : start ≤ n := by
  obtain ⟨⟨place, m⟩, -, hsum⟩ := Option.map_eq_some_iff.mp h
  have : start + place + m = n := hsum
  omega

theorem one_le_unfinishedLength (cs : List Char) : 1 ≤ unfinishedLength cs := by
  rw [unfinishedLength]
  split
  · rename_i n hn
    exact le_of_lengthTo hn
  · split
    · exact Nat.le_add_left 1 _
    · exact Nat.le_refl 1

theorem one_le_startTagLength? {cs : List Char} {n : Nat} (h : startTagLength? cs = some n) :
    1 ≤ n := by
  simp only [startTagLength?] at h
  split at h
  · cases h
  · cases h
    omega
  · cases h
    omega
  · split at h
    · cases h
    · cases h
      omega

/-- A construct takes up at least as much as its mark. -/
theorem one_le_ofLength {made : Nat → Construct} {start : Nat} {recognise : List Char → Option Nat}
    (cs : List Char) (hmade : ∀ n, (made n).length cs = n) (hstart : 1 ≤ start) :
    1 ≤ (Construct.ofLength made (lengthTo start recognise cs)).length cs := by
  cases h : lengthTo start recognise cs with
  | none => exact one_le_unfinishedLength cs
  | some n =>
      rw [Construct.ofLength, hmade]
      exact Nat.le_trans hstart (le_of_lengthTo h)

theorem one_le_startConstruct (cs : List Char) : 1 ≤ (startConstruct cs).length cs := by
  rw [startConstruct]
  split
  · exact one_le_unfinishedLength cs
  · rename_i n hn
    have := one_le_startTagLength? hn
    split <;> exact this

theorem one_le_endConstruct (cs : List Char) : 1 ≤ (endConstruct cs).length cs := by
  rw [endConstruct]
  split
  · exact one_le_ofLength cs (fun _ => rfl) (Nat.le_refl 1)
  · exact one_le_ofLength cs (fun _ => rfl) (Nat.le_refl 1)

theorem one_le_section {cs : List Char} {found : Construct} (h : section? cs = .ok found) :
    1 ≤ found.length cs := by
  simp only [section?] at h
  split at h
  · cases h
    exact one_le_unfinishedLength cs
  · split at h
    · cases h
    · split at h
      · cases h
        exact one_le_unfinishedLength cs
      · split at h
        · cases h
          exact one_le_ofLength cs (fun _ => rfl) (by decide)
        · split at h
          · cases h
            exact one_le_ofLength cs (fun _ => rfl) (by decide)
          · cases h

/-- **Each construct takes up some of the page.** -/
theorem one_le_length {cs : List Char} {found : Construct} (h : construct cs = .ok found) :
    1 ≤ found.length cs := by
  rw [construct.eq_def] at h
  split at h
  · cases h
    exact one_le_endConstruct _
  · cases h
    exact one_le_ofLength _ (fun _ => rfl) (by decide)
  · cases h
    exact one_le_ofLength _ (fun _ => rfl) (by decide)
  · exact one_le_section h
  · cases h
    refine one_le_ofLength _ (fun _ => rfl) ?_
    split <;> decide
  · cases h
    split
    · exact one_le_startConstruct _
    · exact Nat.le_refl 1
  · cases h
    exact Nat.le_refl 1

/-- **An end tag takes up some of the page.** -/
theorem lt_length_of_search {name : String} {cs : List Char} {place n : Nat}
    (h : search (endTag name) cs = some (place, n)) : (cs.drop (place + n)).length < cs.length := by
  have hfound : endTag name (cs.drop place) = some n := search_eq_some h
  have hn : 2 ≤ n := by
    rw [endTag, spaced] at hfound
    · split at hfound
      · obtain ⟨m, -, rfl⟩ := Option.map_eq_some_iff.mp hfound
        rw [List.length_cons, List.length_singleton]
        omega
      · cases hfound
    · simp
  have hplace : place < cs.length := Nat.lt_of_not_le fun hle => by
    rw [List.drop_eq_nil_of_le hle] at hfound
    cases hfound
  rw [List.length_drop]
  omega

/-! ## Scripts, construct by construct -/

/-- Is the construct the start of a script with a text of its own? -/
def Construct.opensScript : Construct → Bool
  | .start tag _ => tag.name == "script" && !tag.attributes.contains "src"
  | _ => false

/-- The text of a construct's script, if it opens one. -/
def Construct.ownText (found : Construct) (text : List Char) : List String :=
  if found.opensScript then [String.ofList text] else []

/-- The scripts of a text; `fuel` bounds the number of constructs.  The text of a script goes up to its
end tag; if it is not closed, then it goes to the end. -/
def scriptsFrom : (fuel : Nat) → List Char → Except MarkupFault (List String)
  | 0, _ => .ok []
  | fuel + 1, cs =>
    match cs.dropWhile (· != '<') with
    | [] => .ok []
    | c :: rest => do
      let cs := c :: rest
      let found ← construct cs
      let after := cs.drop (found.length cs)
      match found.raw? with
      | none => (scriptsFrom fuel after).map (found.ownText [] ++ ·)
      | some name =>
        match search (endTag name) after with
        | none => return found.ownText after
        | some (place, n) =>
          (scriptsFrom fuel (after.drop (place + n))).map (found.ownText (after.take place) ++ ·)

theorem Construct.name_of_opensScript {tag : StartTag} {n : Nat}
    (h : (Construct.start tag n).opensScript = true) : tag.name = "script" :=
  beq_iff_eq.mp (Bool.and_eq_true_iff.mp h).1

/-- Only a script has its text collected as it stands. -/
theorem Construct.name_of_raw? {found : Construct} {name : String} (hraw : found.raw? = some name)
    (hopen : found.opensScript = true) : name = "script" := by
  cases found with
  | start tag n =>
      rw [Construct.raw?] at hraw
      split at hraw
      · cases hraw
        exact Construct.name_of_opensScript hopen
      · cases hraw
  | _ => cases hraw

/-! ## The collector -/

namespace Collector

variable {resolve : String → String} {scripts : List String}

/-- Text that belongs to no script is of no account. -/
theorem foldl_textEvents (cs : List Char) :
    (textEvents resolve cs).foldl handle ⟨scripts, none⟩ = ⟨scripts, none⟩ := by
  rw [textEvents]
  split <;> rfl

/-- The collector behind a construct that may have opened a script. -/
def behind (scripts : List String) (found : Construct) : Collector :=
  ⟨scripts, if found.opensScript then some [] else none⟩

theorem handle_start (tag : StartTag) (n : Nat) :
    handle ⟨scripts, none⟩ (.start tag.name tag.attributes) = behind scripts (.start tag n) := by
  rw [handle, handleStart, behind, Construct.opensScript]
  by_cases hname : tag.name = "script"
  · cases hsource : tag.attributes.contains "src" <;> simp [hname]
  · simp [hname]

/-- **Raw text and its end tag** add to the scripts the text of the one that was open. -/
theorem foldl_raw {name : String} {found : Construct}
    (hname : found.opensScript = true → name = "script") (cs : List Char) :
    (textEvents id cs ++ [Event.finish name]).foldl handle (behind scripts found) =
      ⟨scripts ++ found.ownText cs, none⟩ := by
  rw [List.foldl_append, behind, Construct.ownText]
  cases hopen : found.opensScript with
  | false =>
      rw [if_neg Bool.false_ne_true, foldl_textEvents, if_neg Bool.false_ne_true, List.append_nil]
      rfl
  | true =>
      rw [hname hopen, textEvents]
      cases cs <;> simp [handle, handleData, handleFinish, String.join_nil]

/-- Raw text that is not closed is left of the page. -/
theorem close_behind (found : Construct) (cs : List Char) :
    (behind scripts found).close cs = scripts ++ found.ownText cs := by
  rw [behind, close, Construct.ownText]
  cases found.opensScript <;> simp [String.join_nil]

/-- **What the collector makes of a construct.**  A start tag of a script with a text of its own opens
it, and if it is closed at once, then its text is empty. -/
theorem foldl_events (cs : List Char) (found : Construct) :
    (found.events resolve cs).foldl handle ⟨scripts, none⟩ =
      if found.raw?.isSome then behind scripts found else ⟨scripts ++ found.ownText [], none⟩ := by
  have hidle : (⟨scripts, none⟩ : Collector) = ⟨scripts ++ [], none⟩ := by rw [List.append_nil]
  cases found with
  | start tag n =>
      have hend : (behind scripts (.start tag n)).handle (.finish tag.name) =
          ⟨scripts ++ (Construct.start tag n).ownText [], none⟩ :=
        foldl_raw Construct.name_of_opensScript []
      rw [Construct.events, List.foldl_cons, handle_start tag n]
      cases hclosed : tag.closed with
      | true => simpa [Construct.raw?, hclosed] using hend
      | false =>
          by_cases hraw : tag.name = "script" ∨ tag.name = "style"
          · simp [Construct.raw?, hclosed, hraw]
          · have hnot : (Construct.start tag n).opensScript = false := by
              rw [← Bool.not_eq_true]
              exact fun hopen => hraw (.inl (Construct.name_of_opensScript hopen))
            simp [Construct.raw?, Construct.ownText, hclosed, hraw, hnot, behind]
  | finish name n => exact hidle
  | text n => exact hidle
  | remark n => exact hidle
  | unfinished => exact hidle

/-- The collector goes on behind the first events. -/
theorem map_run_telling (c : Collector) (before : List Event)
    (told : Except MarkupFault (List Event × List Char)) :
    (telling before told).map c.run = told.map (before.foldl handle c).run := by
  cases told with
  | error f => rfl
  | ok told =>
      obtain ⟨later, left⟩ := told
      have hfold : (before ++ later).foldl handle c = later.foldl handle (before.foldl handle c) :=
        List.foldl_append
      exact congrArg (fun c : Collector => Except.ok (c.close left)) hfold

end Collector

/-! ## Whole texts -/

open Collector

section
variable {resolve : String → String} {fuel fuel' : Nat}

theorem map_append_map_append (front back : List String)
    (scripts : Except MarkupFault (List String)) :
    (scripts.map (back ++ ·)).map (front ++ ·) = scripts.map (front ++ back ++ ·) := by
  cases scripts with
  | error f => rfl
  | ok scripts => exact congrArg _ (List.append_assoc ..).symm

/-- Behind a start tag with raw text: the text is collected, if it is a script's, and reading goes on
behind the end tag. -/
theorem run_raw {found : Construct} {name : String}
    (hname : found.opensScript = true → name = "script") {cs : List Char} (scripts : List String)
    (hlater : ∀ n, (cs.drop n).length < cs.length → ∀ scripts : List String,
      (readEvents resolve fuel none (cs.drop n)).map (Collector.run ⟨scripts, none⟩) =
        (scriptsFrom fuel' (cs.drop n)).map (scripts ++ ·)) :
    (readEvents resolve (fuel + 1) (some name) cs).map (behind scripts found).run =
      (match search (endTag name) cs with
        | none => Except.ok (found.ownText cs)
        | some (place, n) =>
          (scriptsFrom fuel' (cs.drop (place + n))).map (found.ownText (cs.take place) ++ ·)).map
        (scripts ++ ·) := by
  rw [readEvents]
  cases hend : search (endTag name) cs with
  | none => exact congrArg Except.ok (close_behind found cs)
  | some found =>
      obtain ⟨place, n⟩ := found
      simp only [map_run_telling, foldl_raw hname, map_append_map_append]
      exact hlater _ (lt_length_of_search hend) _

section
variable {cs rest : List Char} {c : Char} (hcs : cs.dropWhile (· != '<') = c :: rest)
include hcs

theorem readEvents_cons : readEvents resolve (fuel + 1) none cs = (construct (c :: rest)).bind
    fun found => telling (textEvents resolve (cs.takeWhile (· != '<')) ++
      found.events resolve (c :: rest))
        (readEvents resolve fuel found.raw? ((c :: rest).drop (found.length (c :: rest)))) := by
  simp only [readEvents, hcs, bind]

theorem scriptsFrom_cons : scriptsFrom (fuel + 1) cs = (construct (c :: rest)).bind
    fun found =>
      let after := (c :: rest).drop (found.length (c :: rest))
      match found.raw? with
      | none => (scriptsFrom fuel after).map (found.ownText [] ++ ·)
      | some name =>
        match search (endTag name) after with
        | none => .ok (found.ownText after)
        | some (place, n) =>
          (scriptsFrom fuel (after.drop (place + n))).map
            (found.ownText (after.take place) ++ ·) := by
  simp only [scriptsFrom, hcs, bind, pure, Except.pure]

end

/-- **The collector, told of a text, holds the scripts of the text** at its end, whatever the character
references of the text stand for. -/
theorem map_run_readEvents : ∀ (fuel : Nat) {fuel' : Nat} {cs : List Char}, cs.length < fuel →
    cs.length < fuel' → ∀ scripts : List String,
      (readEvents resolve fuel none cs).map (Collector.run ⟨scripts, none⟩) =
        (scriptsFrom fuel' cs).map (scripts ++ ·) := by
  -- an end tag behind raw text is read in a step of its own, so the fuel falls by one or by two
  intro fuel
  induction fuel using Nat.strongRecOn with | ind fuel ih => ?_
  intro fuel' cs hfuel hfuel' scripts
  obtain ⟨fuel, rfl⟩ := Nat.exists_eq_add_one_of_ne_zero (Nat.ne_zero_of_lt hfuel)
  obtain ⟨fuel', rfl⟩ := Nat.exists_eq_add_one_of_ne_zero (Nat.ne_zero_of_lt hfuel')
  have hshort : (cs.dropWhile (· != '<')).length ≤ cs.length := (List.dropWhile_suffix _).length_le
  cases hcs : cs.dropWhile (· != '<') with
  | nil =>
      simp only [readEvents, scriptsFrom, hcs]
      refine congrArg Except.ok ?_
      rw [run, foldl_textEvents]
      exact (List.append_nil scripts).symm
  | cons c rest =>
      rw [hcs, List.length_cons] at hshort
      rw [readEvents_cons hcs, scriptsFrom_cons hcs]
      cases hfound : construct (c :: rest) with
      | error f => rfl
      | ok found =>
          have hlength := one_le_length hfound
          have hafter : ((c :: rest).drop (found.length (c :: rest))).length < cs.length := by
            rw [List.length_drop, List.length_cons]
            omega
          simp only [Except.bind, map_run_telling, List.foldl_append, foldl_textEvents, foldl_events]
          cases hraw : found.raw? with
          | none =>
              simp only [Option.isSome_none, Bool.false_eq_true, if_false, map_append_map_append]
              exact ih fuel (Nat.lt_succ_self fuel) (by omega) (by omega) _
          | some name =>
              obtain ⟨fuel, rfl⟩ : ∃ n, fuel = n + 1 := ⟨fuel - 1, by omega⟩
              simp only [Option.isSome_some, if_true]
              exact run_raw (Construct.name_of_raw? hraw) scripts fun n hn scripts =>
                ih fuel (by omega) (by omega) (by omega) scripts

end

/-- **Every page is read alike** by the collector and construct by construct. -/
theorem scriptsOf_eq_scriptsFrom (resolve : String → String) (cs : List Char) :
    scriptsOf resolve cs = scriptsFrom (cs.length + 1) cs := by
  have h := @map_run_readEvents resolve _ _ _ (Nat.lt_succ_self cs.length)
    (Nat.lt_succ_self cs.length) []
  rw [scriptsOf, start, h]
  cases scriptsFrom (cs.length + 1) cs <;> rfl

end Descramble.Markup

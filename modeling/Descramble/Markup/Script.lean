import Descramble.Markup.Event

/-!
# Scripts of a page

* `Collector` — the scripts that have been closed, and the text of the one that is open.
* `inlineScripts` — the texts of the scripts that stand in a page, in order.  A script with a source
  of its own is left out, and so is what comments and style sheets hold.
* `targetScript` — the first script that holds a marker.
-/

set_option autoImplicit false

namespace Descramble

namespace Markup

/-! ## Collecting -/

/-- The scripts that have been closed, and the pieces of the one that is open. -/
structure Collector where
  scripts : List String
  buffer : Option (List String)
  deriving DecidableEq, Repr

namespace Collector

def start : Collector := ⟨[], none⟩

/-- A script is opened; one with a source of its own holds no code. -/
def handleStart (name : String) (attributes : List String) (c : Collector) : Collector :=
  if name != "script" then c
  else if attributes.contains "src" then { c with buffer := none }
  else { c with buffer := some [] }

/-- The script that is open is closed. -/
def handleFinish (name : String) (c : Collector) : Collector :=
  match c.buffer with
  | some pieces =>
    if name == "script" then ⟨c.scripts ++ [String.join pieces], none⟩ else c
  | none => c

/-- Text belongs to the script that is open. -/
def handleData (text : String) (c : Collector) : Collector :=
  match c.buffer with
  | some pieces => { c with buffer := some (pieces ++ [text]) }
  | none => c

def handle (c : Collector) : Event → Collector
  | .start name attributes => c.handleStart name attributes
  | .finish name => c.handleFinish name
  | .data text => c.handleData text

/-- All scripts at the end of a page: to the one that is open belongs what is left of the page. -/
def close (left : List Char) (c : Collector) : List String :=
  match c.buffer with
  | some pieces => c.scripts ++ [String.join pieces ++ String.ofList left]
  | none => c.scripts

/-- All scripts at the end of a page of which the events and the rest are given. -/
def run (c : Collector) (told : List Event × List Char) : List String :=
  (told.1.foldl handle c).close told.2

end Collector

/-- The scripts of a text whose character references `resolve` replaces. -/
def scriptsOf (resolve : String → String) (cs : List Char) : Except MarkupFault (List String) :=
  (readEvents resolve (cs.length + 1) none cs).map Collector.start.run

end Markup

/-- The scripts that stand in a page.  No character reference is replaced, as a script holds none. -/
def inlineScripts (document : String) : Except MarkupFault (List String) :=
  Markup.scriptsOf id document.toList

/-- The first script that is not empty and holds the marker. -/
def targetScript (marker : String) (scripts : List String) : Option String :=
  scripts.find? fun script => !script.isEmpty && Text.contains marker.toList script.toList

/-- What is said when no script holds the marker. -/
def noScriptMessage : String :=
  "Could not find an *inline, obfuscated* <script> tag to deobfuscate."

end Descramble

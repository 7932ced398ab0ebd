import Descramble.Text
import Descramble.Text.Utf8

/-!
# Links to the viewer page

* `percentEncoded` — a text in which all but letters, digits and a few marks are written as bytes.
* `viewerLink` — the link that carries a text to the viewer page.
-/

set_option autoImplicit false

namespace Descramble

/-- Letters, digits and the marks that stand for themselves in a link. -/
def standsForItself (c : Char) : Bool := c.isAlphanum || "-_.!~*'()".toList.contains c

/-- A byte as a percent sign and two hexadecimal digits. -/
def percentByte (byte : Nat) : List Char := '%' :: Text.hexDigits true 2 byte

/-- A character as it stands in a link. -/
def percentChar (c : Char) : List Char :=
  if standsForItself c then [c] else (utf8 c).flatMap percentByte

def percentEncoded (text : String) : String := String.ofList (text.toList.flatMap percentChar)

/-- The link that carries a text to the viewer page at a path. -/
def viewerLink (path code : String) : String := "file://" ++ path ++ "#" ++ percentEncoded code

end Descramble

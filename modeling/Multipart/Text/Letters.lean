/-!
# Letter case

Header names, attribute names and media types are compared without
regard to the case of the letters A to Z. No other character has a
second form here.
-/

namespace Multipart

namespace Text

/-- A text with the letters A to Z in lower case. -/
def foldCase (text : List Char) : List Char := text.map Char.toLower

/-- Whether two texts differ at most in the case of the letters A to Z. -/
def sameLetters (a b : List Char) : Bool := foldCase a == foldCase b

theorem sameLetters_iff {a b : List Char} : sameLetters a b = true ↔ foldCase a = foldCase b := by
  simp [sameLetters]

end Text

end Multipart

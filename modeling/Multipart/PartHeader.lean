import Multipart.Attribute
import Multipart.Text.Letters

/-!
# Header lines of a part

Two headers say something about a part: Content-Disposition, with its
attributes, and Content-Type. Every other line, also one without a
colon, is passed over.
-/

namespace Multipart

/-- What a header line of a part says. -/
inductive PartHeader where
  | disposition (attributes : List Attribute)
  | contentType (value : List Char)
  | other
  deriving DecidableEq, Repr

namespace PartHeader

def dispositionName : List Char :=
  ['c', 'o', 'n', 't', 'e', 'n', 't', '-', 'd', 'i', 's', 'p', 'o', 's', 'i', 't', 'i', 'o', 'n']

def contentTypeName : List Char :=
  ['c', 'o', 'n', 't', 'e', 'n', 't', '-', 't', 'y', 'p', 'e']

/-- Reads a header line. The name ends at the first colon and is compared
without regard to case. -/
def parse (line : List Char) : PartHeader :=
  match Text.cutAt? ':' line with
  | none => .other
  | some (name, value) =>
    if Text.sameLetters (Text.trim name) dispositionName then
      .disposition (Attribute.parseAll (Text.trim value))
    else if Text.sameLetters (Text.trim name) contentTypeName then
      .contentType (Text.trim value)
    else .other

end PartHeader

end Multipart

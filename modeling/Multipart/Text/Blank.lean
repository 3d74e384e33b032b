/-!
# Blanks

The characters that count as white space around names and values: the
Unicode property `White_Space`, 25 characters in all. `trim` takes them
off both ends of a text.
-/

namespace Multipart

namespace Text

/-- The ranges of code points with the property `White_Space`. -/
def blankRanges : List (Nat × Nat) :=
  [(0x09, 0x0D), (0x20, 0x20), (0x85, 0x85), (0xA0, 0xA0), (0x1680, 0x1680), (0x2000, 0x200A),
    (0x2028, 0x2029), (0x202F, 0x202F), (0x205F, 0x205F), (0x3000, 0x3000)]

def isBlank (c : Char) : Bool := blankRanges.any fun r => r.1 ≤ c.toNat && c.toNat ≤ r.2

/-- Takes characters with a property off both ends of a text. -/
def strip (p : Char → Bool) (text : List Char) : List Char :=
  ((text.dropWhile p).reverse.dropWhile p).reverse

def trim (text : List Char) : List Char := strip isBlank text

/-- A text without double quotes at its ends. -/
def trimQuotes (text : List Char) : List Char := strip (· == '"') text

end Text

end Multipart

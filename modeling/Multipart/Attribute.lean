import Multipart.Text.Blank
import Multipart.Text.Split

/-!
# Attribute lists

The value of a Content-Disposition header is a list of attributes,
separated by semicolons. A semicolon between double quotes separates
nothing. An attribute is a token with a value after the first equals
sign, or a token alone, whose value is empty; blanks around both and
quotes around the value are not part of them. Attributes that are all
blank are left out.
-/

namespace Multipart

/-- A token and its value. -/
structure Attribute where
  token : List Char
  value : List Char
  deriving DecidableEq, Repr

namespace Attribute

/-- The pieces of a text between the semicolons outside quotes.
`inQuotes` says whether the text starts inside. -/
def pieces (inQuotes : Bool) : List Char → List (List Char)
  | [] => [[]]
  | c :: rest =>
    if c = ';' ∧ inQuotes = false then [] :: pieces false rest
    else
      match pieces (if c = '"' then !inQuotes else inQuotes) rest with
      | [] => [[c]]
      | piece :: later => (c :: piece) :: later

theorem pieces_ne_nil (inQuotes : Bool) (text : List Char) : pieces inQuotes text ≠ [] := by
  cases text with
  | nil => simp [pieces]
  | cons c rest =>
    rw [pieces]
    split
    · simp
    · split <;> simp

/-- Reads one attribute from the text between two separators. -/
def ofPiece? (piece : List Char) : Option Attribute :=
  match Text.trim piece with
  | [] => none
  | trimmed =>
    match Text.cutAt? '=' trimmed with
    | some (token, value) => some ⟨Text.trim token, Text.trimQuotes (Text.trim value)⟩
    | none => some ⟨trimmed, []⟩

/-- The attributes of a text, in order. -/
def parseAll (text : List Char) : List Attribute := (pieces false text).filterMap ofPiece?

end Attribute

end Multipart

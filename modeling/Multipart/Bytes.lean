/-!
# Bytes

Bodies, lines and file contents are lists of bytes. This module names
the framing bytes and says how one line end is taken off: a lone
carriage return from a line that was cut at its line feed
(`Bytes.dropCr`), a whole CRLF from the data in front of a delimiter
(`Bytes.trimCrlf`). Both take off at most one.
-/

namespace Multipart

abbrev Bytes := List UInt8

namespace Bytes

def cr : UInt8 := 13

def lf : UInt8 := 10

/-- The hyphen that delimiters are made with. -/
def hyphen : UInt8 := 45

/-- The line end that the framing puts in front of a delimiter. -/
def crlf : Bytes := [cr, lf]

/-- Takes `tail` off the end of `bytes` if it stands there, once. -/
def dropTail (tail bytes : Bytes) : Bytes :=
  if tail.isSuffixOf bytes then bytes.take (bytes.length - tail.length) else bytes

/-- A line without one trailing carriage return. -/
def dropCr (line : Bytes) : Bytes := dropTail [cr] line

/-- Part data without the one CRLF that belongs to the delimiter after it. -/
def trimCrlf (data : Bytes) : Bytes := dropTail crlf data

theorem dropTail_append (bytes tail : Bytes) : dropTail tail (bytes ++ tail) = bytes := by
  simp [dropTail]

theorem dropTail_of_not_suffix {tail bytes : Bytes} (h : ¬ tail <:+ bytes) :
    dropTail tail bytes = bytes := by
  simp [dropTail, h]

theorem dropTail_cases (tail bytes : Bytes) :
    bytes = dropTail tail bytes ∨ bytes = dropTail tail bytes ++ tail := by
  by_cases h : tail <:+ bytes
  · obtain ⟨front, rfl⟩ := h
    exact .inr (by rw [dropTail_append])
  · exact .inl (dropTail_of_not_suffix h).symm

theorem dropTail_prefix (tail bytes : Bytes) : dropTail tail bytes <+: bytes := by
  rcases dropTail_cases tail bytes with h | h
  · exact ⟨[], by rw [List.append_nil, ← h]⟩
  · exact ⟨tail, h.symm⟩

end Bytes

end Multipart

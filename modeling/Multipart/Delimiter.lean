import Multipart.Text.Utf8

/-!
# Delimiters

A delimiter is the byte string that ends part data: two hyphens and the
boundary token. `Delimiter.find?` looks for its leftmost occurrence.
Where there is none yet, the end of the window may still be the start
of one, and the CRLF in front of it is framing too; `holdback` says how
many bytes must therefore stay unread.
-/

namespace Multipart

namespace Delimiter

/-- The delimiter that a boundary token makes. -/
def ofToken (token : String) : Bytes := [Bytes.hyphen, Bytes.hyphen] ++ Text.toBytes token

/-- The leftmost place of `marker` at or after the head of the window,
counted from `index`. -/
def findFrom (marker : Bytes) : Nat → Bytes → Option Nat
  | _, [] => none
  | index, window@(_ :: rest) =>
    if marker.isPrefixOf window then some index else findFrom marker (index + 1) rest

/-- The leftmost place where `marker` stands in `window`. An empty
marker is found nowhere. -/
def find? (window marker : Bytes) : Option Nat :=
  if marker.isEmpty then none else findFrom marker 0 window

/-- How many bytes at the end of a window without the marker stay
unread: all but one byte of a marker that is still arriving, and the
CRLF in front of it. -/
def holdback (marker : Bytes) : Nat := marker.length + 1

theorem findFrom_lt {marker : Bytes} {index place : Nat} {window : Bytes}
    (h : findFrom marker index window = some place) :
    index ≤ place ∧ place < index + window.length := by
  fun_induction findFrom marker index window with
  | case1 => cases h
  | case2 index b rest _ =>
    cases h
    exact ⟨Nat.le_refl _, by simp⟩
  | case3 index b rest _ ih =>
    have := ih h
    simp only [List.length_cons]
    omega

/-- A marker is found inside the window. -/
theorem find?_lt {window marker : Bytes} {place : Nat} (h : find? window marker = some place) :
    place < window.length := by
  rw [find?] at h
  split at h
  · cases h
  · have := findFrom_lt h
    omega

end Delimiter

end Multipart

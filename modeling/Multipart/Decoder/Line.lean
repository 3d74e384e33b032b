import Multipart.Bytes

/-!
# Lines

Boundary lines and header lines end at a line feed, or at the end of the
body. A line is too long by the bytes in front of its line feed, a
carriage return counted, and is refused as soon as that many bytes are
there, whether or not its end is.
-/

namespace Multipart

/-- What can be cut off the front of unread bytes. -/
inductive Line where
  | incomplete
  | tooLong
  /-- The content of a line without its line end, and how many bytes the
  line takes up with it. -/
  | whole (content : Bytes) (length : Nat)
  deriving DecidableEq, Repr

namespace Line

def body (window : Bytes) : Bytes := window.takeWhile (· != Bytes.lf)

def isTerminated (window : Bytes) : Bool := !(window.dropWhile (· != Bytes.lf)).isEmpty

/-- Cuts a line off. At the end of the body what is left is a line, unless
nothing is. -/
def next (maxLength : Nat) (atEnd : Bool) (window : Bytes) : Line :=
  if (body window).length > maxLength then .tooLong
  else if isTerminated window then .whole (Bytes.dropCr (body window)) ((body window).length + 1)
  else if atEnd && !window.isEmpty then .whole (Bytes.dropCr (body window)) (body window).length
  else .incomplete

theorem length_body_lt {window : Bytes} (h : isTerminated window = true) :
    (body window).length < window.length := by
  have split := congrArg List.length
    (List.takeWhile_append_dropWhile (p := (· != Bytes.lf)) (l := window))
  rw [List.length_append] at split
  have : (window.dropWhile (· != Bytes.lf)) ≠ [] := by simpa [isTerminated] using h
  have := List.length_pos_iff.mpr this
  rw [body]
  omega

/-- Without a line feed the bytes in front of it are all there are. -/
theorem body_eq_self {window : Bytes} (h : isTerminated window = false) : body window = window := by
  have split := List.takeWhile_append_dropWhile (p := (· != Bytes.lf)) (l := window)
  have : window.dropWhile (· != Bytes.lf) = [] := by simpa [isTerminated] using h
  rw [this, List.append_nil] at split
  exact split

/-- A line takes up at least one byte and no more than there are. -/
theorem length_bounds {maxLength : Nat} {atEnd : Bool} {window content : Bytes} {length : Nat}
    (h : next maxLength atEnd window = .whole content length) :
    0 < length ∧ length ≤ window.length := by
  rw [next] at h
  split at h
  · cases h
  · split at h
    · next ht =>
      cases h
      have := length_body_lt ht
      omega
    · next hn =>
      split at h
      · next he =>
        cases h
        rw [body_eq_self (by simpa using hn)]
        have : window ≠ [] := by simp_all
        exact ⟨List.length_pos_iff.mpr this, Nat.le_refl _⟩
      · cases h

end Line

/-- What a line is to a decoder that expects a boundary. -/
inductive BoundaryLine where
  | opening
  /-- The body ends: two hyphens and nothing else after the delimiter. -/
  | closing
  | malformed
  deriving DecidableEq, Repr

def BoundaryLine.ofLine (delimiter line : Bytes) : BoundaryLine :=
  if !delimiter.isPrefixOf line then .malformed
  else if line.drop delimiter.length = [Bytes.hyphen, Bytes.hyphen] then .closing
  else .opening

end Multipart

import Multipart.Decoder.Line
import Multipart.Decoder.Header
import Multipart.Decoder.PartData

/-!
# One step of a decoder

`Decoder.next` looks at the unread bytes and does one thing: takes a
line, copies data, or completes a part. `next_advance` is what lets a
run of steps end: a step uses up no more than there is, and the one step
that may use up nothing, at a delimiter with no data in front of it,
leaves part data for the boundary line, which does use up something.
-/

namespace Multipart

/-- What one step of a decoder does. -/
inductive Move where
  /-- Nothing: more bytes are needed. -/
  | wait
  /-- Nothing: the body is complete. -/
  | finished
  | advance (used : Nat) (decoder : Decoder) (storage : Storage)
  /-- Fails. The decoder is as it was when the error came up. -/
  | fail (error : UploadError) (decoder : Decoder) (storage : Storage)

namespace Decoder

/-- Reads a boundary line. -/
def boundaryLine (d : Decoder) (line : Bytes) (used : Nat) (s : Storage) : Move :=
  match BoundaryLine.ofLine d.delimiter line with
  | .malformed => .fail (.protocol .incompleteBoundary) d s
  | .closing => .advance used { d with stage := .ended } s
  | .opening => .advance used { d with stage := .headerLines none } s

/-- Reads a header line. The empty one ends them: the part must be named
by then. -/
def headerLine (d : Decoder) (heading : Option Heading) (line : Bytes) (used : Nat) (s : Storage) :
    Move :=
  if line.isEmpty then
    match heading with
    | none => .fail (.protocol .missingName) d s
    | some h => .advance used { d with stage := .partData h.name (.ofHeading h) } s
  else
    let described := Heading.read d.settings (Text.decode line) heading s
    let after := { d with stage := .headerLines described.heading }
    match described.error with
    | some e => .fail e after described.storage
    | none => .advance used after described.storage

/-- Reads part data: up to the delimiter if it is there, which completes
the part, and else all that cannot be framing. -/
def partData (d : Decoder) (name : String) (content : Content) (window : Bytes) (s : Storage) :
    Move :=
  match Delimiter.find? window d.delimiter with
  | some place =>
    match content.write d.settings.maxFieldSize (Bytes.trimCrlf (window.take place)) s with
    | .error e => .fail e d s
    | .ok (content, s) =>
      let published := d.form.publishPart name s content
      .advance place { d with stage := .boundaryLine, form := published.1 } published.2
  | none =>
    let safe := window.length - Delimiter.holdback d.delimiter
    if safe = 0 then .wait
    else
      match content.write d.settings.maxFieldSize (window.take safe) s with
      | .error e => .fail e d s
      | .ok (content, s) => .advance safe { d with stage := .partData name content } s

/-- One step on the unread bytes. `atEnd` says that no more will come. -/
def next (d : Decoder) (s : Storage) (window : Bytes) (atEnd : Bool) : Move :=
  match d.stage with
  | .boundaryLine =>
    match Line.next d.settings.maxLineLength atEnd window with
    | .incomplete => .wait
    | .tooLong => .fail (.protocol .lineTooLong) d s
    | .whole line used => d.boundaryLine line used s
  | .headerLines heading =>
    match Line.next d.settings.maxLineLength atEnd window with
    | .incomplete => .wait
    | .tooLong => .fail (.protocol .lineTooLong) d s
    | .whole line used => d.headerLine heading line used s
  | .partData name content => d.partData name content window s
  | .ended => .finished
  | .failed _ => .fail (.protocol .alreadyFailed) d s

/-! ## Steps end -/

/-- What breaks the tie between steps that use up nothing. -/
def rank (d : Decoder) : Nat :=
  match d.stage with
  | .partData _ _ => 1
  | _ => 0

theorem boundaryLine_advance {d d' : Decoder} {line : Bytes} {used n : Nat} {s s' : Storage}
    (h : d.boundaryLine line used s = .advance n d' s') : n = used := by
  rw [boundaryLine] at h
  split at h <;> cases h <;> rfl

theorem headerLine_advance {d d' : Decoder} {heading : Option Heading} {line : Bytes}
    {used n : Nat} {s s' : Storage} (h : d.headerLine heading line used s = .advance n d' s') :
    n = used := by
  unfold headerLine at h
  split at h
  · split at h <;> cases h
    rfl
  · dsimp only at h
    split at h <;> cases h
    rfl

theorem partData_advance {d d' : Decoder} {name : String} {content : Content} {window : Bytes}
    {n : Nat} {s s' : Storage} (h : d.partData name content window s = .advance n d' s') :
    n ≤ window.length ∧ (n = 0 → d'.rank = 0) := by
  rw [partData] at h
  split at h
  · next place found =>
    split at h
    · cases h
    · cases h
      exact ⟨Nat.le_of_lt (Delimiter.find?_lt found), fun _ => rfl⟩
  · dsimp only at h
    split at h
    · cases h
    · next positive =>
      split at h
      · cases h
      · cases h
        exact ⟨by omega, fun zero => absurd zero positive⟩

/-- A step uses up no more than there is, and one that uses up nothing
goes down in rank. -/
theorem next_advance {d d' : Decoder} {s s' : Storage} {window : Bytes} {atEnd : Bool} {n : Nat}
    (h : d.next s window atEnd = .advance n d' s') :
    n ≤ window.length ∧ (n = 0 → d'.rank < d.rank) := by
  rw [next] at h
  split at h
  · split at h
    · cases h
    · cases h
    · next cut =>
      have bounds := Line.length_bounds cut
      have := boundaryLine_advance h
      exact ⟨by omega, by omega⟩
  · split at h
    · cases h
    · cases h
    · next cut =>
      have bounds := Line.length_bounds cut
      have := headerLine_advance h
      exact ⟨by omega, by omega⟩
  · next stage =>
    obtain ⟨le, down⟩ := partData_advance h
    refine ⟨le, fun zero => ?_⟩
    rw [down zero, rank, stage]
    exact Nat.zero_lt_one
  · cases h
  · cases h

end Decoder

/-- What lets a run go on after a move: it uses up bytes that are there, or
goes down in rank. -/
def Move.Fits (d : Decoder) (window : Bytes) : Move → Prop
  | .advance n d' _ => n ≤ window.length ∧ (n = 0 → d'.rank < d.rank)
  | _ => True

namespace Decoder

theorem next_fits (d : Decoder) (s : Storage) (window : Bytes) (atEnd : Bool) :
    (d.next s window atEnd).Fits d window := by
  cases h : d.next s window atEnd with
  | advance => exact next_advance h
  | wait => trivial
  | finished => trivial
  | fail => trivial

/-- One step, with the reason why a run of them ends. -/
def nextFitting (d : Decoder) (s : Storage) (window : Bytes) (atEnd : Bool) :
    { move : Move // move.Fits d window } :=
  ⟨d.next s window atEnd, d.next_fits s window atEnd⟩

end Decoder

end Multipart

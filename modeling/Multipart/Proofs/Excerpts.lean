import Multipart.Proofs.OpenFiles

/-!
# What a decoder has of the current part

An excerpt is the current part as far as a decoder has used it up: the header
lines since the last boundary line, and the data behind the empty line. A
decoder knows the part from its excerpt if its heading is what these lines say,
and its content has taken this data and nothing else (`Decoder.Knows`).

Every step keeps this up (`Decoder.knows_next`). As a boundary line starts an
excerpt afresh, nothing of one part is left in the next.
-/

namespace Multipart

/-- The current part as far as it was used up: what its header lines hold, the
empty one apart, and its data. -/
structure Excerpt where
  lines : List Bytes
  data : Bytes

namespace Excerpt

def empty : Excerpt := ⟨[], []⟩

/-- What bytes that were used up in a stage add. -/
def after (x : Excerpt) (stage : Stage) (used : Bytes) : Excerpt :=
  match stage with
  | .boundaryLine => empty
  | .headerLines _ =>
    let content := Bytes.dropCr (Line.body used)
    if content.isEmpty then x else { x with lines := x.lines ++ [content] }
  | .partData _ _ => { x with data := x.data ++ used }
  | .ended | .failed _ => x

end Excerpt

/-- A line can be read again off the bytes that it takes up. -/
theorem Line.dropCr_body_take {maxLength used : Nat} {atEnd : Bool} {window content : Bytes}
    (h : next maxLength atEnd window = .whole content used) :
    Bytes.dropCr (body (window.take used)) = content := by
  obtain ⟨line, ⟨hlf, -⟩, rfl, hcut⟩ := fits_of_next h
  rcases hcut with hwhole | ⟨rfl, hrest⟩
  · have hcut : window.take used ++ window.drop used =
        (line ++ Bytes.lf :: []) ++ window.drop used := by
      rw [List.take_append_drop, List.append_assoc]
      exact hwhole
    rw [List.append_cancel_right hcut, body_append_lf hlf]
  · have htake : window.take used = window := by
      rw [← List.append_nil (window.take used), ← hrest, List.take_append_drop]
    rw [htake, body_eq_self (isTerminated_of_not_mem hlf)]

/-- What the header lines of a part said, as its content still shows it. -/
def Content.label (name : String) (content : Content) : Label where
  name := name
  file := content.file?.map fun part => (part.clientName, part.contentType)

@[simp] theorem Content.label_ofHeading (heading : Heading) :
    (ofHeading heading).label heading.name = heading.label := by
  obtain ⟨name, _ | part⟩ := heading <;> rfl

@[simp] theorem Content.label_grow (name : String) (content : Content) (data : Bytes) :
    (content.grow data).label name = content.label name := by
  cases content <;> rfl

namespace Decoder

variable {d d' : Decoder} {s s' : Storage} {x : Excerpt} {w : Bytes} {atEnd : Bool} {n : Nat}

/-- What the decoder has of the current part comes from these lines and this
data. -/
def Knows (d : Decoder) (s : Storage) (x : Excerpt) : Prop :=
  match d.stage with
  | .headerLines heading =>
    Label.ofLines x.lines = some (heading.map Heading.label) ∧ x.data = [] ∧
      FilePart.All (·.Holds [] s) (Heading.part? heading)
  | .partData name content =>
    Label.ofLines x.lines = some (some (content.label name)) ∧ content.Holds x.data s ∧
      x.data.length ≤ d.settings.ceiling content.file?.isSome
  | .boundaryLine | .ended | .failed _ => True

theorem knows_boundaryLine {line : Bytes} {used : Nat}
    (h : d.boundaryLine line used s = .advance n d' s') : d'.Knows s' .empty := by
  rw [boundaryLine] at h
  split at h
  · cases h
  · cases h
    trivial
  · cases h
    exact ⟨rfl, rfl, FilePart.all_none⟩

theorem knows_headerLine {heading : Option Heading} {line : Bytes} {used : Nat}
    (hlabel : Label.ofLines x.lines = some (heading.map Heading.label)) (hdata : x.data = [])
    (hfile : FilePart.All (·.Holds [] s) (Heading.part? heading))
    (h : d.headerLine heading line used s = .advance n d' s') :
    d'.Knows s' (if line.isEmpty then x else { x with lines := x.lines ++ [line] }) := by
  unfold headerLine at h
  split at h
  · next hempty =>
    rw [if_pos hempty]
    cases heading with
    | none => cases h
    | some heading =>
      cases h
      refine ⟨?_, ?_, ?_⟩
      · rw [Content.label_ofHeading]
        exact hlabel
      · rw [hdata]
        exact Content.holds_ofHeading hfile
      · rw [hdata]
        exact Nat.zero_le _
  · next hline =>
    rw [if_neg hline]
    dsimp only at h
    split at h
    · cases h
    · next herror =>
      cases h
      refine ⟨?_, hdata, Heading.holds_read hfile⟩
      rw [Label.ofLines_concat, hlabel]
      exact Heading.label_read herror

theorem knows_partData {name : String} {content : Content} (hopen : d.Fillable)
    (hstage : d.stage = .partData name content) (hknows : d.Knows s x)
    (h : d.partData name content w s = .advance n d' s') :
    d'.Knows s' { x with data := x.data ++ w.take n } := by
  rw [Fillable, hstage] at hopen
  rw [Knows, hstage] at hknows
  obtain ⟨hlabel, hholds, -⟩ := hknows
  rw [partData] at h
  split at h
  · split at h
    · cases h
    · cases h
      trivial
  · dsimp only at h
    split at h
    · cases h
    · split at h
      · cases h
      · next hwrite =>
        cases h
        obtain ⟨rfl, hafter, hle⟩ := Content.write_spec hopen hholds hwrite
        refine ⟨?_, hafter, ?_⟩
        · rw [Content.label_grow]
          exact hlabel
        · rw [Content.isSome_file?_grow]
          exact hle

/-- What a decoder has after a step comes from the excerpt after the step. -/
theorem knows_next (hopen : d.Fillable) (hknows : d.Knows s x)
    (h : d.next s w atEnd = .advance n d' s') : d'.Knows s' (x.after d.stage (w.take n)) := by
  cases hstage : d.stage with
  | boundaryLine =>
    simp only [next, hstage] at h
    split at h
    · cases h
    · cases h
    · exact knows_boundaryLine h
  | headerLines heading =>
    rw [Knows, hstage] at hknows
    obtain ⟨hlabel, hdata, hfile⟩ := hknows
    simp only [next, hstage] at h
    split at h
    · cases h
    · cases h
    · next hline =>
      simp only [Excerpt.after]
      obtain rfl := headerLine_advance h
      rw [Line.dropCr_body_take hline]
      exact knows_headerLine hlabel hdata hfile h
  | partData name content =>
    rw [next_partData hstage] at h
    exact knows_partData hopen hstage hknows h
  | ended =>
    simp only [next, hstage] at h
    cases h
  | failed phase =>
    simp only [next, hstage] at h
    cases h

end Decoder

end Multipart

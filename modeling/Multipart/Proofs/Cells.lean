import Mathlib.Tactic.Common
import Multipart.Proofs.Ownership

/-!
# A decoder as a row of cells

`Stage` can only hold what belongs to a point of the body. A decoder that keeps its
phase, the name, the file and the value of the part, the form and whether it has failed
in cells of their own can hold anything: each handler sets some cells and leaves the
others, and nothing but the order of the handlers sees to it that they fit together.
`Cells` is this decoder, with the handlers `boundaryLine`, `headerLine`, `writeData`,
`completePart` and `partData`, the loop over them, and its calls.

A decoder with a stage has a view as cells (`Decoder.cells`). What one step does to the
cells is the view of what it does to the decoder (`Decoder.next_cells`), whether it goes
on or fails, and so it is with every call (`Decoder.pass_cells`, `Decoder.finish_cells`).
So cells that started empty are always the view of a decoder (`Decoder.after_cells`).
-/

namespace Multipart

/-- What a decoder keeps, each thing in a cell of its own. -/
structure Cells where
  settings : Settings
  delimiter : Bytes
  phase : Phase
  field : Option String
  file : Option FilePart
  value : Bytes
  form : Form
  failed : Bool

namespace Cells

/-- The cells of a decoder that has read nothing. -/
def new (token : String) (settings : Settings) : Except UploadError Cells :=
  if token = "" then .error (.protocol .badBoundary)
  else
    .ok
      { settings
        delimiter := Delimiter.ofToken token
        phase := .boundaryLine
        field := none
        file := none
        value := []
        form := Form.forFolder settings.uploadDir
        failed := false }

/-! ## Handlers -/

/-- How a handler leaves the cells and the storage, and the error that it stopped at. -/
structure Handled where
  error : Option UploadError
  cells : Cells
  storage : Storage

/-- What one step does. -/
inductive Move where
  | wait
  | finished
  | advance (used : Nat) (cells : Cells) (storage : Storage)
  | fail (error : UploadError) (cells : Cells) (storage : Storage)

/-- A step that uses up bytes, unless the handler stopped. -/
def Handled.move (h : Handled) (used : Nat) : Move :=
  match h.error with
  | some e => .fail e h.cells h.storage
  | none => .advance used h.cells h.storage

def boundaryLine (c : Cells) (line : Bytes) (s : Storage) : Handled :=
  match BoundaryLine.ofLine c.delimiter line with
  | .malformed => ⟨some (.protocol .incompleteBoundary), c, s⟩
  | .closing => ⟨none, { c with phase := .ended }, s⟩
  | .opening =>
    ⟨none, { c with field := none, file := none, value := [], phase := .headerLines },
      Decoder.dropOpenFile c.file s⟩

def openFile (c : Cells) (clientName : String) (s : Storage) : Handled :=
  if c.field.isNone then ⟨some (.protocol .missingName), c, s⟩
  else if c.file.isSome then ⟨some (.protocol .duplicateFilename), c, s⟩
  else
    match TempFile.create c.settings.uploadDir c.settings.maxFileSize s with
    | (.error e, s) => ⟨some e, c, s⟩
    | (.ok target, s) => ⟨none, { c with file := some ⟨target, clientName, none⟩ }, s⟩

theorem openFile_of_error {c : Cells} {s s' : Storage} {e : UploadError} {name : String}
    (hfield : c.field = some name) (hfile : c.file = none)
    (hcreate : TempFile.create c.settings.uploadDir c.settings.maxFileSize s = (.error e, s'))
    (clientName : String) : c.openFile clientName s = ⟨some e, c, s'⟩ := by
  simp [openFile, hfield, hfile, hcreate]

theorem openFile_of_ok {c : Cells} {s s' : Storage} {target : TempFile} {name : String}
    (hfield : c.field = some name) (hfile : c.file = none)
    (hcreate : TempFile.create c.settings.uploadDir c.settings.maxFileSize s = (.ok target, s'))
    (clientName : String) :
    c.openFile clientName s = ⟨none, { c with file := some ⟨target, clientName, none⟩ }, s'⟩ := by
  simp [openFile, hfield, hfile, hcreate]

/-- Takes attributes in order, up to the first error. -/
def attributes (c : Cells) (s : Storage) : List Attribute → Handled
  | [] => ⟨none, c, s⟩
  | a :: rest =>
    match a.role with
    | .other => c.attributes s rest
    | .name => { c with field := some a.text }.attributes s rest
    | .filename =>
      let opened := c.openFile a.text s
      match opened.error with
      | some e => ⟨some e, opened.cells, opened.storage⟩
      | none => opened.cells.attributes opened.storage rest

def headerLine (c : Cells) (line : Bytes) (s : Storage) : Handled :=
  if line.isEmpty then
    if c.field.isNone then ⟨some (.protocol .missingName), c, s⟩
    else ⟨none, { c with phase := .partData }, s⟩
  else
    match PartHeader.parse (Text.decode line) with
    | .disposition attributes =>
      { c with field := none, file := none }.attributes (Decoder.dropOpenFile c.file s) attributes
    | .contentType value =>
      ⟨none, { c with
        file := c.file.map fun part => { part with contentType := some (String.ofList value) } }, s⟩
    | .other => ⟨none, c, s⟩

/-- Data goes to the file, if there is one, and else into the value. -/
def writeData (c : Cells) (data : Bytes) (s : Storage) : Handled :=
  match c.file with
  | some part =>
    match part.target.append data s with
    | .error e => ⟨some e, c, s⟩
    | .ok (target, s) => ⟨none, { c with file := some { part with target } }, s⟩
  | none =>
    if c.value.length + data.length > c.settings.maxFieldSize then
      ⟨some (.limitExceeded c.settings.maxFieldSize), c, s⟩
    else ⟨none, { c with value := c.value ++ data }, s⟩

/-- The last data of a part. Then the part is published under its name, if it has one. -/
def completePart (c : Cells) (data : Bytes) (s : Storage) : Handled :=
  let written := c.writeData data s
  let c := written.cells
  match written.error with
  | some e => ⟨some e, c, written.storage⟩
  | none =>
    match c.field with
    | none => ⟨some (.protocol .missingName), c, written.storage⟩
    | some name =>
      match c.file with
      | some part =>
        let published := c.form.publishFile name part.stored written.storage.disk
        ⟨none, { c with field := none, file := none, form := published.1 },
          { written.storage with disk := published.2 }⟩
      | none =>
        ⟨none, { c with field := none, value := [], form := c.form.publishField name c.value },
          written.storage⟩

def partData (c : Cells) (window : Bytes) (s : Storage) : Move :=
  if window.length < c.delimiter.length then .wait
  else
    match Delimiter.find? window c.delimiter with
    | some place =>
      let completed := c.completePart (Bytes.trimCrlf (window.take place)) s
      match completed.error with
      | some e => .fail e completed.cells completed.storage
      | none => .advance place { completed.cells with phase := .boundaryLine } completed.storage
    | none =>
      let keep := Delimiter.holdback c.delimiter
      if window.length ≤ keep then .wait
      else (c.writeData (window.take (window.length - keep)) s).move (window.length - keep)

/-- One step on the unread bytes. -/
def next (c : Cells) (s : Storage) (window : Bytes) (atEnd : Bool) : Move :=
  match c.phase with
  | .boundaryLine =>
    match Line.next c.settings.maxLineLength atEnd window with
    | .incomplete => .wait
    | .tooLong => .fail (.protocol .lineTooLong) c s
    | .whole line used => (c.boundaryLine line s).move used
  | .headerLines =>
    match Line.next c.settings.maxLineLength atEnd window with
    | .incomplete => .wait
    | .tooLong => .fail (.protocol .lineTooLong) c s
    | .whole line used => (c.headerLine line s).move used
  | .partData => c.partData window s
  | .ended => .finished

/-! ## The loop -/

/-- What breaks the tie between steps that use up nothing. -/
def rank (c : Cells) : Nat := if c.phase = .partData then 1 else 0

theorem move_advance {h : Handled} {c' : Cells} {s' : Storage} {used n : Nat}
    (hmove : h.move used = .advance n c' s') : n = used := by
  rw [Handled.move] at hmove
  split at hmove <;> cases hmove
  rfl

theorem partData_advance {c c' : Cells} {s s' : Storage} {window : Bytes} {n : Nat}
    (h : c.partData window s = .advance n c' s') :
    n ≤ window.length ∧ (n = 0 → c'.rank = 0) := by
  rw [partData] at h
  split at h
  · cases h
  · split at h
    · next place hfound =>
      dsimp only at h
      split at h <;> cases h
      exact ⟨Nat.le_of_lt (Delimiter.find?_lt hfound), fun _ => rfl⟩
    · dsimp only at h
      split at h
      · cases h
      · obtain rfl := move_advance h
        exact ⟨Nat.sub_le .., fun hzero => by omega⟩

/-- A step uses up no more than there is, and one that uses up nothing goes down in rank. -/
theorem next_advance {c c' : Cells} {s s' : Storage} {window : Bytes} {atEnd : Bool} {n : Nat}
    (h : c.next s window atEnd = .advance n c' s') :
    n ≤ window.length ∧ (n = 0 → c'.rank < c.rank) := by
  rw [next] at h
  split at h
  · split at h
    · cases h
    · cases h
    · next hline =>
      obtain rfl := move_advance h
      have hbounds := Line.length_bounds hline
      exact ⟨hbounds.2, fun hzero => by omega⟩
  · split at h
    · cases h
    · cases h
    · next hline =>
      obtain rfl := move_advance h
      have hbounds := Line.length_bounds hline
      exact ⟨hbounds.2, fun hzero => by omega⟩
  · next hphase =>
    obtain ⟨hle, hrank⟩ := partData_advance h
    refine ⟨hle, fun hzero => ?_⟩
    rw [hrank hzero, rank, if_pos hphase]
    exact Nat.zero_lt_one
  · cases h

/-- Why steps stopped, what they left, and how many bytes they used up. -/
structure Run where
  result : Except UploadError Progress
  cells : Cells
  storage : Storage
  used : Nat

/-- Takes steps until no further one is possible. -/
def run (c : Cells) (s : Storage) (window : Bytes) (atEnd : Bool) : Run :=
  match _step : c.next s window atEnd with
  | .wait => ⟨.ok .needsMore, c, s, 0⟩
  | .finished => ⟨.ok .complete, c, s, 0⟩
  | .fail e c s => ⟨.error e, c, s, 0⟩
  | .advance n c' s' =>
    let rest := c'.run s' (window.drop n) atEnd
    { rest with used := n + rest.used }
termination_by (window.length, c.rank)
decreasing_by
  obtain ⟨hle, hrank⟩ := next_advance _step
  rcases Nat.eq_zero_or_pos n with rfl | hpos
  · exact Prod.Lex.right _ (hrank rfl)
  · apply Prod.Lex.left
    rw [List.length_drop]
    omega

section

variable {c c' : Cells} {s s' : Storage} {window : Bytes} {atEnd : Bool} {n : Nat}

theorem run_of_wait (h : c.next s window atEnd = .wait) :
    c.run s window atEnd = ⟨.ok .needsMore, c, s, 0⟩ := by
  rw [run]
  split <;> simp_all

theorem run_of_finished (h : c.next s window atEnd = .finished) :
    c.run s window atEnd = ⟨.ok .complete, c, s, 0⟩ := by
  rw [run]
  split <;> simp_all

theorem run_of_fail {e : UploadError} (h : c.next s window atEnd = .fail e c' s') :
    c.run s window atEnd = ⟨.error e, c', s', 0⟩ := by
  rw [run]
  split <;> simp_all

theorem run_of_advance (h : c.next s window atEnd = .advance n c' s') :
    c.run s window atEnd =
      { c'.run s' (window.drop n) atEnd with
        used := n + (c'.run s' (window.drop n) atEnd).used } := by
  conv => lhs; rw [run]
  split <;> simp_all

end

theorem used_run_le (c : Cells) (s : Storage) (window : Bytes) (atEnd : Bool) :
    (c.run s window atEnd).used ≤ window.length := by
  fun_induction run c s window atEnd with
  | case1 => exact Nat.zero_le _
  | case2 => exact Nat.zero_le _
  | case3 => exact Nat.zero_le _
  | case4 c s window n c' s' hnext rest ih =>
    have hle := (next_advance hnext).1
    have hrest : rest.used ≤ window.length - n := List.length_drop ▸ ih
    exact (Nat.add_le_add_left hrest n).trans (Nat.le_of_eq (Nat.add_sub_of_le hle))

/-! ## Calls -/

structure Outcome (α : Type) where
  result : Except UploadError α
  cells : Cells
  storage : Storage
  buffer : InputBuffer

/-- Lets go of the part that is being read and of all that was published. -/
def abort (c : Cells) (s : Storage) : Cells × Storage :=
  ({ c with failed := true, field := none, file := none, value := [], form := .empty },
    (Decoder.dropOpenFile c.file s).onDisk c.form.removeFiles)

/-- Runs over the unread bytes of a buffer. -/
def pass (c : Cells) (s : Storage) (buffer : InputBuffer) (atEnd : Bool) : Outcome Progress :=
  if c.failed then ⟨.error (.protocol .alreadyFailed), c, s, buffer⟩
  else
    let r := c.run s buffer.unread atEnd
    let left := (buffer.advance r.used (c.used_run_le s buffer.unread atEnd)).compact
    match r.result with
    | .ok progress => ⟨.ok progress, r.cells, r.storage, left⟩
    | .error e =>
      let (cells, storage) := r.cells.abort r.storage
      ⟨.error e, cells, storage, left⟩

def process (c : Cells) (s : Storage) (buffer : InputBuffer) : Outcome Progress :=
  c.pass s buffer false

def finish (c : Cells) (s : Storage) (buffer : InputBuffer) : Outcome Form :=
  let o := c.pass s buffer true
  match o.result with
  | .error e => ⟨.error e, o.cells, o.storage, o.buffer⟩
  | .ok .complete => ⟨.ok o.cells.form, { o.cells with form := .empty }, o.storage, o.buffer⟩
  | .ok .needsMore =>
    let (cells, storage) := o.cells.abort o.storage
    ⟨.error (.protocol .unexpectedEnd), cells, storage, o.buffer⟩

/-- A call, with a buffer that may hold anything. -/
inductive Call where
  | process (buffer : InputBuffer)
  | finish (buffer : InputBuffer)

/-- What is left of the cells and the storage after these calls, one after the other. -/
def after (c : Cells) (s : Storage) : List Call → Cells × Storage
  | [] => (c, s)
  | .process buffer :: calls =>
    let o := c.process s buffer
    o.cells.after o.storage calls
  | .finish buffer :: calls =>
    let o := c.finish s buffer
    o.cells.after o.storage calls

end Cells

/-! ## The view of a decoder -/

/-- The cells of a decoder. What does not belong to its stage is empty. -/
def Decoder.cells (d : Decoder) : Cells where
  settings := d.settings
  delimiter := d.delimiter
  phase := d.phase
  field := d.stage.field?
  file := d.stage.openFile?
  value := d.stage.value
  form := d.form
  failed := d.stage.hasFailed

def Move.cells : Move → Cells.Move
  | .wait => .wait
  | .finished => .finished
  | .advance n d s => .advance n d.cells s
  | .fail e d s => .fail e d.cells s

theorem Move.eq_advance_of_cells {move : Move} {n : Nat} {c : Cells} {s : Storage}
    (h : move.cells = .advance n c s) : ∃ d, move = .advance n d s ∧ c = d.cells := by
  cases move with
  | advance n d s =>
    cases h
    exact ⟨d, rfl, rfl⟩
  | wait => cases h
  | finished => cases h
  | fail => cases h

theorem Move.eq_fail_of_cells {move : Move} {e : UploadError} {c : Cells} {s : Storage}
    (h : move.cells = .fail e c s) : ∃ d, move = .fail e d s ∧ c = d.cells := by
  cases move with
  | fail e d s =>
    cases h
    exact ⟨d, rfl, rfl⟩
  | wait => cases h
  | finished => cases h
  | advance => cases h

def Run.cells (r : Run) : Cells.Run := ⟨r.result, r.decoder.cells, r.storage, r.used⟩

def Outcome.cells {α : Type} (o : Outcome α) : Cells.Outcome α :=
  ⟨o.result, o.decoder.cells, o.storage, o.buffer⟩

variable {d : Decoder} {s : Storage} {w : Bytes} {atEnd : Bool}

theorem Cells.new_eq {token : String} {settings : Settings} :
    Cells.new token settings = (Decoder.new token settings).map Decoder.cells := by
  rw [Cells.new, Decoder.new]
  split <;> rfl

namespace Decoder

theorem boundaryLine_cells (hstage : d.stage = .boundaryLine) (line : Bytes) (used : Nat) :
    (d.cells.boundaryLine line s).move used = (d.boundaryLine line used s).cells := by
  obtain ⟨settings, delimiter, stage, form⟩ := d
  obtain rfl : stage = .boundaryLine := hstage
  rw [Cells.boundaryLine, boundaryLine, cells]
  cases BoundaryLine.ofLine delimiter line <;> rfl

/-- The attributes of a header line, from cells without a value. -/
theorem attributes_cells (settings : Settings) (delimiter : Bytes) (form : Form)
    (attributes : List Attribute) (heading : Option Heading) (s : Storage) :
    (Decoder.cells ⟨settings, delimiter, .headerLines heading, form⟩).attributes s attributes =
      let described := Heading.describe settings attributes heading s
      ⟨described.error, Decoder.cells ⟨settings, delimiter, .headerLines described.heading, form⟩,
        described.storage⟩ := by
  fun_induction Heading.describe settings attributes heading s with
  | case1 heading s => rfl
  | case2 a rest heading s hrole ih =>
    rw [Cells.attributes, hrole]
    exact ih
  | case3 a rest heading s hrole ih =>
    rw [Cells.attributes, hrole]
    cases heading <;> exact ih
  | case4 a rest s hrole =>
    rw [Cells.attributes, hrole]
    rfl
  | case5 a rest s hrole name part =>
    rw [Cells.attributes, hrole]
    rfl
  | case6 a rest s hrole name e s' hcreate =>
    have hopened := Cells.openFile_of_error
      (c := Decoder.cells ⟨settings, delimiter, .headerLines (some ⟨name, none⟩), form⟩)
      rfl rfl hcreate a.text
    simp only [Cells.attributes, hrole, hopened]
  | case7 a rest s hrole name target s' hcreate ih =>
    have hopened := Cells.openFile_of_ok
      (c := Decoder.cells ⟨settings, delimiter, .headerLines (some ⟨name, none⟩), form⟩)
      rfl rfl hcreate a.text
    simp only [Cells.attributes, hrole, hopened]
    exact ih

theorem headerLine_cells {heading : Option Heading} (hstage : d.stage = .headerLines heading)
    (line : Bytes) (used : Nat) :
    (d.cells.headerLine line s).move used = (d.headerLine heading line used s).cells := by
  obtain ⟨settings, delimiter, stage, form⟩ := d
  obtain rfl : stage = .headerLines heading := hstage
  unfold headerLine Cells.headerLine
  split
  · obtain _ | ⟨name, _ | part⟩ := heading <;> rfl
  · rw [Heading.read]
    cases PartHeader.parse (Text.decode line) with
    | disposition attributes =>
      have hsame := attributes_cells settings delimiter form attributes none
        (dropOpenFile (heading.bind Heading.file) s)
      refine (congrArg (Cells.Handled.move · used) hsame).trans ?_
      dsimp only
      rw [Cells.Handled.move]
      cases (Heading.describe settings attributes none
        (dropOpenFile (heading.bind Heading.file) s)).error <;> rfl
    | contentType value => obtain _ | ⟨name, _ | part⟩ := heading <;> rfl
    | other => rfl

theorem writeData_cells {name : String} {content : Content}
    (hstage : d.stage = .partData name content) (data : Bytes) :
    d.cells.writeData data s =
      match content.write d.settings.maxFieldSize data s with
      | .error e => ⟨some e, d.cells, s⟩
      | .ok (content, s) => ⟨none, { d with stage := .partData name content }.cells, s⟩ := by
  obtain ⟨settings, delimiter, stage, form⟩ := d
  obtain rfl : stage = .partData name content := hstage
  cases content with
  | plain value =>
    by_cases hlarge : value.length + data.length > settings.maxFieldSize
    · rw [Content.write, if_pos hlarge]
      exact if_pos hlarge
    · rw [Content.write, if_neg hlarge]
      exact if_neg hlarge
  | file part =>
    simp only [Cells.writeData, Content.write, cells, Stage.openFile?, Content.file?]
    cases part.target.append data s <;> rfl

theorem completePart_cells {name : String} {content : Content}
    (hstage : d.stage = .partData name content) (data : Bytes) :
    d.cells.completePart data s =
      match content.write d.settings.maxFieldSize data s with
      | .error e => ⟨some e, d.cells, s⟩
      | .ok (content, s) =>
        let published := d.form.publishPart name s content
        ⟨none, { cells { d with stage := .boundaryLine, form := published.1 } with
          phase := .partData }, published.2⟩ := by
  rw [Cells.completePart, writeData_cells hstage]
  cases content.write d.settings.maxFieldSize data s with
  | error e => rfl
  | ok out =>
    obtain ⟨content', s'⟩ := out
    cases content' <;> rfl

@[simp] theorem settings_cells (d : Decoder) : d.cells.settings = d.settings := rfl

@[simp] theorem delimiter_cells (d : Decoder) : d.cells.delimiter = d.delimiter := rfl

@[simp] theorem failed_cells (d : Decoder) : d.cells.failed = d.stage.hasFailed := rfl

/-- A window that is shorter than the delimiter does not hold it. -/
theorem find?_of_lt {delimiter : Bytes} (h : w.length < delimiter.length) :
    Delimiter.find? w delimiter = none := by
  rw [Option.eq_none_iff_forall_ne_some]
  intro place hfound
  have hfit := Delimiter.add_length_le_of_find? hfound
  omega

theorem partData_cells {name : String} {content : Content}
    (hstage : d.stage = .partData name content) :
    d.cells.partData w s = (d.partData name content w s).cells := by
  simp only [Cells.partData, delimiter_cells, completePart_cells hstage, writeData_cells hstage]
  split
  · next hshort =>
    rw [partData_of_short (find?_of_lt hshort) (by rw [Delimiter.holdback]; omega)]
    rfl
  · rw [partData]
    cases Delimiter.find? w d.delimiter with
    | some place =>
      dsimp only
      cases content.write d.settings.maxFieldSize (Bytes.trimCrlf (w.take place)) s <;> rfl
    | none =>
      dsimp only
      split
      · next hle =>
        rw [if_pos (Nat.sub_eq_zero_of_le hle)]
        rfl
      · next hlong =>
        rw [if_neg (Nat.sub_ne_zero_of_lt (Nat.lt_of_not_le hlong))]
        cases content.write d.settings.maxFieldSize
          (w.take (w.length - Delimiter.holdback d.delimiter)) s <;> rfl

/-- One step does to the cells what it does to the decoder. -/
theorem next_cells (hd : d.stage.hasFailed = false) (s : Storage) (w : Bytes) (atEnd : Bool) :
    d.cells.next s w atEnd = (d.next s w atEnd).cells := by
  have hphase : d.cells.phase = d.stage.phase := rfl
  cases hstage : d.stage with
  | boundaryLine =>
    simp only [Cells.next, hphase, next, hstage, Stage.phase, settings_cells]
    cases Line.next d.settings.maxLineLength atEnd w with
    | whole line used => exact boundaryLine_cells hstage line used
    | _ => rfl
  | headerLines heading =>
    simp only [Cells.next, hphase, next, hstage, Stage.phase, settings_cells]
    cases Line.next d.settings.maxLineLength atEnd w with
    | whole line used => exact headerLine_cells hstage line used
    | _ => rfl
  | partData name content =>
    simp only [Cells.next, hphase, next, hstage, Stage.phase]
    exact partData_cells hstage
  | ended =>
    simp only [Cells.next, hphase, next, hstage, Stage.phase]
    rfl
  | failed phase =>
    rw [hstage] at hd
    cases hd

/-! ## Calls on the view -/

theorem run_cells (hd : d.stage.hasFailed = false) (s : Storage) (w : Bytes) (atEnd : Bool) :
    d.cells.run s w atEnd = (d.run s w atEnd).cells := by
  induction d, s, w using run_induction atEnd with
  | step d s w ih =>
    have hstep := next_cells hd s w atEnd
    cases hnext : d.next s w atEnd with
    | wait =>
      rw [hnext] at hstep
      rw [run_of_wait hnext, Cells.run_of_wait hstep]
      rfl
    | finished =>
      rw [hnext] at hstep
      rw [run_of_finished hnext, Cells.run_of_finished hstep]
      rfl
    | fail e d' s' =>
      rw [hnext] at hstep
      rw [run_of_fail hnext, Cells.run_of_fail hstep]
      rfl
    | advance n d' s' =>
      rw [hnext] at hstep
      rw [run_of_advance hnext, Cells.run_of_advance hstep,
        ih n d' s' hnext (goesOn_of_advance hnext).alive]
      rfl

theorem pass_cells (d : Decoder) (s : Storage) (buffer : InputBuffer) (atEnd : Bool) :
    d.cells.pass s buffer atEnd = (d.pass s buffer atEnd).cells := by
  cases hd : d.stage.hasFailed with
  | true =>
    rw [Cells.pass, pass, if_pos hd]
    exact if_pos hd
  | false =>
    have hrun := run_cells hd s buffer.unread atEnd
    simp only [Cells.pass, pass, failed_cells, hd, hrun, Run.cells, Bool.false_eq_true, if_false]
    -- The bound on what was used up mentions the run, so it is set aside first.
    generalize_proofs hfits
    generalize d.run s buffer.unread atEnd = r at hfits
    obtain ⟨result, d', s', used⟩ := r
    cases result <;> rfl

theorem process_cells (d : Decoder) (s : Storage) (buffer : InputBuffer) :
    d.cells.process s buffer = (d.process s buffer).cells :=
  d.pass_cells s buffer false

theorem finish_cells (d : Decoder) (s : Storage) (buffer : InputBuffer) :
    d.cells.finish s buffer = (d.finish s buffer).cells := by
  simp only [Cells.finish, finish, pass_cells, Outcome.cells]
  cases (d.pass s buffer true).result with
  | error e => rfl
  | ok progress =>
    cases progress <;> rfl

end Decoder

/-- The call as an operation of a session. -/
def Cells.Call.op : Call → Session.Op
  | .process buffer => .process buffer
  | .finish buffer => .finish buffer

/-- Calls lead from the cells of a decoder to the cells of the decoder that they
lead to. -/
theorem Decoder.after_cells (d : Decoder) (s : Storage) (handed : List Form)
    (calls : List Cells.Call) :
    let t := Session.run ⟨some d, s, handed⟩ (calls.map Cells.Call.op)
    ∃ d', t.decoder? = some d' ∧ d.cells.after s calls = (d'.cells, t.storage) := by
  induction calls generalizing d s handed with
  | nil => exact ⟨d, rfl, rfl⟩
  | cons call calls ih =>
    cases call with
    | process buffer =>
      rw [Cells.after, process_cells]
      exact ih (d.process s buffer).decoder (d.process s buffer).storage handed
    | finish buffer =>
      rw [Cells.after, finish_cells]
      exact ih (d.finish s buffer).decoder (d.finish s buffer).storage _

end Multipart

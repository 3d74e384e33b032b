import Mathlib
import Multipart.Proofs.Chunks
import Multipart.Proofs.Slices

/-!
# Runs are total

A step uses up bytes, but for one: at a delimiter with no data in front of it, part
data is complete and no byte is used up. The step after that one reads a line
(`Decoder.progress_of_advance`). So a loop over steps ends after a number of rounds
that the unread bytes give.

`Checked.drive` is that loop with nothing taken for granted: slices, differences and
the bytes that are used up are all checked, and it may run out of rounds. None of
this happens, and it comes to the run of the decoder. The main statement is
`Checked.drive_total`.
-/

namespace Multipart

/-- What a header makes of a part. -/
def Heading.readAs (settings : Settings) (header : PartHeader) (heading : Option Heading)
    (s : Storage) : Described :=
  match header with
  | .disposition attributes =>
    describe settings attributes none (Decoder.dropOpenFile (heading.bind Heading.file) s)
  | .contentType value => ⟨none, withContentType heading (String.ofList value), s⟩
  | .other => ⟨none, heading, s⟩

theorem Heading.readAs_parse (settings : Settings) (line : List Char) (heading : Option Heading)
    (s : Storage) :
    readAs settings (PartHeader.parse line) heading s = read settings line heading s := rfl

/-! ## Using up bytes -/

namespace InputBuffer

theorem consume_zero (b : InputBuffer) : b.consume 0 = .ok b :=
  consume_eq_ok_iff.mpr ⟨Nat.zero_le _, rfl⟩

theorem consume_add {a b c : InputBuffer} {m n : Nat} (h : a.consume m = .ok b)
    (h' : b.consume n = .ok c) : a.consume (m + n) = .ok c := by
  obtain ⟨hm, rfl⟩ := consume_eq_ok_iff.mp h
  obtain ⟨hn, rfl⟩ := consume_eq_ok_iff.mp h'
  have hlength := hn
  rw [unread_advance, List.length_drop] at hlength
  refine consume_eq_ok_iff.mpr ⟨by omega, ?_⟩
  simp only [advance, Nat.add_assoc]

end InputBuffer

/-! ## Progress -/

namespace Decoder

variable {d d' : Decoder} {s s' : Storage} {w : Bytes} {atEnd : Bool} {n : Nat}

theorem pos_of_line_advance (hstage : d.AtLine) (hnext : d.next s w atEnd = .advance n d' s') :
    0 < n := by
  rw [next_of_line hstage] at hnext
  cases hline : Line.next d.settings.maxLineLength atEnd w with
  | incomplete =>
    rw [hline] at hnext
    cases hnext
  | tooLong =>
    rw [hline] at hnext
    cases hnext
  | whole content used =>
    rw [hline] at hnext
    obtain rfl := takeLine_advance hnext
    exact (Line.length_bounds hline).1

/-- A step uses up bytes, or it is the one at a delimiter that stands at once. Then
the next one reads a line. -/
theorem progress_of_advance (hnext : d.next s w atEnd = .advance n d' s') :
    0 < n ∨ n = 0 ∧ (∃ name content, d.stage = .partData name content) ∧
      Delimiter.find? w d.delimiter = some 0 ∧ d'.stage = .boundaryLine := by
  cases hstage : d.stage with
  | boundaryLine => exact .inl (pos_of_line_advance (.inl hstage) hnext)
  | headerLines heading => exact .inl (pos_of_line_advance (.inr ⟨heading, hstage⟩) hnext)
  | partData name content =>
    have hdata := hnext
    rw [next_partData hstage] at hdata
    rcases partData_cases (by rw [hdata]; exact nofun) with ⟨place, hfound⟩ |
      ⟨cut, hnone, hpos, hcut⟩
    · cases hwrite : content.write d.settings.maxFieldSize (Bytes.trimCrlf (w.take place)) s with
      | error e =>
        rw [partData_of_found_error hfound hwrite] at hdata
        cases hdata
      | ok out =>
        rw [partData_of_found hfound hwrite] at hdata
        cases hdata
        rcases Nat.eq_zero_or_pos n with rfl | hpos
        · exact .inr ⟨rfl, ⟨name, content, rfl⟩, hfound, rfl⟩
        · exact .inl hpos
    · cases hwrite : content.write d.settings.maxFieldSize (w.take cut) s with
      | error e =>
        rw [partData_of_flush_error hnone hcut hpos hwrite] at hdata
        cases hdata
      | ok out =>
        rw [partData_of_flush hnone hcut hpos hwrite] at hdata
        cases hdata
        exact .inl (Nat.pos_of_ne_zero hpos)
  | ended =>
    simp only [next, hstage] at hnext
    cases hnext
  | failed phase =>
    simp only [next, hstage] at hnext
    cases hnext

/-- What every step makes smaller. -/
def measure (d : Decoder) (w : Bytes) : Nat := 2 * w.length + d.rank

theorem rank_le (d : Decoder) : d.rank ≤ 1 := by
  rw [rank]
  split
  · exact Nat.le_refl _
  · exact Nat.zero_le _

theorem measure_lt_of_advance (hnext : d.next s w atEnd = .advance n d' s') :
    d'.measure (w.drop n) < d.measure w := by
  obtain ⟨hle, hrank⟩ := next_advance hnext
  have hone := d'.rank_le
  rw [measure, measure, List.length_drop]
  omega

end Decoder

/-! ## Steps in range -/

namespace Checked

variable (d : Decoder) (s : Storage) (window : Bytes) (atEnd : Bool)

def headerLine (heading : Option Heading) (content : Bytes) (used : Nat) : Except Fault Move :=
  if content.isEmpty then
    match heading with
    | none => .ok (.fail (.protocol .missingName) d s)
    | some h => .ok (.advance used { d with stage := .partData h.name (.ofHeading h) } s)
  else do
    let header ← header (Text.decode content)
    let described := Heading.readAs d.settings header heading s
    let after := { d with stage := .headerLines described.heading }
    match described.error with
    | some e => .ok (.fail e after described.storage)
    | none => .ok (.advance used after described.storage)

def partData (name : String) (content : Content) : Except Fault Move :=
  if window.length < d.delimiter.length then .ok .wait
  else do
    match ← find window d.delimiter with
    | some place =>
      let data ← slice window 0 place
      match content.write d.settings.maxFieldSize (Bytes.trimCrlf data) s with
      | .error e => .ok (.fail e d s)
      | .ok (content, s) =>
        let published := d.form.publishPart name s content
        .ok (.advance place { d with stage := .boundaryLine, form := published.1 } published.2)
    | none =>
      if window.length ≤ Delimiter.holdback d.delimiter then .ok .wait
      else
        let safe ← minus window.length (Delimiter.holdback d.delimiter)
        let data ← slice window 0 safe
        match content.write d.settings.maxFieldSize data s with
        | .error e => .ok (.fail e d s)
        | .ok (content, s) => .ok (.advance safe { d with stage := .partData name content } s)

/-- One step on the unread bytes. -/
def step : Except Fault Move :=
  match d.stage with
  | .boundaryLine => do
    match ← line d.settings.maxLineLength atEnd window with
    | .incomplete => .ok .wait
    | .tooLong => .ok (.fail (.protocol .lineTooLong) d s)
    | .whole content used => .ok (d.boundaryLine content used s)
  | .headerLines heading => do
    match ← line d.settings.maxLineLength atEnd window with
    | .incomplete => .ok .wait
    | .tooLong => .ok (.fail (.protocol .lineTooLong) d s)
    | .whole content used => headerLine d s heading content used
  | .partData name content => partData d s window name content
  | .ended => .ok .finished
  | .failed _ => .ok (.fail (.protocol .alreadyFailed) d s)

theorem headerLine_eq (heading : Option Heading) (content : Bytes) (used : Nat) :
    headerLine d s heading content used = .ok (d.headerLine heading content used s) := by
  unfold headerLine Decoder.headerLine
  simp only [header_eq, Heading.readAs_parse, bind, Except.bind]
  split
  · cases heading <;> rfl
  · cases (Heading.read d.settings (Text.decode content) heading s).error <;> rfl

theorem partData_eq (name : String) (content : Content) :
    partData d s window name content = .ok (d.partData name content window s) := by
  rw [partData]
  split
  · next hshort =>
    have hnone : Delimiter.find? window d.delimiter = none := by
      rw [Option.eq_none_iff_forall_ne_some]
      intro place hfound
      have hfit := Delimiter.add_length_le_of_find? hfound
      omega
    rw [Decoder.partData_of_short hnone (by rw [Delimiter.holdback]; omega)]
  · simp only [find_eq, bind, Except.bind, Decoder.partData]
    cases hfind : Delimiter.find? window d.delimiter with
    | some place =>
      have hplace := Nat.le_of_lt (Delimiter.find?_lt hfind)
      simp only [slice_of_le (Nat.zero_le _) hplace, List.drop_zero]
      cases content.write d.settings.maxFieldSize (Bytes.trimCrlf (window.take place)) s <;> rfl
    | none =>
      dsimp only
      split
      · next hshort => rw [if_pos (Nat.sub_eq_zero_of_le hshort)]
      · next hlong =>
        have hle := Nat.le_of_not_le hlong
        rw [if_neg (Nat.sub_ne_zero_of_lt (Nat.lt_of_not_le hlong))]
        simp only [minus_of_le hle, slice_of_le (Nat.zero_le _) (Nat.sub_le ..), List.drop_zero]
        cases content.write d.settings.maxFieldSize
          (window.take (window.length - Delimiter.holdback d.delimiter)) s <;> rfl

theorem step_eq : step d s window atEnd = .ok (d.next s window atEnd) := by
  cases hstage : d.stage with
  | boundaryLine =>
    simp only [step, Decoder.next, hstage, line_eq, bind, Except.bind]
    cases Line.next d.settings.maxLineLength atEnd window <;> rfl
  | headerLines heading =>
    simp only [step, Decoder.next, hstage, line_eq, headerLine_eq, bind, Except.bind]
    cases Line.next d.settings.maxLineLength atEnd window <;> rfl
  | partData name content => simp only [step, Decoder.next, hstage, partData_eq]
  | ended => simp only [step, Decoder.next, hstage]
  | failed phase => simp only [step, Decoder.next, hstage]

/-! ## The loop -/

/-- Takes steps until one of them waits, finishes or fails, but no more than so many
rounds. -/
def drive : Nat → Decoder → Storage → InputBuffer → Except Fault (Option (Outcome Progress))
  | 0, _, _, _ => .ok none
  | rounds + 1, d, s, buffer => do
    match ← step d s buffer.unread atEnd with
    | .wait => .ok (some ⟨.ok .needsMore, d, s, buffer⟩)
    | .finished => .ok (some ⟨.ok .complete, d, s, buffer⟩)
    | .fail e d s => .ok (some ⟨.error e, d, s, buffer⟩)
    | .advance n d s =>
      let after ← (buffer.consume n).mapError .buffer
      drive rounds d s after

variable {d s atEnd}

/-- What a step uses up is there. -/
theorem consume_of_advance {d' : Decoder} {s' : Storage} {buffer : InputBuffer} {n : Nat}
    (hnext : d.next s buffer.unread atEnd = .advance n d' s') :
    ∃ after, buffer.consume n = .ok after ∧ after.unread = buffer.unread.drop n := by
  have hle := (Decoder.next_advance hnext).1
  exact ⟨buffer.advance n hle, InputBuffer.consume_eq_ok_iff.mpr ⟨hle, rfl⟩,
    buffer.unread_advance n hle⟩

/-- With a round for each step that there can be, the loop is the run. -/
theorem drive_eq {buffer : InputBuffer} {rounds : Nat}
    (hrounds : d.measure buffer.unread < rounds) :
    let r := d.run s buffer.unread atEnd
    ∃ after, buffer.consume r.used = .ok after ∧
      drive atEnd rounds d s buffer = .ok (some ⟨r.result, r.decoder, r.storage, after⟩) := by
  induction rounds generalizing d s buffer with
  | zero => exact absurd hrounds (Nat.not_lt_zero _)
  | succ rounds ih =>
    intro r
    rw [drive, step_eq]
    cases hnext : d.next s buffer.unread atEnd with
    | wait =>
      simp only [r, Decoder.run_of_wait hnext]
      exact ⟨buffer, buffer.consume_zero, rfl⟩
    | finished =>
      simp only [r, Decoder.run_of_finished hnext]
      exact ⟨buffer, buffer.consume_zero, rfl⟩
    | fail e d' s' =>
      simp only [r, Decoder.run_of_fail hnext]
      exact ⟨buffer, buffer.consume_zero, rfl⟩
    | advance n d' s' =>
      have hless := Decoder.measure_lt_of_advance hnext
      obtain ⟨between, hconsume, hunread⟩ := consume_of_advance hnext
      rw [← hunread] at hless
      obtain ⟨after, hrest, hdrive⟩ :=
        ih (s := s') (Nat.lt_of_lt_of_le hless (Nat.le_of_lt_succ hrounds))
      rw [hunread] at hrest hdrive
      simp only [r, Decoder.run_of_advance hnext]
      refine ⟨after, InputBuffer.consume_add hconsume hrest, ?_⟩
      simp only [bind, Except.bind, hconsume, Except.mapError]
      exact hdrive

/-- A run is total. Nothing that a step takes out of the unread bytes is out of range:
not a line, not the delimiter, not the data in front of it or what is copied without
one. What it uses up is there, and more than nothing, but for the step at a delimiter
that stands at once; that one leads to a boundary line, and so to a step that uses up
bytes. So a loop over steps that checks all of this meets no fault, and two rounds for
each unread byte and two more are enough for it to come to the run. -/
theorem drive_total (d : Decoder) (s : Storage) (buffer : InputBuffer) (atEnd : Bool) :
    let unread := buffer.unread
    (∀ maxLength, line maxLength atEnd unread = .ok (Line.next maxLength atEnd unread)) ∧
    (∀ text, header text = .ok (PartHeader.parse text)) ∧
    find unread d.delimiter = .ok (Delimiter.find? unread d.delimiter) ∧
    (∀ name content, partData d s unread name content = .ok (d.partData name content unread s)) ∧
    step d s unread atEnd = .ok (d.next s unread atEnd) ∧
    (∀ n d' s', d.next s unread atEnd = .advance n d' s' →
      (∃ after, buffer.consume n = .ok after ∧ after.unread = unread.drop n) ∧
      (0 < n ∨ n = 0 ∧ (∃ name content, d.stage = .partData name content) ∧
        Delimiter.find? unread d.delimiter = some 0 ∧ d'.stage = .boundaryLine ∧
        ∀ m d'' s'', d'.next s' unread atEnd = .advance m d'' s'' → 0 < m)) ∧
    ∀ rounds, 2 * unread.length + 2 ≤ rounds →
      let r := d.run s unread atEnd
      ∃ after, buffer.consume r.used = .ok after ∧ after.unread = unread.drop r.used ∧
        drive atEnd rounds d s buffer = .ok (some ⟨r.result, r.decoder, r.storage, after⟩) := by
  intro unread
  refine ⟨fun maxLength => line_eq maxLength atEnd unread, header_eq, find_eq unread d.delimiter,
    partData_eq d s unread, step_eq d s unread atEnd, fun n d' s' hnext => ?_,
    fun rounds hrounds => ?_⟩
  · refine ⟨consume_of_advance hnext, ?_⟩
    refine (Decoder.progress_of_advance hnext).imp_right ?_
    rintro ⟨rfl, hstage, hfound, hstage'⟩
    exact ⟨rfl, hstage, hfound, hstage',
      fun m d'' s'' hagain => Decoder.pos_of_line_advance (.inl hstage') hagain⟩
  · intro r
    have hrank := d.rank_le
    have hmeasure : d.measure unread < rounds := by
      rw [Decoder.measure]
      omega
    obtain ⟨after, hconsume, hdrive⟩ := drive_eq hmeasure
    refine ⟨after, hconsume, ?_, hdrive⟩
    obtain ⟨hle, rfl⟩ := InputBuffer.consume_eq_ok_iff.mp hconsume
    exact buffer.unread_advance _ hle

/-- Part data with the closing boundary at once. -/
theorem drive_total_of_delimiter :
    let s : Storage := ⟨.ofFolders [["tmp"]], ⟨1, 0, 0⟩⟩
    let d : Decoder := ⟨.standard, Delimiter.ofToken "B", .partData "a" (.plain []), .empty⟩
    let buffer := InputBuffer.empty.push (Text.toBytes "--B--")
    ∃ d' s', d.next s buffer.unread true = .advance 0 d' s' ∧ d'.stage = .boundaryLine ∧
      (∀ m d'' s'', d'.next s' buffer.unread true = .advance m d'' s'' → 0 < m) ∧
      ∃ o, drive true 12 d s buffer = .ok (some o) ∧ o.result = .ok .complete := by
  intro s d buffer
  obtain ⟨d', s', hnext⟩ : ∃ d' s', d.next s buffer.unread true = .advance 0 d' s' := by
    simp only [d, s, buffer]
    exact ⟨_, _, rfl⟩
  have hresult : (d.run s buffer.unread true).result = .ok .complete := by
    simp only [d, s, buffer]
    cbv
  obtain ⟨-, -, -, -, -, hsteps, hrounds⟩ := drive_total d s buffer true
  obtain ⟨-, -, hstage, hagain⟩ := ((hsteps 0 d' s' hnext).2.resolve_left (Nat.lt_irrefl 0)).2
  obtain ⟨after, -, -, hdrive⟩ := hrounds 12 (by decide)
  exact ⟨d', s', hnext, hstage, hagain, _, hdrive, hresult⟩

end Checked

end Multipart

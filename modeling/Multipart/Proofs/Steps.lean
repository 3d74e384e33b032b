import Multipart.Decoder.Run

/-!
# Single steps

What one step does, stage by stage: `next_of_line` for lines, and the four
ways in which part data goes on. Later modules take
a step apart with these and leave the definitions closed. A step that is
taken leaves the settings and the delimiter (`goesOn_of_advance`), and what all
steps keep up is kept up by a run (`run_keeps`).
-/

namespace Multipart

namespace Decoder

variable {d : Decoder} {s s' : Storage} {w : Bytes} {atEnd : Bool}

/-! ## Lines -/

theorem next_boundaryLine (hstage : d.stage = .boundaryLine) {line : Bytes} {used : Nat}
    (hline : Line.next d.settings.maxLineLength atEnd w = .whole line used) :
    d.next s w atEnd = d.boundaryLine line used s := by
  simp only [next, hstage, hline]

theorem next_headerLines {heading : Option Heading} (hstage : d.stage = .headerLines heading)
    {line : Bytes} {used : Nat}
    (hline : Line.next d.settings.maxLineLength atEnd w = .whole line used) :
    d.next s w atEnd = d.headerLine heading line used s := by
  simp only [next, hstage, hline]

/-- The decoder expects a line. -/
def AtLine (d : Decoder) : Prop :=
  d.stage = .boundaryLine ∨ ∃ heading, d.stage = .headerLines heading

/-- What a decoder does with a line that is whole. -/
def takeLine (d : Decoder) (line : Bytes) (used : Nat) (s : Storage) : Move :=
  match d.stage with
  | .boundaryLine => d.boundaryLine line used s
  | .headerLines heading => d.headerLine heading line used s
  | _ => .wait

theorem next_of_line (h : d.AtLine) (s : Storage) (w : Bytes) (atEnd : Bool) :
    d.next s w atEnd =
      match Line.next d.settings.maxLineLength atEnd w with
      | .incomplete => .wait
      | .tooLong => .fail (.protocol .lineTooLong) d s
      | .whole line used => d.takeLine line used s := by
  obtain hstage | ⟨heading, hstage⟩ := h
  · cases hline : Line.next d.settings.maxLineLength atEnd w <;>
      simp only [next, takeLine, hstage, hline]
  · cases hline : Line.next d.settings.maxLineLength atEnd w <;>
      simp only [next, takeLine, hstage, hline]

theorem takeLine_advance {d' : Decoder} {line : Bytes} {used n : Nat}
    (h : d.takeLine line used s = .advance n d' s') : n = used := by
  rw [takeLine] at h
  split at h
  · exact boundaryLine_advance h
  · exact headerLine_advance h
  · cases h

theorem AtLine.alive (h : d.AtLine) : d.stage.hasFailed = false := by
  obtain hstage | ⟨heading, hstage⟩ := h
  · rw [hstage]
    rfl
  · rw [hstage]
    rfl

/-- Only past the closing boundary is there nothing left to do. -/
theorem stage_of_next_finished (h : d.next s w atEnd = .finished) : d.stage = .ended := by
  cases hstage : d.stage with
  | ended => rfl
  | boundaryLine =>
    simp only [next, hstage, boundaryLine] at h
    split at h <;> (try split at h) <;> cases h
  | headerLines heading =>
    simp only [next, hstage, headerLine] at h
    split at h <;> repeat' split at h
    all_goals cases h
  | partData name content =>
    simp only [next, hstage, partData] at h
    split at h <;> repeat' split at h
    all_goals cases h
  | failed phase =>
    simp only [next, hstage] at h
    cases h

/-- What a step from `d` to `d'` leaves as it is. -/
structure GoesOn (d d' : Decoder) : Prop where
  settings : d'.settings = d.settings
  delimiter : d'.delimiter = d.delimiter
  alive : d'.stage.hasFailed = false

theorem goesOn_of_advance {d' : Decoder} {n : Nat} (h : d.next s w atEnd = .advance n d' s') :
    d.GoesOn d' := by
  rw [next] at h
  split at h
  · split at h
    · cases h
    · cases h
    · rw [boundaryLine] at h
      split at h <;> cases h <;> exact ⟨rfl, rfl, rfl⟩
  · split at h
    · cases h
    · cases h
    · unfold headerLine at h
      split at h
      · split at h <;> cases h
        exact ⟨rfl, rfl, rfl⟩
      · dsimp only at h
        split at h <;> cases h
        exact ⟨rfl, rfl, rfl⟩
  · rw [partData] at h
    split at h
    · split at h <;> cases h
      exact ⟨rfl, rfl, rfl⟩
    · dsimp only at h
      split at h
      · cases h
      · split at h <;> cases h
        exact ⟨rfl, rfl, rfl⟩
  · cases h
  · cases h

/-- What every step keeps up holds of the decoder that a run leaves, unless it
fails. -/
theorem run_keeps {P : Decoder → Prop}
    (hstep : ∀ {d d' : Decoder} {s s' : Storage} {w : Bytes} {n : Nat}, P d →
      d.next s w atEnd = .advance n d' s' → P d')
    {progress : Progress} (hd : P d) (h : (d.run s w atEnd).result = .ok progress) :
    P (d.run s w atEnd).decoder := by
  induction d, s, w using run_induction atEnd with
  | step d s w ih =>
    cases hnext : d.next s w atEnd with
    | wait => rwa [run_of_wait hnext]
    | finished => rwa [run_of_finished hnext]
    | fail e d' s' =>
      rw [run_of_fail hnext] at h
      cases h
    | advance n d' s' =>
      rw [run_of_advance hnext] at h ⊢
      exact ih n d' s' hnext (hstep hd hnext) h

theorem GoesOn.trans {d d' d'' : Decoder} (h : d.GoesOn d') (h' : d'.GoesOn d'') : d.GoesOn d'' :=
  ⟨h'.settings.trans h.settings, h'.delimiter.trans h.delimiter, h'.alive⟩

/-! ## Part data -/

theorem next_partData {name : String} {content : Content}
    (hstage : d.stage = .partData name content) :
    d.next s w atEnd = d.partData name content w s := by
  simp only [next, hstage]

variable {name : String} {content content' : Content} {place cut : Nat} {e : UploadError}

theorem partData_of_found (hfound : Delimiter.find? w d.delimiter = some place)
    (hwrite : content.write d.settings.maxFieldSize (Bytes.trimCrlf (w.take place)) s =
      .ok (content', s')) :
    d.partData name content w s =
      .advance place
        { d with stage := .boundaryLine, form := (d.form.publishPart name s' content').1 }
        (d.form.publishPart name s' content').2 := by
  simp only [partData, hfound, hwrite]

theorem partData_of_found_error (hfound : Delimiter.find? w d.delimiter = some place)
    (hwrite : content.write d.settings.maxFieldSize (Bytes.trimCrlf (w.take place)) s =
      .error e) :
    d.partData name content w s = .fail e d s := by
  simp only [partData, hfound, hwrite]

theorem partData_of_short (hnone : Delimiter.find? w d.delimiter = none)
    (hshort : w.length ≤ Delimiter.holdback d.delimiter) :
    d.partData name content w s = .wait := by
  simp only [partData, hnone, Nat.sub_eq_zero_of_le hshort, if_true]

theorem partData_of_flush (hnone : Delimiter.find? w d.delimiter = none)
    (hcut : w.length = cut + Delimiter.holdback d.delimiter) (hpos : cut ≠ 0)
    (hwrite : content.write d.settings.maxFieldSize (w.take cut) s = .ok (content', s')) :
    d.partData name content w s =
      .advance cut { d with stage := .partData name content' } s' := by
  have hsafe : w.length - Delimiter.holdback d.delimiter = cut := by omega
  simp only [partData, hnone, hsafe, if_neg hpos, hwrite]

theorem partData_of_flush_error (hnone : Delimiter.find? w d.delimiter = none)
    (hcut : w.length = cut + Delimiter.holdback d.delimiter) (hpos : cut ≠ 0)
    (hwrite : content.write d.settings.maxFieldSize (w.take cut) s = .error e) :
    d.partData name content w s = .fail e d s := by
  have hsafe : w.length - Delimiter.holdback d.delimiter = cut := by omega
  simp only [partData, hnone, hsafe, if_neg hpos, hwrite]

/-! ## Runs of so many rounds -/

/-- A run that ends within so many rounds. It goes down in their number, so it can be
evaluated on a body that is given. -/
def runWithin (atEnd : Bool) : Nat → Decoder → Storage → Bytes → Option Run
  | 0, _, _, _ => none
  | rounds + 1, d, s, w =>
    match d.next s w atEnd with
    | .wait => some ⟨.ok .needsMore, d, s, 0⟩
    | .finished => some ⟨.ok .complete, d, s, 0⟩
    | .fail e d s => some ⟨.error e, d, s, 0⟩
    | .advance n d s =>
      (runWithin atEnd rounds d s (w.drop n)).map fun rest => { rest with used := n + rest.used }

theorem run_of_runWithin {rounds : Nat} {r : Run} (h : runWithin atEnd rounds d s w = some r) :
    d.run s w atEnd = r := by
  induction rounds generalizing d s w r with
  | zero => cases h
  | succ rounds ih =>
    rw [runWithin] at h
    cases hnext : d.next s w atEnd with
    | wait =>
      rw [hnext] at h
      exact (run_of_wait hnext).trans (Option.some.inj h)
    | finished =>
      rw [hnext] at h
      exact (run_of_finished hnext).trans (Option.some.inj h)
    | fail e d' s' =>
      rw [hnext] at h
      exact (run_of_fail hnext).trans (Option.some.inj h)
    | advance n d' s' =>
      rw [hnext] at h
      obtain ⟨rest, hrest, rfl⟩ := Option.map_eq_some_iff.mp h
      rw [run_of_advance hnext, ih hrest]

/-- What is decided of a run within some rounds is so. -/
theorem run_satisfies {P : Run → Prop} [DecidablePred P] (atEnd : Bool) (rounds : Nat)
    (h : (runWithin atEnd rounds d s w).any (fun r => decide (P r)) = true) :
    P (d.run s w atEnd) := by
  cases hr : runWithin atEnd rounds d s w with
  | none =>
    rw [hr] at h
    cases h
  | some r =>
    rw [hr] at h
    rw [run_of_runWithin hr]
    exact of_decide_eq_true h

end Decoder

end Multipart

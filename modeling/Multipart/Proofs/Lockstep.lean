import Multipart.Proofs.Issuing

/-!
# Decoders in lockstep

What a decoder does with files comes down to a few operations: it creates
the temp file of a part, fills it, drops it or publishes it, and removes
the files of its form. If each of these keeps up a relation between two
decoders (`Lockstep`), then so does everything that the decoders do with
the same bytes: they take the same steps, and what they have stays
related. The lemmas follow a decoder from what an attribute does up to a
pass over its buffer (`Decoder.pass_inStep`).

What every operation on files keeps up of one decoder (`Invariant`) is so
kept up by steps and passes as well (`Invariant.advance`, `Invariant.pass`).

Whether a name can be opened may depend on its number, so a relation need
only be kept up until a certain number of names were issued.
-/

namespace Multipart

/-- What a decoder has of files: the open one, those of its form, and the
storage they are in. -/
structure Holdings where
  part? : Option FilePart
  form : Form
  storage : Storage

/-- A relation between the holdings of two decoders that every operation on
files keeps up, as long as no more than `bound` names were issued. Errors of
the operations are related by `E`. -/
structure Lockstep (settings : Settings) (bound : Nat) (R : Holdings → Holdings → Prop)
    (E : UploadError → UploadError → Prop) : Prop where
  same : ∀ e, E e e
  isSome : ∀ {p p' f f' s s'}, R ⟨p, f, s⟩ ⟨p', f', s'⟩ → p.isSome = p'.isSome
  drop : ∀ {p p' f f' s s'}, R ⟨p, f, s⟩ ⟨p', f', s'⟩ →
    R ⟨none, f, Decoder.dropOpenFile p s⟩ ⟨none, f', Decoder.dropOpenFile p' s'⟩
  create : ∀ {f f' s s'}, R ⟨none, f, s⟩ ⟨none, f', s'⟩ → s.names.issued < bound →
    (∃ e e' s₁ s₁', TempFile.create settings.uploadDir settings.maxFileSize s = (.error e, s₁) ∧
      TempFile.create settings.uploadDir settings.maxFileSize s' = (.error e', s₁') ∧ E e e' ∧
      R ⟨none, f, s₁⟩ ⟨none, f', s₁'⟩) ∨
    ∃ t t' s₁ s₁', TempFile.create settings.uploadDir settings.maxFileSize s = (.ok t, s₁) ∧
      TempFile.create settings.uploadDir settings.maxFileSize s' = (.ok t', s₁') ∧
      ∀ clientName, R ⟨some ⟨t, clientName, none⟩, f, s₁⟩ ⟨some ⟨t', clientName, none⟩, f', s₁'⟩
  retype : ∀ {p p' f f' s s'}, R ⟨some p, f, s⟩ ⟨some p', f', s'⟩ → ∀ contentType,
    R ⟨some { p with contentType }, f, s⟩ ⟨some { p' with contentType }, f', s'⟩
  append : ∀ {p p' f f' s s'}, R ⟨some p, f, s⟩ ⟨some p', f', s'⟩ → ∀ bytes,
    (∃ e e', p.target.append bytes s = .error e ∧ p'.target.append bytes s' = .error e' ∧ E e e') ∨
    ∃ t t' s₁ s₁', p.target.append bytes s = .ok (t, s₁) ∧
      p'.target.append bytes s' = .ok (t', s₁') ∧
      R ⟨some { p with target := t }, f, s₁⟩ ⟨some { p' with target := t' }, f', s₁'⟩
  publishFile : ∀ {p p' f f' s s'}, R ⟨some p, f, s⟩ ⟨some p', f', s'⟩ → ∀ field,
    R ⟨none, (f.publishPart field s (.file p)).1, (f.publishPart field s (.file p)).2⟩
      ⟨none, (f'.publishPart field s' (.file p')).1, (f'.publishPart field s' (.file p')).2⟩
  publishField : ∀ {f f' s s'}, R ⟨none, f, s⟩ ⟨none, f', s'⟩ → ∀ field value,
    R ⟨none, f.publishField field value, s⟩ ⟨none, f'.publishField field value, s'⟩
  removeFiles : ∀ {f f' s s'}, R ⟨none, f, s⟩ ⟨none, f', s'⟩ →
    R ⟨none, .empty, s.onDisk f.removeFiles⟩ ⟨none, .empty, s'.onDisk f'.removeFiles⟩

/-! ## Stages that match -/

/-- Headings of one name, both with a file or both without. -/
structure Heading.Matches (heading heading' : Heading) : Prop where
  name : heading.name = heading'.name
  isSome : heading.file.isSome = heading'.file.isSome

/-- The same value so far, or two files. -/
inductive Content.Matches : Content → Content → Prop where
  | plain (value : Bytes) : Matches (.plain value) (.plain value)
  | file (part part' : FilePart) : Matches (.file part) (.file part')

/-- The same stage, apart from the files. -/
inductive Stage.Matches : Stage → Stage → Prop where
  | boundaryLine : Matches .boundaryLine .boundaryLine
  | headerLines {heading heading' : Option Heading}
      (h : Option.Rel Heading.Matches heading heading') :
      Matches (.headerLines heading) (.headerLines heading')
  | partData (name : String) {content content' : Content} (h : content.Matches content') :
      Matches (.partData name content) (.partData name content')
  | ended : Matches .ended .ended
  | failed (phase : Phase) : Matches (.failed phase) (.failed phase)

theorem Stage.Matches.phase {stage stage' : Stage} (h : stage.Matches stage') :
    stage.phase = stage'.phase := by
  cases h <;> rfl

theorem Stage.Matches.hasFailed {stage stage' : Stage} (h : stage.Matches stage') :
    stage.hasFailed = stage'.hasFailed := by
  cases h <;> rfl

theorem Stage.Matches.ended_iff {stage stage' : Stage} (h : stage.Matches stage') :
    stage = .ended ↔ stage' = .ended := by
  cases h <;> simp

theorem Heading.Matches.refl (heading : Heading) : heading.Matches heading := ⟨rfl, rfl⟩

theorem Content.Matches.refl (content : Content) : content.Matches content := by
  cases content with
  | plain value => exact .plain value
  | file part => exact .file part part

theorem Stage.Matches.refl (stage : Stage) : stage.Matches stage := by
  cases stage with
  | boundaryLine => exact .boundaryLine
  | headerLines heading =>
    cases heading with
    | none => exact .headerLines .none
    | some heading => exact .headerLines (.some (.refl heading))
  | partData name content => exact .partData name (.refl content)
  | ended => exact .ended
  | failed phase => exact .failed phase

/-- Both answer with related values, or both with related errors. -/
inductive Answer.Related {α : Type} (E : UploadError → UploadError → Prop) (r : α → α → Prop) :
    Except UploadError α → Except UploadError α → Prop where
  | ok {x x' : α} (h : r x x') : Related E r (.ok x) (.ok x')
  | error {e e' : UploadError} (h : E e e') : Related E r (.error e) (.error e')

variable {R : Holdings → Holdings → Prop} {E : UploadError → UploadError → Prop}
  {settings : Settings} {bound : Nat} {s s' : Storage} {form form' : Form}

/-! ## Header lines -/

/-- What two headings became of the same header lines. -/
structure Heading.Described.InStep (R : Holdings → Holdings → Prop)
    (E : UploadError → UploadError → Prop) (form form' : Form) (r r' : Described) : Prop where
  error : Option.Rel E r.error r'.error
  heading : Option.Rel Matches r.heading r'.heading
  files : R ⟨part? r.heading, form, r.storage⟩ ⟨part? r'.heading, form', r'.storage⟩

theorem Heading.part?_rename (heading : Option Heading) (name : String) :
    part? (some (rename heading name)) = part? heading := by
  cases heading <;> rfl

theorem Heading.matches_rename {heading heading' : Option Heading}
    (h : Option.Rel Matches heading heading') (name : String) :
    (rename heading name).Matches (rename heading' name) := by
  cases h with
  | none => exact .refl _
  | some h => exact ⟨rfl, h.isSome⟩

theorem Heading.describe_inStep (hR : Lockstep settings bound R E) (attributes : List Attribute)
    {heading heading' : Option Heading} (hh : Option.Rel Matches heading heading')
    (h : R ⟨part? heading, form, s⟩ ⟨part? heading', form', s'⟩)
    (hle : (describe settings attributes heading s).storage.names.issued ≤ bound) :
    Described.InStep R E form form' (describe settings attributes heading s)
      (describe settings attributes heading' s') := by
  induction attributes generalizing heading heading' s s' with
  | nil => exact ⟨.none, hh, h⟩
  | cons a rest ih =>
    cases hrole : a.role with
    | other =>
      simp only [describe, hrole] at hle ⊢
      exact ih hh h hle
    | name =>
      simp only [describe, hrole] at hle ⊢
      refine ih (.some (matches_rename hh a.text)) ?_ hle
      rwa [part?_rename, part?_rename]
    | filename =>
      cases hh with
      | none =>
        simp only [describe, hrole]
        exact ⟨.some (hR.same _), .none, h⟩
      | @some heading heading' hh =>
        obtain ⟨name, file⟩ := heading
        obtain ⟨name', file'⟩ := heading'
        obtain rfl : name = name' := hh.name
        cases file with
        | some part =>
          obtain ⟨part', rfl⟩ := Option.isSome_iff_exists.mp hh.isSome.symm
          simp only [describe, hrole]
          exact ⟨.some (hR.same _), .some hh, h⟩
        | none =>
          obtain rfl : file' = none := Option.isNone_iff_eq_none.mp
            (by simpa using hh.isSome.symm)
          have hnames := TempFile.names_create settings.uploadDir settings.maxFileSize s
          have hlt : s.names.issued < bound := by
            refine Nat.lt_of_lt_of_le ?_ hle
            simp only [describe, hrole]
            split
            · next hcreate =>
              rw [hcreate] at hnames
              rw [hnames]
              exact Nat.lt_succ_self _
            · next hcreate =>
              rw [hcreate] at hnames
              refine Nat.lt_of_lt_of_le ?_ (issued_le_describe ..)
              rw [hnames]
              exact Nat.lt_succ_self _
          rcases hR.create h hlt with ⟨e, e', s₁, s₁', hs, hs', he, hafter⟩ |
            ⟨t, t', s₁, s₁', hs, hs', hafter⟩
          · simp only [describe, hrole, hs, hs']
            exact ⟨.some he, .some hh, hafter⟩
          · simp only [describe, hrole, hs, hs'] at hle ⊢
            exact ih (.some ⟨rfl, rfl⟩) (hafter a.text) hle

theorem Heading.matches_withContentType {heading heading' : Option Heading}
    (h : Option.Rel Matches heading heading') (value : String) :
    Option.Rel Matches (withContentType heading value) (withContentType heading' value) := by
  cases h with
  | none => exact .none
  | some h => exact .some ⟨h.name, by simpa using h.isSome⟩

theorem Heading.part?_withContentType (heading : Option Heading) (value : String) :
    part? (withContentType heading value) =
      (part? heading).map fun part => { part with contentType := some value } := by
  obtain _ | ⟨name, _ | part⟩ := heading <;> rfl

theorem Heading.read_inStep (hR : Lockstep settings bound R E) (line : List Char)
    {heading heading' : Option Heading} (hh : Option.Rel Matches heading heading')
    (h : R ⟨part? heading, form, s⟩ ⟨part? heading', form', s'⟩)
    (hle : (read settings line heading s).storage.names.issued ≤ bound) :
    Described.InStep R E form form' (read settings line heading s)
      (read settings line heading' s') := by
  rw [read] at hle ⊢
  rw [read]
  cases hparse : PartHeader.parse line with
  | disposition attributes =>
    rw [hparse] at hle
    exact describe_inStep hR attributes .none (hR.drop h) hle
  | contentType value =>
    refine ⟨.none, matches_withContentType hh _, ?_⟩
    simp only [part?_withContentType]
    have hsome := hR.isSome h
    generalize part? heading = p, part? heading' = p' at h hsome
    cases p with
    | none =>
      obtain rfl : p' = none := by simpa using hsome.symm
      exact h
    | some part =>
      obtain ⟨part', rfl⟩ := Option.isSome_iff_exists.mp hsome.symm
      exact hR.retype h _
  | other => exact ⟨.none, hh, h⟩

/-! ## Part data -/

theorem Content.write_inStep (hR : Lockstep settings bound R E) {content content' : Content}
    (hcontent : content.Matches content') (maxFieldSize : Nat) (data : Bytes)
    (h : R ⟨content.file?, form, s⟩ ⟨content'.file?, form', s'⟩) :
    (∃ e e', content.write maxFieldSize data s = .error e ∧
      content'.write maxFieldSize data s' = .error e' ∧ E e e') ∨
    ∃ content₁ content₁' s₁ s₁', content.write maxFieldSize data s = .ok (content₁, s₁) ∧
      content'.write maxFieldSize data s' = .ok (content₁', s₁') ∧ content₁.Matches content₁' ∧
      R ⟨content₁.file?, form, s₁⟩ ⟨content₁'.file?, form', s₁'⟩ := by
  cases hcontent with
  | plain value =>
    simp only [write]
    split
    · exact .inl ⟨_, _, rfl, rfl, hR.same _⟩
    · exact .inr ⟨_, _, s, s', rfl, rfl, .plain _, h⟩
  | file part part' =>
    rcases hR.append h data with ⟨e, e', hs, hs', he⟩ | ⟨t, t', s₁, s₁', hs, hs', hafter⟩
    · simp only [write, hs, hs']
      exact .inl ⟨e, e', rfl, rfl, he⟩
    · simp only [write, hs, hs']
      exact .inr ⟨_, _, s₁, s₁', rfl, rfl, .file _ _, hafter⟩

theorem Form.publishPart_inStep (hR : Lockstep settings bound R E) {content content' : Content}
    (hcontent : content.Matches content') (field : String)
    (h : R ⟨content.file?, form, s⟩ ⟨content'.file?, form', s'⟩) :
    R ⟨none, (form.publishPart field s content).1, (form.publishPart field s content).2⟩
      ⟨none, (form'.publishPart field s' content').1, (form'.publishPart field s' content').2⟩ := by
  cases hcontent with
  | plain value => exact hR.publishField h field value
  | file part part' => exact hR.publishFile h field

/-! ## Steps -/

namespace Decoder

/-- Decoders with these settings that are at one point of a body, with holdings
that are related. -/
structure InStep (settings : Settings) (R : Holdings → Holdings → Prop) (d : Decoder)
    (s : Storage) (d' : Decoder) (s' : Storage) : Prop where
  settings_eq : d.settings = settings
  settings_eq' : d'.settings = settings
  delimiter : d.delimiter = d'.delimiter
  stage : d.stage.Matches d'.stage
  files : R ⟨d.stage.openFile?, d.form, s⟩ ⟨d'.stage.openFile?, d'.form, s'⟩

end Decoder

/-- The same move of two decoders. -/
inductive Move.InStep (settings : Settings) (R : Holdings → Holdings → Prop)
    (E : UploadError → UploadError → Prop) : Move → Move → Prop where
  | wait : InStep settings R E .wait .wait
  | finished : InStep settings R E .finished .finished
  | advance (used : Nat) {d d' : Decoder} {s s' : Storage} (h : d.InStep settings R s d' s') :
      InStep settings R E (.advance used d s) (.advance used d' s')
  | fail {e e' : UploadError} {d d' : Decoder} {s s' : Storage} (he : E e e')
      (h : d.InStep settings R s d' s') : InStep settings R E (.fail e d s) (.fail e' d' s')

namespace Decoder

section Steps

variable {delimiter : Bytes} {stage stage' : Stage}

theorem boundaryLine_inStep (hR : Lockstep settings bound R E)
    (h : InStep settings R ⟨settings, delimiter, .boundaryLine, form⟩ s
      ⟨settings, delimiter, .boundaryLine, form'⟩ s') (line : Bytes) (used : Nat) :
    Move.InStep settings R E (boundaryLine ⟨settings, delimiter, .boundaryLine, form⟩ line used s)
      (boundaryLine ⟨settings, delimiter, .boundaryLine, form'⟩ line used s') := by
  rw [boundaryLine, boundaryLine]
  cases BoundaryLine.ofLine delimiter line with
  | malformed => exact .fail (hR.same _) h
  | closing => exact .advance used ⟨rfl, rfl, rfl, .ended, h.files⟩
  | opening => exact .advance used ⟨rfl, rfl, rfl, .headerLines .none, h.files⟩

theorem headerLine_inStep (hR : Lockstep settings bound R E) {heading heading' : Option Heading}
    (hh : Option.Rel Heading.Matches heading heading')
    (h : InStep settings R ⟨settings, delimiter, .headerLines heading, form⟩ s
      ⟨settings, delimiter, .headerLines heading', form'⟩ s') (line : Bytes) (used : Nat)
    (hle : (headerLine ⟨settings, delimiter, .headerLines heading, form⟩ heading line used
      s).IssuesWithin bound) :
    Move.InStep settings R E
      (headerLine ⟨settings, delimiter, .headerLines heading, form⟩ heading line used s)
      (headerLine ⟨settings, delimiter, .headerLines heading', form'⟩ heading' line used s') := by
  by_cases hempty : line.isEmpty = true
  · cases hh with
    | none =>
      simp only [headerLine, if_pos hempty]
      exact .fail (hR.same _) h
    | @some heading heading' hh =>
      have hfiles := h.files
      obtain ⟨name, file⟩ := heading
      obtain ⟨name', file'⟩ := heading'
      obtain rfl : name = name' := hh.name
      simp only [headerLine, if_pos hempty]
      cases file with
      | none =>
        obtain rfl : file' = none := by simpa using hh.isSome.symm
        exact .advance used ⟨rfl, rfl, rfl, .partData name (.plain []), hfiles⟩
      | some part =>
        obtain ⟨part', rfl⟩ := Option.isSome_iff_exists.mp hh.isSome.symm
        exact .advance used ⟨rfl, rfl, rfl, .partData name (.file part part'), hfiles⟩
  · have hread := Heading.read_inStep hR (Text.decode line) hh h.files
    simp only [headerLine, if_neg hempty] at hle ⊢
    generalize Heading.read settings (Text.decode line) heading s = r at hle hread ⊢
    generalize Heading.read settings (Text.decode line) heading' s' = r' at hread ⊢
    obtain ⟨error, described, s₁⟩ := r
    obtain ⟨error', described', s₁'⟩ := r'
    cases error with
    | none =>
      have hafter := hread hle
      obtain rfl : error' = none := by
        have herror : Option.Rel E none error' := hafter.error
        cases herror
        rfl
      exact .advance used ⟨rfl, rfl, rfl, .headerLines hafter.heading, hafter.files⟩
    | some e =>
      have hafter := hread hle
      have herror : Option.Rel E (some e) error' := hafter.error
      cases herror with
      | some he => exact .fail he ⟨rfl, rfl, rfl, .headerLines hafter.heading, hafter.files⟩

theorem partData_inStep (hR : Lockstep settings bound R E) {name : String}
    {content content' : Content} (hcontent : content.Matches content')
    (h : InStep settings R ⟨settings, delimiter, .partData name content, form⟩ s
      ⟨settings, delimiter, .partData name content', form'⟩ s') (window : Bytes) :
    Move.InStep settings R E
      (partData ⟨settings, delimiter, .partData name content, form⟩ name content window s)
      (partData ⟨settings, delimiter, .partData name content', form'⟩ name content' window s') := by
  have hwrite (data : Bytes) := Content.write_inStep hR hcontent settings.maxFieldSize data h.files
  cases hfind : Delimiter.find? window delimiter with
  | some place =>
    rcases hwrite (Bytes.trimCrlf (window.take place)) with ⟨e, e', hs, hs', he⟩ |
      ⟨content₁, content₁', s₁, s₁', hs, hs', hmatches, hafter⟩
    · rw [partData_of_found_error hfind hs, partData_of_found_error hfind hs']
      exact .fail he h
    · rw [partData_of_found hfind hs, partData_of_found hfind hs']
      exact .advance place
        ⟨rfl, rfl, rfl, .boundaryLine, Form.publishPart_inStep hR hmatches name hafter⟩
  | none =>
    by_cases hshort : window.length ≤ Delimiter.holdback delimiter
    · rw [partData_of_short hfind hshort, partData_of_short hfind hshort]
      exact .wait
    · obtain ⟨cut, hcut⟩ := Nat.exists_eq_add_of_lt (Nat.lt_of_not_le hshort)
      have hlength : window.length = (cut + 1) + Delimiter.holdback delimiter := by omega
      rcases hwrite (window.take (cut + 1)) with ⟨e, e', hs, hs', he⟩ |
        ⟨content₁, content₁', s₁, s₁', hs, hs', hmatches, hafter⟩
      · rw [partData_of_flush_error hfind hlength (by omega) hs,
          partData_of_flush_error hfind hlength (by omega) hs']
        exact .fail he h
      · rw [partData_of_flush hfind hlength (by omega) hs,
          partData_of_flush hfind hlength (by omega) hs']
        exact .advance (cut + 1) ⟨rfl, rfl, rfl, .partData name hmatches, hafter⟩

end Steps

variable {d d' : Decoder} {atEnd : Bool}

/-- Decoders in step take the same step on the same bytes. -/
theorem next_inStep (hR : Lockstep settings bound R E) (h : d.InStep settings R s d' s')
    (w : Bytes) (hle : (d.next s w atEnd).IssuesWithin bound) :
    Move.InStep settings R E (d.next s w atEnd) (d'.next s' w atEnd) := by
  obtain ⟨settings, delimiter, stage, form⟩ := d
  obtain ⟨settings', delimiter', stage', form'⟩ := d'
  obtain rfl := h.settings_eq
  obtain rfl : settings' = settings := h.settings_eq'
  obtain rfl : delimiter = delimiter' := h.delimiter
  have hstage : stage.Matches stage' := h.stage
  cases hstage with
  | boundaryLine =>
    simp only [next]
    cases hline : Line.next settings'.maxLineLength atEnd w with
    | incomplete => exact .wait
    | tooLong => exact .fail (hR.same _) h
    | whole line used => exact boundaryLine_inStep hR h line used
  | headerLines hh =>
    simp only [next] at hle ⊢
    cases hline : Line.next settings'.maxLineLength atEnd w with
    | incomplete => exact .wait
    | tooLong => exact .fail (hR.same _) h
    | whole line used =>
      rw [hline] at hle
      exact headerLine_inStep hR hh h line used hle
  | partData name hcontent => exact partData_inStep hR hcontent h w
  | ended => exact .finished
  | failed phase => exact .fail (hR.same _) h

end Decoder

/-! ## Runs and passes -/

/-- Runs that come to the same. -/
structure Run.InStep (settings : Settings) (R : Holdings → Holdings → Prop)
    (E : UploadError → UploadError → Prop) (r r' : Run) : Prop where
  result : Answer.Related E Eq r.result r'.result
  used : r.used = r'.used
  after : r.decoder.InStep settings R r.storage r'.decoder r'.storage

/-- Passes that come to the same. -/
structure Outcome.InStep (settings : Settings) (R : Holdings → Holdings → Prop)
    (E : UploadError → UploadError → Prop) (o o' : Outcome Progress) : Prop where
  result : Answer.Related E Eq o.result o'.result
  unread : o.buffer.unread = o'.buffer.unread
  after : o.decoder.InStep settings R o.storage o'.decoder o'.storage

theorem Answer.Related.elim {α : Type} {r : α → α → Prop} {x x' : Except UploadError α}
    (h : Answer.Related E r x x') :
    (∃ v v', x = .ok v ∧ x' = .ok v' ∧ r v v') ∨
      ∃ e e', x = .error e ∧ x' = .error e' ∧ E e e' := by
  cases h with
  | ok h => exact .inl ⟨_, _, rfl, rfl, h⟩
  | error h => exact .inr ⟨_, _, rfl, rfl, h⟩

namespace Decoder

variable {d d' : Decoder} {atEnd : Bool} {buffer buffer' : InputBuffer}

theorem run_inStep (hR : Lockstep settings bound R E) (h : d.InStep settings R s d' s')
    (w : Bytes) (hle : (d.run s w atEnd).storage.names.issued ≤ bound) :
    (d.run s w atEnd).InStep settings R E (d'.run s' w atEnd) := by
  induction d, s, w using run_induction atEnd generalizing d' s' with
  | step d s w ih =>
    have hnext : (d.next s w atEnd).IssuesWithin bound →
      Move.InStep settings R E (d.next s w atEnd) (d'.next s' w atEnd) := next_inStep hR h w
    cases hmove : d.next s w atEnd with
    | wait =>
      rw [hmove] at hnext
      cases hmove' : d'.next s' w atEnd <;> rw [hmove'] at hnext <;> cases hnext trivial
      rw [run_of_wait hmove, run_of_wait hmove']
      exact ⟨.ok rfl, rfl, h⟩
    | finished =>
      rw [hmove] at hnext
      cases hmove' : d'.next s' w atEnd <;> rw [hmove'] at hnext <;> cases hnext trivial
      rw [run_of_finished hmove, run_of_finished hmove']
      exact ⟨.ok rfl, rfl, h⟩
    | fail e d₁ s₁ =>
      rw [run_of_fail hmove] at hle ⊢
      rw [hmove] at hnext
      cases hmove' : d'.next s' w atEnd <;> rw [hmove'] at hnext <;> cases hnext hle
      next he hfail =>
        rw [run_of_fail hmove']
        exact ⟨.error he, rfl, hfail⟩
    | advance n d₁ s₁ =>
      rw [run_of_advance hmove] at hle ⊢
      rw [hmove] at hnext
      have hle₁ : s₁.names.issued ≤ bound :=
        Nat.le_trans (issued_le_run d₁ s₁ (w.drop n) atEnd) hle
      cases hmove' : d'.next s' w atEnd <;> rw [hmove'] at hnext <;> cases hnext hle₁
      next hafter =>
        obtain ⟨hresult, hused, hrest⟩ := ih n d₁ s₁ hmove hafter hle
        rw [run_of_advance hmove']
        exact ⟨hresult, congrArg (n + ·) hused, hrest⟩

/-- What decoders that give up leave behind. -/
theorem InStep.release (hR : Lockstep settings bound R E) (h : d.InStep settings R s d' s') :
    R ⟨none, .empty, d.release s⟩ ⟨none, .empty, d'.release s'⟩ :=
  hR.removeFiles (hR.drop h.files)

theorem InStep.abort (hR : Lockstep settings bound R E) (h : d.InStep settings R s d' s') :
    (d.abort s).1.InStep settings R (d.abort s).2 (d'.abort s').1 (d'.abort s').2 where
  settings_eq := h.settings_eq
  settings_eq' := h.settings_eq'
  delimiter := h.delimiter
  stage := by
    show Stage.Matches (.failed d.stage.phase) (.failed d'.stage.phase)
    rw [h.stage.phase]
    exact .failed _
  files := h.release hR

theorem unread_pass (hd : d.stage.hasFailed = false) :
    (d.pass s buffer atEnd).buffer.unread =
      buffer.unread.drop (d.run s buffer.unread atEnd).used := by
  cases h : (d.run s buffer.unread atEnd).result <;> simp [pass, hd, h, Decoder.abort]

/-- Decoders in step pass over the same bytes alike. -/
theorem pass_inStep (hR : Lockstep settings bound R E) (h : d.InStep settings R s d' s')
    (hbuffer : buffer.unread = buffer'.unread)
    (hle : (d.pass s buffer atEnd).storage.names.issued ≤ bound) :
    (d.pass s buffer atEnd).InStep settings R E (d'.pass s' buffer' atEnd) := by
  cases hd : d.stage.hasFailed with
  | true =>
    have hd' := h.stage.hasFailed.symm.trans hd
    simp only [pass, hd, hd', if_true]
    exact ⟨.error (hR.same _), hbuffer, h⟩
  | false =>
    have hd' := h.stage.hasFailed.symm.trans hd
    rw [names_pass hd] at hle
    obtain ⟨hresult, hused, hrun⟩ := run_inStep hR h buffer.unread hle
    have hunread : (d.pass s buffer atEnd).buffer.unread =
        (d'.pass s' buffer' atEnd).buffer.unread := by
      rw [unread_pass hd, unread_pass hd', ← hbuffer, hused]
    rcases hresult.elim with ⟨progress, progress', hres, hres', rfl⟩ | ⟨e, e', hres, hres', he⟩
    · rw [hbuffer] at hres'
      obtain ⟨hp, hdec, hsto, -⟩ := pass_of_ok hd hres
      obtain ⟨hp', hdec', hsto', -⟩ := pass_of_ok hd' hres'
      refine ⟨?_, hunread, ?_⟩
      · rw [hp, hp']
        exact .ok rfl
      · rw [hdec, hdec', hsto, hsto', ← hbuffer]
        exact hrun
    · rw [hbuffer] at hres'
      obtain ⟨hp, hdec, hsto⟩ := pass_of_error hd hres
      obtain ⟨hp', hdec', hsto'⟩ := pass_of_error hd' hres'
      refine ⟨?_, hunread, ?_⟩
      · rw [hp, hp']
        exact .error he
      · rw [hdec, hdec', hsto, hsto', ← hbuffer]
        exact hrun.abort hR

end Decoder

/-! ## Invariants -/

def Decoder.holdings (d : Decoder) (s : Storage) : Holdings := ⟨d.stage.openFile?, d.form, s⟩

/-- What every operation on files keeps up. -/
structure Invariant (settings : Settings) (P : Holdings → Prop) : Prop where
  drop : ∀ {p f s}, P ⟨p, f, s⟩ → P ⟨none, f, Decoder.dropOpenFile p s⟩
  refuse : ∀ {f s e s'}, P ⟨none, f, s⟩ →
    TempFile.create settings.uploadDir settings.maxFileSize s = (.error e, s') → P ⟨none, f, s'⟩
  create : ∀ {f s t s'}, P ⟨none, f, s⟩ →
    TempFile.create settings.uploadDir settings.maxFileSize s = (.ok t, s') →
      ∀ clientName, P ⟨some ⟨t, clientName, none⟩, f, s'⟩
  retype : ∀ {p f s}, P ⟨some p, f, s⟩ → ∀ contentType, P ⟨some { p with contentType }, f, s⟩
  append : ∀ {p f s bytes t s'}, P ⟨some p, f, s⟩ → p.target.append bytes s = .ok (t, s') →
    P ⟨some { p with target := t }, f, s'⟩
  publishFile : ∀ {p f s}, P ⟨some p, f, s⟩ → ∀ field,
    P ⟨none, (f.publishPart field s (.file p)).1, (f.publishPart field s (.file p)).2⟩
  publishField : ∀ {f s}, P ⟨none, f, s⟩ → ∀ field value, P ⟨none, f.publishField field value, s⟩
  removeFiles : ∀ {f s}, P ⟨none, f, s⟩ → P ⟨none, .empty, s.onDisk f.removeFiles⟩

namespace Invariant

variable {P : Holdings → Prop}

/-- A decoder is in step with itself. -/
theorem lockstep (hP : Invariant settings P) (bound : Nat) :
    Lockstep settings bound (fun x x' => x = x' ∧ P x) Eq where
  same _ := rfl
  isSome := by
    rintro p p' f f' s s' ⟨⟨⟩, -⟩
    rfl
  drop := by
    rintro p p' f f' s s' ⟨⟨⟩, h⟩
    exact ⟨rfl, hP.drop h⟩
  create := by
    rintro f f' s s' ⟨⟨⟩, h⟩ -
    cases hcreate : TempFile.create settings.uploadDir settings.maxFileSize s with
    | mk result s₁ =>
      cases result with
      | error e => exact .inl ⟨e, e, s₁, s₁, rfl, rfl, rfl, rfl, hP.refuse h hcreate⟩
      | ok t =>
        exact .inr ⟨t, t, s₁, s₁, rfl, rfl, fun name => ⟨rfl, hP.create h hcreate name⟩⟩
  retype := by
    rintro p p' f f' s s' ⟨⟨⟩, h⟩ contentType
    exact ⟨rfl, hP.retype h contentType⟩
  append := by
    rintro p p' f f' s s' ⟨⟨⟩, h⟩ bytes
    cases happend : p.target.append bytes s with
    | error e => exact .inl ⟨e, e, rfl, rfl, rfl⟩
    | ok result => exact .inr ⟨_, _, _, _, rfl, rfl, rfl, hP.append h happend⟩
  publishFile := by
    rintro p p' f f' s s' ⟨⟨⟩, h⟩ field
    exact ⟨rfl, hP.publishFile h field⟩
  publishField := by
    rintro f f' s s' ⟨⟨⟩, h⟩ field value
    exact ⟨rfl, hP.publishField h field value⟩
  removeFiles := by
    rintro f f' s s' ⟨⟨⟩, h⟩
    exact ⟨rfl, hP.removeFiles h⟩

variable {d : Decoder} {atEnd : Bool} {buffer : InputBuffer}

theorem inStep_self (h : P (d.holdings s)) :
    d.InStep d.settings (fun x x' => x = x' ∧ P x) s d s :=
  ⟨rfl, rfl, rfl, .refl d.stage, rfl, h⟩

/-- A step keeps it up, also where it fails (`Invariant.fail`). -/
theorem advance {d' : Decoder} {w : Bytes} {n : Nat} (hP : Invariant d.settings P)
    (h : P (d.holdings s)) (hnext : d.next s w atEnd = .advance n d' s') :
    d'.settings = d.settings ∧ P (d'.holdings s') := by
  have hmove : (d.next s w atEnd).InStep d.settings (fun x x' => x = x' ∧ P x) Eq
      (d.next s w atEnd) :=
    Decoder.next_inStep (hP.lockstep s'.names.issued) (inStep_self h) w
      (by rw [hnext]; exact Nat.le_refl _)
  rw [hnext] at hmove
  cases hmove with
  | advance _ hafter => exact ⟨hafter.settings_eq, hafter.files.2⟩

theorem fail {d' : Decoder} {w : Bytes} {e : UploadError} (hP : Invariant d.settings P)
    (h : P (d.holdings s)) (hnext : d.next s w atEnd = .fail e d' s') :
    d'.settings = d.settings ∧ P (d'.holdings s') := by
  have hmove : (d.next s w atEnd).InStep d.settings (fun x x' => x = x' ∧ P x) Eq
      (d.next s w atEnd) :=
    Decoder.next_inStep (hP.lockstep s'.names.issued) (inStep_self h) w
      (by rw [hnext]; exact Nat.le_refl _)
  rw [hnext] at hmove
  cases hmove with
  | fail _ hafter => exact ⟨hafter.settings_eq, hafter.files.2⟩

theorem pass (hP : Invariant d.settings P) (h : P (d.holdings s)) :
    (d.pass s buffer atEnd).decoder.settings = d.settings ∧
      P ((d.pass s buffer atEnd).decoder.holdings (d.pass s buffer atEnd).storage) := by
  have hpass : (d.pass s buffer atEnd).InStep d.settings (fun x x' => x = x' ∧ P x) Eq
      (d.pass s buffer atEnd) :=
    Decoder.pass_inStep (hP.lockstep _) (inStep_self h) rfl (Nat.le_refl _)
  exact ⟨hpass.after.settings_eq, hpass.after.files.2⟩

theorem release (hP : Invariant d.settings P) (h : P (d.holdings s)) :
    P ⟨none, .empty, d.release s⟩ :=
  hP.removeFiles (hP.drop h)

end Invariant

end Multipart

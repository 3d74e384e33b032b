import Mathlib
import Multipart.Proofs.Cells
import Multipart.Proofs.Moments

/-!
# What belongs to a phase

Cells are consistent (`Cells.Consistent`) if they hold what belongs to their
phase and nothing else, and if an open file is on disk as they say. Nothing in a
handler sees to it: a header line with a file name leaves the value as it is, a
boundary line that closes the body leaves all cells as they are, and
`Cells.completePart` asks once more whether the part has a name.

Every moment of cells that started empty is the view of a moment of a session
(`Cells.Visits.exists_decoder`), and a decoder that knows its current part has a
consistent view (`Decoder.consistent_cells`). So all moments are consistent, which
is the main statement, `Cells.consistent_of_visits`. What follows is that data is
refused for nothing but its size once the empty line has come: there always is a
name then, and an open file has its handle.
-/

namespace Multipart

/-! ## Moments of cells -/

/-- The current part with some more bytes, used up in a phase. -/
def Excerpt.read (x : Excerpt) (phase : Phase) (used : Bytes) : Excerpt :=
  match phase with
  | .boundaryLine => .empty
  | .headerLines =>
    let content := Bytes.dropCr (Line.body used)
    if content.isEmpty then x else { x with lines := x.lines ++ [content] }
  | .partData => { x with data := x.data ++ used }
  | .ended => x

theorem Excerpt.after_eq {stage : Stage} (h : stage.hasFailed = false) (x : Excerpt)
    (used : Bytes) : x.after stage used = x.read stage.phase used := by
  cases stage with
  | failed phase => cases h
  | _ => rfl

namespace Cells

/-- Cells and storage between two steps, the forms that were handed over, and what
was used up of the current part. -/
structure Moment where
  cells : Cells
  storage : Storage
  handed : List Form
  excerpt : Excerpt

/-- The moments that cells go through. The bytes of a step are the caller's. -/
inductive Visits (start : Cells) (s : Storage) : Moment → Prop where
  | start : Visits start s ⟨start, s, [], .empty⟩
  | advance {m : Moment} {c : Cells} {s' : Storage} {w : Bytes} {atEnd : Bool} {n : Nat}
      (h : Visits start s m) (halive : m.cells.failed = false)
      (hnext : m.cells.next m.storage w atEnd = .advance n c s') :
      Visits start s ⟨c, s', m.handed, m.excerpt.read m.cells.phase (w.take n)⟩
  | fail {m : Moment} {c : Cells} {s' : Storage} {w : Bytes} {atEnd : Bool} {e : UploadError}
      (h : Visits start s m) (halive : m.cells.failed = false)
      (hnext : m.cells.next m.storage w atEnd = .fail e c s') :
      Visits start s ⟨(c.abort s').1, (c.abort s').2, m.handed, m.excerpt⟩
  /-- The body ended before the closing boundary. -/
  | giveUp {m : Moment} (h : Visits start s m) :
      Visits start s ⟨(m.cells.abort m.storage).1, (m.cells.abort m.storage).2, m.handed, m.excerpt⟩
  | handOver {m : Moment} (h : Visits start s m) (halive : m.cells.failed = false)
      (hphase : m.cells.phase = .ended) :
      Visits start s
        ⟨{ m.cells with form := .empty }, m.storage, m.handed ++ [m.cells.form], m.excerpt⟩

variable {d : Decoder} {s : Storage} {m : Moment}

/-- Cells that start as the view of a decoder stay the view of one. -/
theorem Visits.exists_decoder (h : Visits d.cells s m) :
    ∃ d', m.cells = d'.cells ∧
      Session.Visits ⟨some d, s, []⟩ ⟨some d', m.storage, m.handed⟩ m.excerpt := by
  induction h with
  | start => exact ⟨d, rfl, .start⟩
  | @advance m c s' w atEnd n _ halive hnext ih =>
    obtain ⟨d₁, hcells, hvisits⟩ := ih
    rw [hcells] at halive hnext ⊢
    rw [Decoder.next_cells halive] at hnext
    obtain ⟨d₂, hmove, rfl⟩ := Move.eq_advance_of_cells hnext
    have hafter := hvisits.advance hmove
    rw [Excerpt.after_eq halive] at hafter
    exact ⟨d₂, rfl, hafter⟩
  | @fail m c s' w atEnd e _ halive hnext ih =>
    obtain ⟨d₁, hcells, hvisits⟩ := ih
    rw [hcells] at halive hnext
    rw [Decoder.next_cells halive] at hnext
    obtain ⟨d₂, hmove, rfl⟩ := Move.eq_fail_of_cells hnext
    exact ⟨(d₂.abort s').1, rfl, hvisits.fail hmove⟩
  | @giveUp m _ ih =>
    obtain ⟨d₁, hcells, hvisits⟩ := ih
    rw [hcells]
    exact ⟨(d₁.abort m.storage).1, rfl, hvisits.giveUp⟩
  | @handOver m _ halive hphase ih =>
    obtain ⟨d₁, hcells, hvisits⟩ := ih
    rw [hcells] at halive hphase ⊢
    have hstage : d₁.stage = .ended := by
      cases hstage : d₁.stage with
      | ended => rfl
      | failed phase => rw [Decoder.failed_cells, hstage] at halive; cases halive
      | _ => rw [Decoder.cells, Decoder.phase, hstage] at hphase; cases hphase
    exact ⟨{ d₁ with form := .empty }, rfl, hvisits.handOver hstage⟩

end Cells

/-- A decoder that has failed only ever says so. -/
theorem Decoder.next_of_failed {d : Decoder} (h : d.stage.hasFailed = true) (s : Storage)
    (w : Bytes) (atEnd : Bool) : d.next s w atEnd = .fail (.protocol .alreadyFailed) d s := by
  obtain ⟨phase, hstage⟩ := Stage.eq_failed h
  rw [next, hstage]

namespace Session

/-- The view of a moment of a session is a moment of the view. -/
theorem Visits.cells {d : Decoder} {s : Storage} {t : Session} {x : Excerpt}
    (h : Visits ⟨some d, s, []⟩ t x) :
    ∀ d', t.decoder? = some d' → Cells.Visits d.cells s ⟨d'.cells, t.storage, t.handed, x⟩ := by
  induction h with
  | start =>
    rintro _ ⟨⟩
    exact .start
  | @advance d₁ d₂ s₁ s₂ handed x w atEnd n _ hnext ih =>
    rintro _ ⟨⟩
    cases halive : d₁.stage.hasFailed with
    | false =>
      rw [Excerpt.after_eq halive]
      exact (ih d₁ rfl).advance halive
        ((Decoder.next_cells halive s₁ w atEnd).trans (congrArg Move.cells hnext))
    | true =>
      rw [Decoder.next_of_failed halive] at hnext
      cases hnext
  | @fail d₁ d₂ s₁ s₂ handed x w atEnd e _ hnext ih =>
    rintro _ ⟨⟩
    cases halive : d₁.stage.hasFailed with
    | false =>
      exact (ih d₁ rfl).fail halive
        ((Decoder.next_cells halive s₁ w atEnd).trans (congrArg Move.cells hnext))
    | true =>
      rw [Decoder.next_of_failed halive] at hnext
      cases hnext
      exact (ih d₁ rfl).giveUp
  | @giveUp d₁ s₁ handed x _ ih =>
    rintro _ ⟨⟩
    exact (ih d₁ rfl).giveUp
  | @handOver d₁ s₁ handed x _ hstage ih =>
    rintro _ ⟨⟩
    refine (ih d₁ rfl).handOver ?_ ?_
    · rw [Decoder.failed_cells, hstage]
      rfl
    · exact congrArg Stage.phase hstage

end Session

/-! ## Consistent cells -/

namespace Cells

/-- The cells hold what belongs to their phase and nothing else, and what they say
of the open file is so on disk. -/
structure Consistent (c : Cells) (s : Storage) : Prop where
  failed : c.failed = true → c.field = none ∧ c.file = none ∧ c.value = [] ∧ c.form = .empty
  /-- Between parts there is no field. -/
  between : c.failed = false → c.phase = .boundaryLine ∨ c.phase = .ended →
    c.field = none ∧ c.file = none ∧ c.value = []
  headerLines : c.failed = false → c.phase = .headerLines →
    c.value = [] ∧ (c.file.isSome = true → c.field.isSome = true)
  partData : c.failed = false → c.phase = .partData →
    c.field.isSome = true ∧ (c.file.isSome = true → c.value = [])
  file : ∀ part, c.file = some part →
    ∃ data, part.target.Holds data s ∧ data.length ≤ c.settings.maxFileSize
  value : c.value.length ≤ c.settings.maxFieldSize

/-- What the cells say of the part that is being read. -/
def label (c : Cells) : Option Label :=
  c.field.map fun name =>
    ⟨name, c.file.map fun part => (part.clientName, part.contentType)⟩

/-- The name, the file name, the content type and the data of the part are those of
its own header lines and its own data, as far as they were used up. -/
def Moment.FromPart (m : Moment) : Prop :=
  match m.cells.phase with
  | .headerLines => Label.ofLines m.excerpt.lines = some m.cells.label ∧ m.excerpt.data = []
  | .partData =>
    Label.ofLines m.excerpt.lines = some m.cells.label ∧
      (∀ part, m.cells.file = some part → part.target.Holds m.excerpt.data m.storage) ∧
      (m.cells.file = none → m.cells.value = m.excerpt.data)
  | .boundaryLine | .ended => True

end Cells

namespace Decoder

variable {d : Decoder} {s : Storage} {x : Excerpt}

/-- What a decoder knows of its part makes its view consistent. -/
theorem consistent_cells (hknows : d.Knows s x)
    (hform : d.stage.hasFailed = true → d.form = .empty) : d.cells.Consistent s := by
  obtain ⟨settings, delimiter, stage, form⟩ := d
  cases stage with
  | boundaryLine =>
    exact ⟨nofun, fun _ _ => ⟨rfl, rfl, rfl⟩, nofun, nofun, nofun, Nat.zero_le _⟩
  | ended =>
    exact ⟨nofun, fun _ _ => ⟨rfl, rfl, rfl⟩, nofun, nofun, nofun, Nat.zero_le _⟩
  | failed phase =>
    exact ⟨fun _ => ⟨rfl, rfl, rfl, hform rfl⟩, nofun, nofun, nofun, nofun, Nat.zero_le _⟩
  | headerLines heading =>
    obtain ⟨-, -, hfile⟩ := hknows
    have hneither : ¬(Phase.headerLines = .boundaryLine ∨ Phase.headerLines = .ended) := by decide
    refine ⟨nofun, fun _ h => absurd h hneither, ?_, nofun, ?_, Nat.zero_le _⟩
    · refine fun _ _ => ⟨rfl, fun hopen => ?_⟩
      cases heading with
      | none => cases hopen
      | some heading => rfl
    · intro part hpart
      exact ⟨[], hfile part hpart, Nat.zero_le _⟩
  | partData name content =>
    obtain ⟨-, hholds, hle⟩ := hknows
    have hneither : ¬(Phase.partData = .boundaryLine ∨ Phase.partData = .ended) := by decide
    cases content with
    | plain value =>
      obtain rfl : value = x.data := hholds
      exact ⟨nofun, fun _ h => absurd h hneither, nofun, fun _ _ => ⟨rfl, nofun⟩, nofun, hle⟩
    | file part =>
      refine ⟨nofun, fun _ h => absurd h hneither, nofun, fun _ _ => ⟨rfl, fun _ => rfl⟩, ?_,
        Nat.zero_le _⟩
      rintro _ ⟨⟩
      exact ⟨x.data, hholds, hle⟩

theorem fromPart_cells (halive : d.stage.hasFailed = false) (hknows : d.Knows s x)
    (handed : List Form) : Cells.Moment.FromPart ⟨d.cells, s, handed, x⟩ := by
  obtain ⟨settings, delimiter, stage, form⟩ := d
  cases stage with
  | boundaryLine => trivial
  | ended => trivial
  | failed phase => cases halive
  | headerLines heading =>
    obtain ⟨hlabel, hdata, -⟩ := hknows
    refine ⟨hlabel.trans (congrArg some ?_), hdata⟩
    obtain _ | ⟨name, _ | part⟩ := heading <;> rfl
  | partData name content =>
    obtain ⟨hlabel, hholds, -⟩ := hknows
    cases content with
    | plain value => exact ⟨hlabel, nofun, fun _ => hholds⟩
    | file part =>
      refine ⟨hlabel, ?_, nofun⟩
      rintro _ ⟨⟩
      exact hholds

/-- A part takes all data that does not make it too large. -/
theorem write_error {name : String} {content : Content} {data : Bytes} {e : UploadError}
    (hopen : d.Fillable) (hknows : d.Knows s x) (hstage : d.stage = .partData name content)
    (h : content.write d.settings.maxFieldSize data s = .error e) :
    e = .limitExceeded (d.settings.ceiling content.file?.isSome) := by
  rw [Fillable, hstage] at hopen
  rw [Knows, hstage] at hknows
  obtain ⟨-, hholds, -⟩ := hknows
  rcases Nat.lt_or_ge (d.settings.ceiling content.file?.isSome) (x.data ++ data).length with
    hlong | hfits
  · rw [Content.write_of_exceeds hopen hholds hlong] at h
    exact (Except.error.inj h).symm
  · obtain ⟨s₁, hok, -⟩ := Content.write_of_fits hopen hholds hfits
    rw [hok] at h
    cases h

/-- In part data the handlers refuse nothing but data that makes the part too large. -/
theorem handled_error {data : Bytes} {e : UploadError} (hopen : d.Fillable)
    (hknows : d.Knows s x) (halive : d.stage.hasFailed = false) (hphase : d.phase = .partData)
    (h : (d.cells.writeData data s).error = some e ∨
      (d.cells.completePart data s).error = some e) :
    e = .limitExceeded (d.settings.ceiling d.cells.file.isSome) := by
  cases hstage : d.stage with
  | partData name content =>
    rw [writeData_cells hstage, completePart_cells hstage] at h
    have hfile : d.cells.file = content.file? := congrArg Stage.openFile? hstage
    rw [hfile]
    cases hwrite : content.write d.settings.maxFieldSize data s with
    | error e' =>
      rw [hwrite] at h
      rcases h with ⟨⟨⟩⟩ | ⟨⟨⟩⟩ <;> exact write_error hopen hknows hstage hwrite
    | ok out =>
      rw [hwrite] at h
      rcases h with h | h <;> cases h
  | failed phase =>
    rw [hstage] at halive
    cases halive
  | _ =>
    rw [phase, hstage] at hphase
    cases hphase

end Decoder

/-! ## All moments -/

namespace Cells

variable {token : String} {settings : Settings} {c : Cells}

/-- Calls on cells are calls on a decoder, and all that they go through are moments at
which the cells are consistent. What the cells have of the current part comes from this
part alone; no more than one temp file is open, and every other one was published; and
data is refused for nothing but its size, so neither a missing name nor a closed file
is ever met where it is written. -/
theorem consistent_of_visits (hnew : new token settings = .ok c) (s : Storage) :
    let o := settings.origin s
    (∃ d, Decoder.new token settings = .ok d ∧ ∀ calls,
      let t := Session.run ⟨some d, s, []⟩ (calls.map Call.op)
      ∃ d' x, t.decoder? = some d' ∧ c.after s calls = (d'.cells, t.storage) ∧
        Visits c s ⟨d'.cells, t.storage, t.handed, x⟩ ∧
        ∀ buffer, d'.cells.process t.storage buffer = (d'.process t.storage buffer).cells ∧
          d'.cells.finish t.storage buffer = (d'.finish t.storage buffer).cells) ∧
    ∀ m, Visits c s m →
      m.cells.settings = settings ∧ m.cells.Consistent m.storage ∧
      (m.cells.failed = false → m.FromPart) ∧
      (∀ k, o.names.issued + k < m.storage.names.issued →
        m.storage.disk.read? (o.path k) ≠ none →
        o.path k ∉ (m.cells.form.files.values ++
          m.handed.flatMap (·.files.values)).map StoredFile.path →
        m.cells.file.map (·.target.path) = some (o.path k)) ∧
      (m.cells.failed = false → m.cells.phase = .partData → ∀ data e,
        (m.cells.writeData data m.storage).error = some e ∨
          (m.cells.completePart data m.storage).error = some e →
        e = .limitExceeded (settings.ceiling m.cells.file.isSome)) := by
  intro o
  rw [new_eq] at hnew
  cases hdecoder : Decoder.new token settings with
  | error e =>
    rw [hdecoder] at hnew
    cases hnew
  | ok d =>
    rw [hdecoder] at hnew
    cases hnew
    refine ⟨⟨d, rfl, fun calls => ?_⟩, fun m hm => ?_⟩
    · obtain ⟨d', hd', hafter⟩ := d.after_cells s [] calls
      obtain ⟨x, hx⟩ := Session.visits_run ⟨some d, s, []⟩ (calls.map Call.op) d' hd'
      exact ⟨d', x, hd', hafter, hx.cells d' hd',
        fun buffer => ⟨d'.process_cells _ buffer, d'.finish_cells _ buffer⟩⟩
    · obtain ⟨d', hcells, hvisits⟩ := hm.exists_decoder
      obtain ⟨hopen, hknows, hform⟩ := hvisits.known hdecoder d' rfl
      obtain rfl := (hvisits.tidy hdecoder).1 d' rfl
      obtain ⟨_, s', handed, x⟩ := m
      obtain rfl := hcells
      refine ⟨rfl, Decoder.consistent_cells hknows hform,
        fun halive => Decoder.fromPart_cells halive hknows handed, fun k hk hread hnot => ?_,
        fun halive hphase data e => Decoder.handled_error hopen hknows halive hphase⟩
      have hpath := hvisits.openPaths_eq hdecoder hk hread hnot
      exact Option.toList_eq_singleton_iff.mp hpath

/-- The second of two file parts, when five bytes of it are on disk. The first had a content
type. -/
theorem consistent_of_visits_of_second_file :
    let s : Storage := ⟨.ofFolders [["tmp"]], ⟨1, 0, 0⟩⟩
    let body := Text.toBytes <|
      "--B\r\nContent-Disposition: x; name=a; filename=f\r\nContent-Type: t\r\n\r\nx\r\n" ++
      "--B\r\nContent-Disposition: x; name=b; filename=g\r\n\r\nsome data"
    ∃ c, new "B" .standard = .ok c ∧
      let (c', s') := c.after s [.process (InputBuffer.empty.push body)]
      (c'.phase = .partData ∧ c'.failed = false ∧ c'.label = some ⟨"b", some ("g", none)⟩ ∧
        c'.file.map (·.target.size) = some 5) ∧
      c'.Consistent s' ∧
      ∀ data, (c'.completePart data s').error ≠ some (.protocol .missingName) := by
  intro s body
  have hdecoder := Decoder.new_of_ne .standard (show "B" ≠ "" by decide)
  generalize hd : Decoder.mk _ _ _ _ = d at hdecoder
  have hnew : new "B" .standard = .ok d.cells := by rw [new_eq, hdecoder]; rfl
  refine ⟨_, hnew, ?_⟩
  obtain ⟨hmore, hphase, halive, hlabel, hsize⟩ :=
    Decoder.run_satisfies (d := d) (s := s) (w := body) (P := fun r =>
      r.result = .ok .needsMore ∧ r.decoder.cells.phase = .partData ∧
      r.decoder.cells.failed = false ∧
      r.decoder.cells.label = some ⟨"b", some ("g", none)⟩ ∧
      r.decoder.cells.file.map (·.target.size) = some 5)
      false 20 (by rw [← hd]; decide +kernel)
  obtain ⟨⟨d₀, hd₀, hcalls⟩, hmoments⟩ := consistent_of_visits hnew s
  obtain rfl := Except.ok.inj (hdecoder.symm.trans hd₀)
  obtain ⟨d', x, hd', hafter, hvisits, -⟩ := hcalls [.process (InputBuffer.empty.push body)]
  have hrun := Session.run_process (s := s)
    (Decoder.hasFailed_of_next_wait (Decoder.next_new (s := s) hdecoder)) hmore
  simp only [List.map_cons, List.map_nil, Call.op] at hd' hafter hvisits
  rw [hrun] at hd' hafter hvisits
  obtain rfl := Option.some.inj hd'
  obtain ⟨-, hconsistent, -, -, hrefused⟩ := hmoments _ hvisits
  rw [hafter]
  refine ⟨⟨hphase, halive, hlabel, hsize⟩, hconsistent, fun data herror => ?_⟩
  cases hrefused halive hphase data _ (.inr herror)

end Cells

end Multipart

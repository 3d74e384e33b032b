import Multipart.Proofs.Accepting
import Multipart.Proofs.Rendering

/-!
# What was written is read

A body that was written from parts is read as these parts, whatever layouts
the sender has chosen and however the body arrives
(`Decoder.finish_feedAll_renderBody`). They are published in order, so that
for each name the last part wins, and the file of a field holds the data of
the last file that was sent for it.
-/

namespace Multipart

/-! ## What is published -/

namespace Part

/-- How many of some parts are files. -/
def files (parts : List Part) : Nat := parts.countP (·.label.file.isSome)

/-- The form with some parts, in front of which so many files were sent. -/
def publishAll (o : Origin) : Nat → List Part → Form → Form
  | _, [], form => form
  | count, p :: parts, form =>
    publishAll o (count + files [p]) parts (p.label.publish o count p.data form)

/-- The last of some parts that is a file of a field. -/
def lastFile? (field : String) (parts : List Part) : Option Part :=
  (parts.filter fun p => p.label.file.isSome && p.label.name == field).getLast?

theorem files_cons (p : Part) (parts : List Part) :
    files (p :: parts) = files [p] + files parts := by
  rw [← List.singleton_append, files, List.countP_append]
  rfl

end Part

section render

variable {marker : Bytes}

theorem filenames_render (l : Layout) {p : Part} (h : p.Sendable marker) :
    (l.render marker p).filenames = Part.files [p] := by
  rw [RawPart.filenames, contents_render l h, l.filenames_headers h, Part.files,
    List.countP_singleton]

theorem label?_render (l : Layout) {p : Part} (h : p.Sendable marker) :
    (l.render marker p).label? = some p.label := by
  rw [RawPart.label?, contents_render l h, l.ofLines_headers h]
  rfl

theorem trimCrlf_data_render (l : Layout) (p : Part) :
    Bytes.trimCrlf (l.render marker p).data = p.data := Bytes.dropTail_append ..

theorem publish_render (l : Layout) {p : Part} (h : p.Sendable marker) (o : Origin) (count : Nat)
    (form : Form) :
    (l.render marker p).publish o count form = p.label.publish o count p.data form := by
  rw [RawPart.publish, label?_render l h, filenames_render l h, trimCrlf_data_render]
  cases hfile : p.label.file with
  | none => simp only [Label.publish, hfile]
  | some file =>
    have hone : Part.files [p] = 1 := by simp [Part.files, hfile]
    rw [hone, Nat.add_sub_cancel]

theorem save_render (l : Layout) {p : Part} (h : p.Sendable marker)
    (saved : OrderedMap String Bytes) :
    (l.render marker p).save saved = p.label.save p.data saved := by
  rw [RawPart.save, label?_render l h, trimCrlf_data_render]

theorem filenames_contents_render {sent : List (Part × Layout)}
    (h : ∀ x ∈ sent, x.1.Sendable marker) :
    Label.filenames ((sent.map fun x => x.2.render marker x.1).flatMap RawPart.contents) =
      Part.files (sent.map Prod.fst) := by
  induction sent with
  | nil => rfl
  | cons x sent ih =>
    obtain ⟨hx, hsent⟩ := List.forall_mem_cons.mp h
    have hfirst := filenames_render x.2 hx
    rw [RawPart.filenames] at hfirst
    rw [List.map_cons, List.map_cons, List.flatMap_cons, Label.filenames_append, hfirst, ih hsent,
      ← Part.files_cons]

theorem publishAll_render {sent : List (Part × Layout)} (h : ∀ x ∈ sent, x.1.Sendable marker)
    (o : Origin) (count : Nat) (form : Form) :
    RawPart.publishAll o count (sent.map fun x => x.2.render marker x.1) form =
      Part.publishAll o count (sent.map Prod.fst) form := by
  induction sent generalizing count form with
  | nil => rfl
  | cons x sent ih =>
    obtain ⟨hx, hsent⟩ := List.forall_mem_cons.mp h
    rw [List.map_cons, List.map_cons, RawPart.publishAll, Part.publishAll, publish_render x.2 hx,
      filenames_render x.2 hx, ih hsent]

/-- The file of a field holds what was sent last for it. -/
theorem get?_saveAll_render {sent : List (Part × Layout)} (h : ∀ x ∈ sent, x.1.Sendable marker)
    (field : String) :
    (RawPart.saveAll (sent.map fun x => x.2.render marker x.1) ∅).get? field =
      (Part.lastFile? field (sent.map Prod.fst)).map Part.data := by
  induction sent using List.reverseRecOn with
  | nil => rfl
  | append_singleton sent x ih =>
    obtain ⟨hsent, hx⟩ := List.forall_mem_append.mp h
    have hx := hx x (List.mem_singleton_self x)
    rw [RawPart.saveAll] at ih ⊢
    rw [List.map_append, List.foldl_append, List.map_singleton, List.foldl_cons, List.foldl_nil,
      save_render x.2 hx, Part.lastFile?, List.map_append, List.filter_append, List.map_singleton]
    cases hfile : x.1.label.file with
    | none => simpa [Label.save, hfile, Part.lastFile?] using ih hsent
    | some file =>
      simp only [Label.save, hfile]
      rw [OrderedMap.get?_insert]
      by_cases hfield : field = x.1.label.name
      · simp [hfield, hfile]
      · simpa [hfield, hfile, Ne.symm hfield, Part.lastFile?] using ih hsent

end render

/-- The file of a field that was published holds what was saved for it. -/
theorem Ledger.Covers.read?_of_holds {o : Origin} {c : Ledger}
    {target? : Option TempFile} {files : OrderedMap String StoredFile} {s : Storage}
    {saved : OrderedMap String Bytes} (h : c.Covers o o.disk.fileAt? target? files s)
    (hholds : c.Holds saved) (hfresh : o.Fresh) {field : String} {f : StoredFile}
    (hf : files.get? field = some f) :
    ∃ data, saved.get? field = some data ∧ s.disk.read? f.path = some data := by
  rcases h.files.get? field with ⟨hnone, -⟩ | ⟨f', k, hf', hk, hpath, -⟩
  · rw [hf] at hnone
    cases hnone
  · obtain rfl := Option.some.inj (hf.symm.trans hf')
    rcases hholds.get? field with ⟨hnone, -⟩ | ⟨k', data, hk', hdata, hheld⟩
    · rw [hk] at hnone
      cases hnone
    · obtain rfl := Option.some.inj (hk.symm.trans hk')
      exact ⟨data, hdata, by rw [hpath, h.keeps.read?_path hfresh, hheld]⟩

/-- A line end is in a delimiter only if it is in the token. -/
theorem Delimiter.not_mem_ofToken {token : String} {b : UInt8} {c : Char} (hb : b < 0x80)
    (hc : c.toNat = b.toNat) (hhyphen : b ≠ Bytes.hyphen) (h : c ∉ token.toList) :
    b ∉ ofToken token := by
  rw [ofToken, List.mem_append, not_or]
  exact ⟨by simp [hhyphen], fun hmem => h (Text.mem_of_mem_encode hb hc hmem)⟩

namespace Decoder

variable {token : String} {settings : Settings} {d : Decoder} {s : Storage}

/-- Decoding undoes writing. -/
theorem finish_feedAll_renderBody (hnew : new token settings = .ok d)
    (hlf : '\n' ∉ token.toList) (hcr : '\r' ∉ token.toList)
    {sent : List (Part × Layout)} {closing : LineEnd}
    (hsendable : ∀ x ∈ sent, x.1.Sendable (Delimiter.ofToken token))
    (hadmits : ∀ x ∈ sent, settings.Admits (Delimiter.ofToken token) x)
    (hclosing : (closing.after (Delimiter.ofToken token ++
      [Bytes.hyphen, Bytes.hyphen])).length ≤ settings.maxLineLength)
    (haccepts : (settings.origin s).Accepts (Part.files (sent.map Prod.fst)))
    (pieces : List Bytes)
    (hpieces : pieces.flatten = renderBody (Delimiter.ofToken token) sent closing) :
    let o := settings.origin s
    let parts := sent.map Prod.fst
    let fed := d.feedAll s .empty pieces
    let done := fed.decoder.finish fed.storage fed.buffer
    let form := Part.publishAll o 0 parts (.forFolder settings.uploadDir)
    (∃ progress, fed.result = .ok progress) ∧ done.result = .ok form ∧
      (o.Fresh → ∀ field f, form.files.get? field = some f →
        ∃ p, Part.lastFile? field parts = some p ∧
          done.storage.disk.read? f.path = some p.data) := by
  intro o parts fed done form
  have hmlf : Bytes.lf ∉ Delimiter.ofToken token :=
    Delimiter.not_mem_ofToken (by decide) (by decide) (by decide) hlf
  have hmcr : Bytes.cr ∉ Delimiter.ofToken token :=
    Delimiter.not_mem_ofToken (by decide) (by decide) (by decide) hcr
  have hframed := framed_renderBody hmlf hmcr hsendable hadmits hclosing
  rw [← hpieces] at hframed
  rw [← filenames_contents_render hsendable] at haccepts
  obtain ⟨c, honce, htracks, hholds⟩ := finish_of_framed hnew hframed haccepts
  rw [publishAll_render hsendable] at honce htracks
  have hopen := hasHandle_new hnew
  have hwait : d.next s InputBuffer.empty.unread false = .wait := next_new hnew
  have hfed : ∃ progress, fed.result = .ok progress := by
    cases hres : fed.result with
    | ok progress => exact ⟨progress, rfl⟩
    | error e =>
      have hfailed : (d.finish s (InputBuffer.empty.push pieces.flatten)).result = .error e :=
        finish_of_feedAll_error hopen hwait pieces hres
      rw [hfailed] at honce
      cases honce
  obtain ⟨progress, hok⟩ := hfed
  have hagrees : (d.finish s (InputBuffer.empty.push pieces.flatten)).Agrees done :=
    finish_agrees_feedAll hopen hwait pieces hok
  refine ⟨⟨progress, hok⟩, hagrees.result.symm.trans honce, ?_⟩
  intro hfresh field f hf
  obtain ⟨data, hsaved, hread⟩ := (htracks.covers hfresh).read?_of_holds (hholds hfresh) hfresh hf
  rw [get?_saveAll_render hsendable] at hsaved
  obtain ⟨p, hlast, rfl⟩ := Option.map_eq_some_iff.mp hsaved
  have hstorage := hagrees.storage _ honce
  rw [hstorage] at hread
  exact ⟨p, hlast, hread⟩

/-- A file whose name and data look like framing, byte by byte. -/
theorem finish_feedAll_renderBody_of_file :
    let s : Storage := ⟨.ofFolders [["tmp"]], ⟨1, 0, 0⟩⟩
    let part : Part := ⟨⟨"a; b=c", some ("f:", some "t")⟩, [0xFF, 13, 10, 45, 45]⟩
    let layout : Layout :=
      { opening := .lf
        front := [⟨[120], .crlf, by decide, by decide, by decide, by decide⟩]
        disposition := ⟨"Content-DISPOSITION".toList, by decide⟩
        formData := ⟨"form-data".toList, by decide⟩
        name := ⟨"Name".toList, by decide⟩
        filename := ⟨"fileName".toList, by decide⟩
        dispositionEnd := .crlf
        middle := []
        contentType := ⟨"CONTENT-type".toList, by decide⟩
        contentTypeEnd := .lf
        plainType := none
        back := []
        blank := .crlf }
    let body := renderBody (Delimiter.ofToken "B") [(part, layout)] .lf
    ∃ d, new "B" .standard = .ok d ∧
      let fed := d.feedAll s .empty (body.map fun b => [b])
      (fed.decoder.finish fed.storage fed.buffer).result =
        .ok (part.label.publish (Settings.standard.origin s) 0 part.data
          (.forFolder Settings.standard.uploadDir)) := by
  intro s part layout body
  have hnew := new_of_ne .standard (show "B" ≠ "" by decide)
  have hsendable : ∀ x ∈ [(part, layout)], x.1.Sendable (Delimiter.ofToken "B") := by
    rintro x hx
    obtain rfl := List.mem_singleton.mp hx
    refine ⟨⟨by decide, by decide⟩, ?_, ?_, by decide⟩
    · rintro file ⟨⟩
      exact ⟨by decide, by decide⟩
    · rintro file type ⟨⟩ ⟨⟩
      exact ⟨⟨by rintro c ⟨⟩; rfl, by rintro c ⟨⟩; rfl⟩, by decide⟩
  have hadmits : ∀ x ∈ [(part, layout)], Settings.standard.Admits (Delimiter.ofToken "B") x := by
    rintro x hx
    obtain rfl := List.mem_singleton.mp hx
    exact ⟨by decide +kernel, by decide +kernel⟩
  have haccepts : (Settings.standard.origin s).Accepts (Part.files [part]) :=
    Origin.accepts_of_isOk (by decide +kernel)
  have hpieces : (body.map fun b => [b]).flatten = body := by
    rw [← List.flatMap_def, List.flatMap_singleton']
  exact ⟨_, hnew, (finish_feedAll_renderBody hnew (by decide) (by decide) hsendable hadmits
    (by decide +kernel) haccepts _ hpieces).2.1⟩

end Decoder

end Multipart

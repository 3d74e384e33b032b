import Multipart.Proofs.Naming
import Multipart.Proofs.Renaming

/-!
# The same up to the names of temp files

Two decoders that take their temp files from different origins, and do the
same otherwise, are twins: wherever one has the path of its file number
`k`, the other has the path of its own file number `k`, and all the rest
is equal. The relations below say this of each thing that holds a path:
twins are renamed along the pairs of paths with one number
(`Form.twin_iff`, `Stage.twin_iff`).
-/

namespace Multipart

variable (o o' : Origin)

/-- The paths of the two files with one number. -/
def FilePath.Twin (p p' : FilePath) : Prop := ∃ k, p = o.path k ∧ p' = o'.path k

/-- Errors that differ in the path of the file that could not be opened. -/
inductive UploadError.Twin : UploadError → UploadError → Prop where
  | same (e : UploadError) : Twin e e
  | openFile {p p' : FilePath} (h : p.Twin o o' p') (folder : String) (cause : IoError) :
      Twin (.resource (.openFile p.text folder) cause) (.resource (.openFile p'.text folder) cause)

/-- Temp files of one size, both open or both closed. -/
structure TempFile.Twin (t t' : TempFile) : Prop where
  path : t.path.Twin o o' t'.path
  handle : t.handle.isSome = t'.handle.isSome
  size : t.size = t'.size
  limit : t.limit = t'.limit

structure FilePart.Twin (part part' : FilePart) : Prop where
  target : part.target.Twin o o' part'.target
  clientName : part.clientName = part'.clientName
  contentType : part.contentType = part'.contentType

structure Heading.Twin (heading heading' : Heading) : Prop where
  name : heading.name = heading'.name
  file : Option.Rel (FilePart.Twin o o') heading.file heading'.file

inductive Content.Twin : Content → Content → Prop where
  | plain (value : Bytes) : Twin (.plain value) (.plain value)
  | file {part part' : FilePart} (h : part.Twin o o' part') : Twin (.file part) (.file part')

inductive Stage.Twin : Stage → Stage → Prop where
  | boundaryLine : Twin .boundaryLine .boundaryLine
  | headerLines {heading heading' : Option Heading}
      (h : Option.Rel (Heading.Twin o o') heading heading') :
      Twin (.headerLines heading) (.headerLines heading')
  | partData (name : String) {content content' : Content} (h : content.Twin o o' content') :
      Twin (.partData name content) (.partData name content')
  | ended : Twin .ended .ended
  | failed (phase : Phase) : Twin (.failed phase) (.failed phase)

structure StoredFile.Twin (f f' : StoredFile) : Prop where
  clientName : f.clientName = f'.clientName
  path : f.path.Twin o o' f'.path
  contentType : f.contentType = f'.contentType
  size : f.size = f'.size

/-- Equal texts, or the texts of twin paths. -/
def Variables.TwinText (v v' : String) : Prop :=
  v = v' ∨ ∃ p p' : FilePath, p.Twin o o' p' ∧ v = p.text ∧ v' = p'.text

structure Form.Twin (form form' : Form) : Prop where
  vars : form.vars.EntryWise (Variables.TwinText o o') form'.vars
  files : form.files.EntryWise (StoredFile.Twin o o') form'.files

structure Decoder.Twin (d d' : Decoder) : Prop where
  settings : d.settings = d'.settings
  delimiter : d.delimiter = d'.delimiter
  stage : d.stage.Twin o o' d'.stage
  form : d.form.Twin o o' d'.form

/-- Both disks hold the same bytes in the files with one number, and leave
everything else as it was at the start. -/
structure Disk.Twin (d d' : Disk) : Prop where
  numbered : ∀ k, d.read? (o.path k) = d'.read? (o'.path k)
  unchanged : ∀ l, (∀ k, o.place k ≠ .ok l) → d.fileAt? l = o.disk.fileAt? l
  unchanged' : ∀ l, (∀ k, o'.place k ≠ .ok l) → d'.fileAt? l = o'.disk.fileAt? l

/-- Both succeed with related values, or both fail with the same error. -/
inductive Answer.Twin {α : Type} (r : α → α → Prop) :
    Except UploadError α → Except UploadError α → Prop where
  | ok {x x' : α} (h : r x x') : Twin r (.ok x) (.ok x')
  | error {e e' : UploadError} (h : e.Twin o o' e') : Twin r (.error e) (.error e')

variable {o o'}

theorem Answer.Twin.elim {α : Type} {r : α → α → Prop} {x x' : Except UploadError α}
    (h : Answer.Twin o o' r x x') :
    (∃ v v', x = .ok v ∧ x' = .ok v' ∧ r v v') ∨
      ∃ e e', x = .error e ∧ x' = .error e' ∧ e.Twin o o' e' := by
  cases h with
  | ok h => exact .inl ⟨_, _, rfl, rfl, h⟩
  | error h => exact .inr ⟨_, _, rfl, rfl, h⟩

/-! ## What twins have in common -/

theorem Form.Twin.empty : Form.empty.Twin o o' Form.empty := ⟨.empty, .empty⟩

theorem Form.Twin.refl {form : Form} (h : form.files = ∅) : form.Twin o o' form :=
  ⟨.refl (fun _ => .inl rfl) _, h ▸ .empty⟩

theorem Stage.Twin.phase {stage stage' : Stage} (h : stage.Twin o o' stage') :
    stage.phase = stage'.phase := by
  cases h <;> rfl

/-! ## Twins are renamed -/

theorem UploadError.Renamed.twin {e e' : UploadError} (h : e.Renamed (FilePath.Twin o o') e') :
    e.Twin o o' e' := by
  cases h with
  | same e => exact .same e
  | openFile h folder cause => exact .openFile h folder cause

theorem FilePart.twin_iff {part part' : FilePart} :
    part.Twin o o' part' ↔ part.Renamed (FilePath.Twin o o') part' := by
  constructor
  · intro h
    exact ⟨h.target.path, h.target.handle, h.target.size, h.target.limit, h.clientName,
      h.contentType⟩
  · intro h
    exact ⟨⟨h.path, h.handle, h.size, h.limit⟩, h.clientName, h.contentType⟩

theorem Form.twin_iff {form form' : Form} :
    form.Twin o o' form' ↔ form.Renamed (FilePath.Twin o o') form' := by
  constructor
  · intro h
    exact ⟨h.vars, h.files.mono fun _ _ h => ⟨h.clientName, h.path, h.contentType, h.size⟩⟩
  · intro h
    exact ⟨h.vars, h.files.mono fun _ _ h => ⟨h.clientName, h.path, h.contentType, h.size⟩⟩

theorem Stage.twin_iff {stage stage' : Stage} :
    stage.Twin o o' stage' ↔ stage.Matches stage' ∧
      Option.Rel (FilePart.Renamed (FilePath.Twin o o')) stage.openFile? stage'.openFile? := by
  constructor
  · intro h
    cases h with
    | boundaryLine => exact ⟨.boundaryLine, .none⟩
    | headerLines h =>
      cases h with
      | none => exact ⟨.headerLines .none, .none⟩
      | @some heading heading' h =>
        obtain ⟨name, file⟩ := heading
        obtain ⟨name', file'⟩ := heading'
        have hfile : Option.Rel (FilePart.Twin o o') file file' := h.file
        cases hfile with
        | none => exact ⟨.headerLines (.some ⟨h.name, rfl⟩), .none⟩
        | some hpart =>
          exact ⟨.headerLines (.some ⟨h.name, rfl⟩), .some (FilePart.twin_iff.mp hpart)⟩
    | partData name h =>
      cases h with
      | plain value => exact ⟨.partData name (.plain value), .none⟩
      | file h => exact ⟨.partData name (.file _ _), .some (FilePart.twin_iff.mp h)⟩
    | ended => exact ⟨.ended, .none⟩
    | failed phase => exact ⟨.failed phase, .none⟩
  · rintro ⟨hstage, hopen⟩
    cases hstage with
    | boundaryLine => exact .boundaryLine
    | headerLines h =>
      cases h with
      | none => exact .headerLines .none
      | @some heading heading' h =>
        obtain ⟨name, file⟩ := heading
        obtain ⟨name', file'⟩ := heading'
        have hfile : Option.Rel (FilePart.Renamed (FilePath.Twin o o')) file file' := hopen
        cases hfile with
        | none => exact .headerLines (.some ⟨h.name, .none⟩)
        | some hpart => exact .headerLines (.some ⟨h.name, .some (FilePart.twin_iff.mpr hpart)⟩)
    | partData name h =>
      cases h with
      | plain value => exact .partData name (.plain value)
      | file part part' =>
        cases hopen with
        | some h => exact .partData name (.file (FilePart.twin_iff.mpr h))
    | ended => exact .ended
    | failed phase => exact .failed phase

theorem Decoder.Twin.fail {d d' : Decoder} (h : d.Twin o o' d') : d.fail.Twin o o' d'.fail where
  settings := h.settings
  delimiter := h.delimiter
  stage := by
    show Stage.Twin o o' (.failed d.stage.phase) (.failed d'.stage.phase)
    rw [h.stage.phase]
    exact .failed _
  form := .empty

end Multipart

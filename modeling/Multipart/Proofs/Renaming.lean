import Multipart.Proofs.EntryWise
import Multipart.Proofs.Lockstep

/-!
# The same up to paths

Things that hold paths of temp files are renamed along a relation between
paths if wherever one has a path, the other has a related one, and all the
rest is equal. Publishing keeps forms renamed (`Form.Renamed.withFile`),
and what is renamed along a relation is renamed along a larger one.
-/

namespace Multipart

variable (r : FilePath → FilePath → Prop)

/-- Errors that differ in the path of the file that could not be opened. -/
inductive UploadError.Renamed : UploadError → UploadError → Prop where
  | same (e : UploadError) : Renamed e e
  | openFile {p p' : FilePath} (h : r p p') (folder : String) (cause : IoError) :
      Renamed (.resource (.openFile p.text folder) cause)
        (.resource (.openFile p'.text folder) cause)

/-- Open files that are filled alike. -/
structure FilePart.Renamed (part part' : FilePart) : Prop where
  path : r part.target.path part'.target.path
  handle : part.target.handle.isSome = part'.target.handle.isSome
  size : part.target.size = part'.target.size
  limit : part.target.limit = part'.target.limit
  clientName : part.clientName = part'.clientName
  contentType : part.contentType = part'.contentType

structure StoredFile.Renamed (f f' : StoredFile) : Prop where
  clientName : f.clientName = f'.clientName
  path : r f.path f'.path
  contentType : f.contentType = f'.contentType
  size : f.size = f'.size

/-- Equal texts, or the texts of related paths. -/
def Variables.RenamedText (v v' : String) : Prop :=
  v = v' ∨ ∃ p p' : FilePath, r p p' ∧ v = p.text ∧ v' = p'.text

structure Form.Renamed (form form' : Form) : Prop where
  vars : form.vars.EntryWise (Variables.RenamedText r) form'.vars
  files : form.files.EntryWise (StoredFile.Renamed r) form'.files

structure Decoder.Renamed (d d' : Decoder) : Prop where
  settings : d.settings = d'.settings
  delimiter : d.delimiter = d'.delimiter
  stage : d.stage.Matches d'.stage
  openFile : Option.Rel (FilePart.Renamed r) d.stage.openFile? d'.stage.openFile?
  form : d.form.Renamed r d'.form

variable {r} {r' : FilePath → FilePath → Prop}

/-! ## Publishing -/

theorem Form.Renamed.empty : Form.empty.Renamed r Form.empty := ⟨.empty, .empty⟩

theorem Form.Renamed.refl {form : Form} (h : form.files = ∅) : form.Renamed r form :=
  ⟨.refl (fun _ => .inl rfl) _, h ▸ .empty⟩

theorem Form.Renamed.publishField {form form' : Form} (h : form.Renamed r form') (field : String)
    (value : Bytes) : (form.publishField field value).Renamed r (form'.publishField field value) :=
  ⟨h.vars.insert field (.inl rfl) fun _ _ _ _ _ _ hvalue => hvalue, h.files⟩

/-- Files that are renamed set their variables to texts that are. -/
theorem StoredFile.Renamed.variables {f f' : StoredFile} (h : f.Renamed r f') (field : String) :
    List.Forall₂ (fun v v' => v.1 = v'.1 ∧ Variables.RenamedText r v.2 v'.2)
      (Form.fileVariables field f) (Form.fileVariables field f') :=
  .cons ⟨rfl, .inl h.clientName⟩ <| .cons ⟨rfl, .inl (by rw [h.contentType])⟩ <|
    .cons ⟨rfl, .inr ⟨_, _, h.path, rfl, rfl⟩⟩ <| .cons ⟨rfl, .inl (by rw [h.size])⟩ .nil

theorem Form.Renamed.withFile {form form' : Form} (h : form.Renamed r form') (field : String)
    {f f' : StoredFile} (hf : f.Renamed r f') :
    (form.withFile field f).Renamed r (form'.withFile field f') := by
  refine ⟨?_, h.files.insert field hf fun _ _ _ _ _ _ hother => hother⟩
  have hvars := h.vars
  have hset := hf.variables field
  simp only [Form.withFile]
  generalize form.vars = vars, form'.vars = vars', Form.fileVariables field f = new,
    Form.fileVariables field f' = new' at hvars hset
  induction hset generalizing vars vars' with
  | nil => exact hvars
  | cons hv _ ih =>
    rw [List.foldl_cons, List.foldl_cons, hv.1]
    exact ih _ _ (hvars.insert _ hv.2 fun _ _ _ _ _ _ hother => hother)

theorem FilePart.Renamed.stored {part part' : FilePart} (h : part.Renamed r part') :
    part.stored.Renamed r part'.stored :=
  ⟨h.clientName, h.path, h.contentType, h.size⟩

/-! ## Larger relations -/

theorem UploadError.Renamed.mono (hr : ∀ p p', r p p' → r' p p') {e e' : UploadError}
    (h : e.Renamed r e') : e.Renamed r' e' := by
  cases h with
  | same e => exact .same e
  | openFile h folder cause => exact .openFile (hr _ _ h) folder cause

theorem FilePart.Renamed.mono (hr : ∀ p p', r p p' → r' p p') {part part' : FilePart}
    (h : part.Renamed r part') : part.Renamed r' part' :=
  ⟨hr _ _ h.path, h.handle, h.size, h.limit, h.clientName, h.contentType⟩

theorem FilePart.Renamed.mono_option (hr : ∀ p p', r p p' → r' p p')
    {part? part?' : Option FilePart} (h : Option.Rel (FilePart.Renamed r) part? part?') :
    Option.Rel (FilePart.Renamed r') part? part?' := by
  cases h with
  | none => exact .none
  | some h => exact .some (h.mono hr)

theorem StoredFile.Renamed.mono (hr : ∀ p p', r p p' → r' p p') {f f' : StoredFile}
    (h : f.Renamed r f') : f.Renamed r' f' :=
  ⟨h.clientName, hr _ _ h.path, h.contentType, h.size⟩

theorem Variables.RenamedText.mono (hr : ∀ p p', r p p' → r' p p') {v v' : String}
    (h : RenamedText r v v') : RenamedText r' v v' :=
  h.imp_right fun ⟨p, p', hp, hv⟩ => ⟨p, p', hr _ _ hp, hv⟩

theorem Form.Renamed.mono (hr : ∀ p p', r p p' → r' p p') {form form' : Form}
    (h : form.Renamed r form') : form.Renamed r' form' :=
  ⟨h.vars.mono fun _ _ => .mono hr, h.files.mono fun _ _ => .mono hr⟩

end Multipart

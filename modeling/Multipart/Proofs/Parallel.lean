import Multipart.Proofs.Renumbering
import Multipart.Proofs.Twins

/-!
# Decoders in parallel

Twins that read the same bytes stay twins, as long as the same file
numbers can be opened for both (`Origin.Alike`): they run in lockstep, ask
for the same names, and one ledger lists the files of both
(`Decoder.pass_parallel`).

With twice the same decoder they say that its files stay in order.
-/

namespace Multipart

variable {o o' : Origin} {base base' : Location → Option Bytes} {c c' : Ledger}
  {s s' : Storage} {settings : Settings}

/-- Numbers that are not changed leave the ledger as it is. -/
theorem Ledger.Renumbered.eq (h : c.Renumbered id c') : c = c' := by
  obtain ⟨asked, held, opened, stored⟩ := c
  obtain ⟨asked', held', opened', stored'⟩ := c'
  obtain rfl : asked = asked' := h.asked_eq
  obtain rfl : held = held' := h.held
  obtain rfl : opened = opened' := h.opened.trans (by rw [Option.map_id, id])
  obtain rfl : stored = stored' := h.stored.eq
  rfl

/-- Places that are alike serve twins. -/
theorem Origin.Alike.renumbers (halike : o.Alike o') (hfolder : settings.uploadDir = o.folder)
    (hlimit : settings.maxFileSize = o.limit) (bound : Nat) :
    Origin.Renumbers settings bound (FilePath.Twin o o') o o' id where
  injective := Function.injective_id
  folder := hfolder
  folder' := hfolder.trans halike.folder
  limit := hlimit
  limit' := hlimit.trans halike.limit
  paths k _ := ⟨k, rfl, rfl⟩
  opens k _ := halike.opens k

namespace Decoder

/-- The ledger lists the files of a decoder. -/
structure Owns (o : Origin) (base : Location → Option Bytes) (c : Ledger) (d : Decoder)
    (s : Storage) : Prop where
  folder : d.settings.uploadDir = o.folder
  limit : d.settings.maxFileSize = o.limit
  covers : c.Covers o base (d.stage.openFile?.map FilePart.target)
    d.form.files s

/-- Twin decoders with one ledger. -/
structure Parallel (o o' : Origin) (base base' : Location → Option Bytes) (c : Ledger)
    (d : Decoder) (s : Storage) (d' : Decoder) (s' : Storage) : Prop where
  twin : d.Twin o o' d'
  owns : d.Owns o base c s
  owns' : d'.Owns o' base' c s'

variable {d d' : Decoder}

/-- Holdings of twins with one ledger, and no files of others. -/
abbrev SameNumbers (o o' : Origin) (base base' : Location → Option Bytes) :
    Holdings → Holdings → Prop :=
  Holdings.Renumbered (FilePath.Twin o o') o o' id base base' fun _ _ => False

theorem Parallel.inStep (h : d.Parallel o o' base base' c s d' s') :
    d.InStep d.settings (SameNumbers o o' base base') s d' s' := by
  obtain ⟨hstage, hopen⟩ := Stage.twin_iff.mp h.twin.stage
  exact ⟨rfl, h.twin.settings.symm, h.twin.delimiter, hstage, hopen, Form.twin_iff.mp h.twin.form,
    ⟨c, c, .refl c, h.owns.covers, h.owns'.covers⟩, nofun⟩

theorem InStep.parallel (h : d.InStep settings (SameNumbers o o' base base') s d' s')
    (halike : o.Alike o') (hfolder : settings.uploadDir = o.folder)
    (hlimit : settings.maxFileSize = o.limit) :
    ∃ c, d.Parallel o o' base base' c s d' s' := by
  obtain ⟨hopen, hform, ⟨c, c', hσ, hc, hc'⟩, -⟩ := h.files
  obtain rfl := hσ.eq
  refine ⟨c, ⟨h.settings_eq.trans h.settings_eq'.symm, h.delimiter,
    Stage.twin_iff.mpr ⟨h.stage, hopen⟩, Form.twin_iff.mpr hform⟩, ⟨?_, ?_, hc⟩, ⟨?_, ?_, hc'⟩⟩
  · rwa [h.settings_eq]
  · rwa [h.settings_eq]
  · rw [h.settings_eq', hfolder, halike.folder]
  · rw [h.settings_eq', hlimit, halike.limit]

theorem owns_new {token : String} {settings : Settings} (hnew : new token settings = .ok d)
    (hfresh : (settings.origin s).Fresh) :
    d.Owns (settings.origin s) s.disk.fileAt? .start s := by
  rw [eq_of_new hnew]
  exact ⟨rfl, rfl, .start hfresh⟩

theorem parallel_new {token : String} {settings : Settings} (hnew : new token settings = .ok d)
    (hfresh : (settings.origin s).Fresh) (hfresh' : (settings.origin s').Fresh) :
    d.Parallel (settings.origin s) (settings.origin s') s.disk.fileAt? s'.disk.fileAt? .start s
      d s' := by
  refine ⟨?_, owns_new hnew hfresh, owns_new hnew hfresh'⟩
  rw [eq_of_new hnew]
  exact ⟨rfl, rfl, .boundaryLine, .refl rfl⟩

/-- What a decoder that gave up has left: no files. -/
theorem Owns.abort (h : d.Owns o base c s) : (d.abort s).1.Owns o base c.clear (d.abort s).2 :=
  ⟨h.folder, h.limit, h.covers.release⟩

theorem Parallel.abort (h : d.Parallel o o' base base' c s d' s') :
    (d.abort s).1.Parallel o o' base base' c.clear (d.abort s).2 (d'.abort s').1 (d'.abort s').2 :=
  ⟨h.twin.fail, h.owns.abort, h.owns'.abort⟩

end Decoder

/-- Operations on twins that come to the same. -/
structure Outcome.Parallel {α : Type} (r : α → α → Prop) (o o' : Origin)
    (base base' : Location → Option Bytes) (c : Ledger) (x x' : Outcome α) : Prop where
  result : Answer.Twin o o' r x.result x'.result
  unread : x.buffer.unread = x'.buffer.unread
  after : x.decoder.Parallel o o' base base' c x.storage x'.decoder x'.storage

namespace Decoder

variable {d d' : Decoder} {buffer buffer' : InputBuffer}

/-- Twins pass alike. -/
theorem pass_parallel (halike : o.Alike o') (h : d.Parallel o o' base base' c s d' s')
    (hbuffer : buffer.unread = buffer'.unread) (atEnd : Bool) :
    ∃ c', Outcome.Parallel Eq o o' base base' c' (d.pass s buffer atEnd)
      (d'.pass s' buffer' atEnd) := by
  have hR : Lockstep d.settings (d.pass s buffer atEnd).storage.names.issued
      (SameNumbers o o' base base') (UploadError.Renamed (FilePath.Twin o o')) :=
    Holdings.lockstep_renumbered (halike.renumbers h.owns.folder h.owns.limit _)
  obtain ⟨hresult, hunread, hafter⟩ := pass_inStep hR h.inStep hbuffer (Nat.le_refl _)
  obtain ⟨c', hpar⟩ := hafter.parallel halike h.owns.folder h.owns.limit
  refine ⟨c', ?_, hunread, hpar⟩
  rcases hresult.elim with ⟨progress, progress', hres, hres', hsame⟩ | ⟨e, e', hres, hres', he⟩
  · rw [hres, hres']
    exact .ok hsame
  · rw [hres, hres']
    exact .error he.twin

/-- Twins that are fed the same pieces stay twins. -/
theorem feedAll_parallel (halike : o.Alike o') (pieces : List Bytes)
    (h : d.Parallel o o' base base' c s d' s') (hbuffer : buffer.unread = buffer'.unread) :
    ∃ c', Outcome.Parallel Eq o o' base base' c' (d.feedAll s buffer pieces)
      (d'.feedAll s' buffer' pieces) := by
  induction pieces generalizing d s d' s' c buffer buffer' with
  | nil => exact ⟨c, .ok rfl, hbuffer, h⟩
  | cons piece pieces ih =>
    obtain ⟨c', hfeed⟩ := pass_parallel halike h
      (show (buffer.push piece).unread = (buffer'.push piece).unread by simp [hbuffer]) false
    simp only [feedAll, feed, process]
    rcases hfeed.result.elim with ⟨progress, progress', hres, hres', rfl⟩ | ⟨e, e', hres, hres', -⟩
    · rw [hres, hres']
      cases progress with
      | complete => exact ⟨c', hfeed⟩
      | needsMore => exact ih hfeed.after hfeed.unread
    · rw [hres, hres']
      exact ⟨c', hfeed⟩

/-- Twins finish alike: with twin forms and the same files, or with the same
error. -/
theorem finish_parallel (halike : o.Alike o') (h : d.Parallel o o' base base' c s d' s')
    (hbuffer : buffer.unread = buffer'.unread) :
    ∃ c' : Ledger,
      Answer.Twin o o' (Form.Twin o o') (d.finish s buffer).result (d'.finish s' buffer').result ∧
      (d.finish s buffer).storage.Keeps o base c'.asked c'.held ∧
      (d'.finish s' buffer').storage.Keeps o' base' c'.asked c'.held := by
  obtain ⟨c', hpass⟩ := pass_parallel halike h hbuffer true
  rw [finish, finish]
  rcases hpass.result.elim with ⟨progress, progress', hres, hres', rfl⟩ | ⟨e, e', hres, hres', he⟩
  · simp only [hres, hres']
    cases progress with
    | complete =>
      exact ⟨c', .ok hpass.after.twin.form, hpass.after.owns.covers.keeps,
        hpass.after.owns'.covers.keeps⟩
    | needsMore =>
      have habort := hpass.after.abort
      exact ⟨c'.clear, .error (.same _), habort.owns.covers.keeps, habort.owns'.covers.keeps⟩
  · simp only [hres, hres']
    exact ⟨c', .error he, hpass.after.owns.covers.keeps, hpass.after.owns'.covers.keeps⟩

end Decoder

end Multipart

import Multipart.Proofs.BodyEnd
import Multipart.Proofs.Confinement
import Multipart.Proofs.Rendering

/-!
# The file name that the client sends

The client's name of a file is kept with the file and decides nothing else. Two bodies
that differ in such a name take a decoder through the same steps, on the same storage:
at every point the decoders are the same but for the name of one file
(`Decoder.next_aliased`), which is open, published or gone. What the bodies are decoded
to then differs at most in the name that the form has for that file, and in the variable
that holds it (`Decoder.decoded_aliased`).
-/

namespace Multipart

/-! ## Maps that differ under one key -/

/-- The same keys in the same order, and the same values under all but one of them. The
values under that one may be related instead. -/
structure OrderedMap.DiffersAt {κ α : Type} [DecidableEq κ] (key : κ) (r : α → α → Prop)
    (m n : OrderedMap κ α) : Prop where
  entries : m.EntryWise (fun a b => a = b ∨ r a b) n
  others : ∀ other, other ≠ key → m.get? other = n.get? other

namespace OrderedMap.DiffersAt

variable {κ α β : Type} [DecidableEq κ] {key : κ} {r : α → α → Prop} {m n : OrderedMap κ α}

theorem refl (m : OrderedMap κ α) : m.DiffersAt key r m :=
  ⟨.refl (fun _ => .inl rfl) m, fun _ _ => rfl⟩

theorem insert (h : m.DiffersAt key r n) (at' : κ) {a b : α} (hab : a = b ∨ at' = key ∧ r a b) :
    (m.insert at' a).DiffersAt key r (n.insert at' b) := by
  refine ⟨h.entries.insert at' (hab.imp_right And.right) fun _ _ _ _ _ _ hkept => hkept, ?_⟩
  intro other hother
  rw [get?_insert, get?_insert]
  split
  · next hsame =>
    rcases hab with rfl | ⟨hkey, -⟩
    · rfl
    · exact absurd (hsame.trans hkey) hother
  · exact h.others other hother

end OrderedMap.DiffersAt

/-! ## One file under two names -/

/-- A file whose name the client spells in two ways: its field, the path of its temp file,
and the names. -/
structure Alias where
  field : String
  path : FilePath
  clientName : String
  clientName' : String

variable {a : Alias}

/-- That file while it is read. -/
structure FilePart.Aliased (a : Alias) (part part' : FilePart) : Prop where
  path : part.target.path = a.path
  clientName : part.clientName = a.clientName
  eq : part' = { part with clientName := a.clientName' }

/-- That file once it is published. -/
structure StoredFile.Aliased (a : Alias) (f f' : StoredFile) : Prop where
  path : f.path = a.path
  clientName : f.clientName = a.clientName
  eq : f' = { f with clientName := a.clientName' }

/-- The same forms, except that the file may have one name here and the other there. -/
structure Form.Aliased (a : Alias) (form form' : Form) : Prop where
  vars : form.vars.DiffersAt (clientNameKey a.field)
    (fun v v' => v = a.clientName ∧ v' = a.clientName') form'.vars
  files : form.files.DiffersAt a.field (StoredFile.Aliased a) form'.files

inductive Heading.Aliased (a : Alias) : Option Heading → Option Heading → Prop where
  | same (heading : Option Heading) : Aliased a heading heading
  | file {part part' : FilePart} (h : part.Aliased a part') :
      Aliased a (some ⟨a.field, some part⟩) (some ⟨a.field, some part'⟩)

inductive Content.Aliased (a : Alias) (name : String) : Content → Content → Prop where
  | same (content : Content) : Aliased a name content content
  | file {part part' : FilePart} (hname : name = a.field) (h : part.Aliased a part') :
      Aliased a name (.file part) (.file part')

inductive Stage.Aliased (a : Alias) : Stage → Stage → Prop where
  | boundaryLine : Aliased a .boundaryLine .boundaryLine
  | headerLines {heading heading' : Option Heading} (h : Heading.Aliased a heading heading') :
      Aliased a (.headerLines heading) (.headerLines heading')
  | partData (name : String) {content content' : Content} (h : content.Aliased a name content') :
      Aliased a (.partData name content) (.partData name content')
  | ended : Aliased a .ended .ended
  | failed (phase : Phase) : Aliased a (.failed phase) (.failed phase)

structure Decoder.Aliased (a : Alias) (d d' : Decoder) : Prop where
  settings : d.settings = d'.settings
  delimiter : d.delimiter = d'.delimiter
  stage : d.stage.Aliased a d'.stage
  form : d.form.Aliased a d'.form

inductive Move.Aliased (a : Alias) : Move → Move → Prop where
  | wait : Aliased a .wait .wait
  | finished : Aliased a .finished .finished
  | advance (used : Nat) {d d' : Decoder} (s : Storage) (h : d.Aliased a d') :
      Aliased a (.advance used d s) (.advance used d' s)
  | fail (e : UploadError) {d d' : Decoder} (s : Storage) (h : d.Aliased a d') :
      Aliased a (.fail e d s) (.fail e d' s)

/-! ## Forms -/

namespace Form.Aliased

variable {form form' : Form}

theorem refl (form : Form) : form.Aliased a form := ⟨.refl _, .refl _⟩

theorem publishField (h : form.Aliased a form') (field : String) (value : Bytes) :
    (form.publishField field value).Aliased a (form'.publishField field value) :=
  ⟨h.vars.insert field (.inl rfl), h.files⟩

theorem withFile (h : form.Aliased a form') (field : String) {f f' : StoredFile}
    (hf : f = f' ∨ field = a.field ∧ f.Aliased a f') :
    (form.withFile field f).Aliased a (form'.withFile field f') := by
  have hclient : f.clientName = f'.clientName ∨ clientNameKey field = clientNameKey a.field ∧
      f.clientName = a.clientName ∧ f'.clientName = a.clientName' := by
    rcases hf with rfl | ⟨rfl, -, hname, rfl⟩
    · exact .inl rfl
    · exact .inr ⟨rfl, hname, rfl⟩
  have hrest : f.contentType = f'.contentType ∧ f.path = f'.path ∧ f.size = f'.size := by
    rcases hf with rfl | ⟨-, -, -, rfl⟩ <;> exact ⟨rfl, rfl, rfl⟩
  obtain ⟨htype, hpath, hsize⟩ := hrest
  refine ⟨?_, h.files.insert field hf⟩
  simp only [Form.withFile, fileVariables, List.foldl_cons, List.foldl_nil, htype, hpath, hsize]
  exact (((h.vars.insert _ hclient).insert _ (.inl rfl)).insert _ (.inl rfl)).insert _ (.inl rfl)

/-- Files in the same place have the same paths. -/
theorem path_eq {f f' : StoredFile} (h : f = f' ∨ f.Aliased a f') : f.path = f'.path := by
  rcases h with rfl | ⟨-, -, rfl⟩ <;> rfl

theorem publishFile (h : form.Aliased a form') (field : String) {f f' : StoredFile}
    (hf : f = f' ∨ field = a.field ∧ f.Aliased a f') (disk : Disk) :
    (form.publishFile field f disk).1.Aliased a (form'.publishFile field f' disk).1 ∧
      (form.publishFile field f disk).2 = (form'.publishFile field f' disk).2 := by
  refine ⟨h.withFile field hf, ?_⟩
  simp only [Form.publishFile]
  rcases h.files.entries.get? field with ⟨hnone, hnone'⟩ | ⟨old, old', hold, hold', hsame⟩
  · rw [hnone, hnone']
  · rw [hold, hold']
    exact congrArg disk.remove (path_eq hsame)

theorem removeFiles (h : form.Aliased a form') : form.removeFiles = form'.removeFiles := by
  have hpaths : form.files.values.map StoredFile.path = form'.files.values.map StoredFile.path :=
    h.files.entries.map_values fun _ _ => path_eq
  funext disk
  rw [removeFiles_eq, removeFiles_eq, hpaths]

end Form.Aliased

/-! ## Steps -/

/-- A Content-Disposition drops the file whatever its name is; a Content-Type does not look
at it. -/
theorem Heading.Aliased.read {heading heading' : Option Heading} (h : Aliased a heading heading')
    (settings : Settings) (line : List Char) (s : Storage) :
    let described := Heading.read settings line heading s
    let described' := Heading.read settings line heading' s
    described.error = described'.error ∧ described.storage = described'.storage ∧
      Aliased a described.heading described'.heading := by
  intro described described'
  cases h with
  | same => exact ⟨rfl, rfl, .same _⟩
  | file h =>
    obtain ⟨hpath, hname, rfl⟩ := h
    simp only [described, described', Heading.read]
    cases PartHeader.parse line with
    | disposition attributes => exact ⟨rfl, rfl, .same _⟩
    | contentType value => exact ⟨rfl, rfl, .file ⟨hpath, hname, rfl⟩⟩
    | other => exact ⟨rfl, rfl, .file ⟨hpath, hname, rfl⟩⟩

theorem Content.Aliased.write {name : String} {content content' : Content}
    (h : content.Aliased a name content') (maxFieldSize : Nat) (data : Bytes) (s : Storage) :
    (∃ e, content.write maxFieldSize data s = .error e ∧
      content'.write maxFieldSize data s = .error e) ∨
    ∃ after after' s', content.write maxFieldSize data s = .ok (after, s') ∧
      content'.write maxFieldSize data s = .ok (after', s') ∧ after.Aliased a name after' := by
  cases h with
  | same =>
    cases hwrite : content.write maxFieldSize data s with
    | error e => exact .inl ⟨e, rfl, rfl⟩
    | ok out => exact .inr ⟨out.1, out.1, out.2, rfl, rfl, .same _⟩
  | @file part part' hname h =>
    obtain ⟨hpath, hclient, rfl⟩ := h
    cases happend : part.target.append data s with
    | error e => exact .inl ⟨e, by simp only [Content.write, happend],
        by simp only [Content.write, happend]⟩
    | ok out =>
      obtain ⟨target, s'⟩ := out
      refine .inr ⟨.file { part with target }, .file { part with
        target, clientName := a.clientName' }, s', by simp only [Content.write, happend],
        by simp only [Content.write, happend], .file hname ⟨?_, hclient, rfl⟩⟩
      rw [TempFile.append_spec happend]
      exact hpath

theorem Content.Aliased.publishPart {name : String} {content content' : Content} {form form' : Form}
    (h : content.Aliased a name content') (hform : form.Aliased a form') (s : Storage) :
    (form.publishPart name s content).1.Aliased a (form'.publishPart name s content').1 ∧
      (form.publishPart name s content).2 = (form'.publishPart name s content').2 := by
  have hpublish {part part' : FilePart}
      (hf : part.stored = part'.stored ∨ name = a.field ∧ part.stored.Aliased a part'.stored) :
      (form.publishPart name s (.file part)).1.Aliased a
          (form'.publishPart name s (.file part')).1 ∧
        (form.publishPart name s (.file part)).2 = (form'.publishPart name s (.file part')).2 := by
    obtain ⟨hafter, hdisk⟩ := hform.publishFile name hf s.disk
    exact ⟨hafter, congrArg (fun disk => { s with disk }) hdisk⟩
  cases h with
  | same =>
    cases content with
    | plain value => exact ⟨hform.publishField name value, rfl⟩
    | file part => exact hpublish (.inl rfl)
  | file hname h =>
    obtain ⟨hpath, hclient, rfl⟩ := h
    exact hpublish (.inr ⟨hname, hpath, hclient, rfl⟩)

namespace Decoder

variable {d d' : Decoder} {s : Storage}

section Steps

variable {settings : Settings} {delimiter : Bytes} {form form' : Form}

theorem headerLine_aliased (hform : form.Aliased a form') {heading heading' : Option Heading}
    (h : Heading.Aliased a heading heading') (line : Bytes) (used : Nat) (s : Storage) :
    (headerLine ⟨settings, delimiter, .headerLines heading, form⟩ heading line used s).Aliased a
      (headerLine ⟨settings, delimiter, .headerLines heading', form'⟩ heading' line used s) := by
  unfold headerLine
  cases hempty : line.isEmpty with
  | true =>
    simp only [if_true]
    cases h with
    | file h =>
      exact .advance used s ⟨rfl, rfl, .partData _ (.file rfl h), hform⟩
    | same =>
      cases heading with
      | none => exact .fail _ s ⟨rfl, rfl, .headerLines (.same _), hform⟩
      | some heading => exact .advance used s ⟨rfl, rfl, .partData _ (.same _), hform⟩
  | false =>
    simp only [Bool.false_eq_true, if_false]
    obtain ⟨herror, hstorage, hafter⟩ := h.read settings (Text.decode line) s
    rw [← herror, ← hstorage]
    split
    · exact .fail _ _ ⟨rfl, rfl, .headerLines hafter, hform⟩
    · exact .advance used _ ⟨rfl, rfl, .headerLines hafter, hform⟩

theorem partData_aliased (hform : form.Aliased a form') (name : String)
    {content content' : Content} (h : content.Aliased a name content') (w : Bytes) (s : Storage) :
    (partData ⟨settings, delimiter, .partData name content, form⟩ name content w s).Aliased a
      (partData ⟨settings, delimiter, .partData name content', form'⟩ name content' w s) := by
  have hstay : Decoder.Aliased a ⟨settings, delimiter, .partData name content, form⟩
      ⟨settings, delimiter, .partData name content', form'⟩ := ⟨rfl, rfl, .partData name h, hform⟩
  unfold partData
  cases Delimiter.find? w delimiter with
  | some place =>
    dsimp only
    rcases h.write settings.maxFieldSize (Bytes.trimCrlf (w.take place)) s with
      ⟨e, hwrite, hwrite'⟩ | ⟨after, after', s', hwrite, hwrite', hafter⟩
    · simp only [hwrite, hwrite']
      exact .fail e s hstay
    · simp only [hwrite, hwrite']
      obtain ⟨hpublished, hstorage⟩ := hafter.publishPart hform s'
      rw [← hstorage]
      exact .advance place _ ⟨rfl, rfl, .boundaryLine, hpublished⟩
  | none =>
    dsimp only
    split
    · exact .wait
    · rcases h.write settings.maxFieldSize
          (w.take (w.length - Delimiter.holdback delimiter)) s with
        ⟨e, hwrite, hwrite'⟩ | ⟨after, after', s', hwrite, hwrite', hafter⟩
      · simp only [hwrite, hwrite']
        exact .fail e s hstay
      · simp only [hwrite, hwrite']
        exact .advance _ s' ⟨rfl, rfl, .partData name hafter, hform⟩

end Steps

/-- A step does not look at the name. -/
theorem next_aliased (h : d.Aliased a d') (s : Storage) (w : Bytes) (atEnd : Bool) :
    (d.next s w atEnd).Aliased a (d'.next s w atEnd) := by
  obtain ⟨settings, delimiter, stage, form⟩ := d
  obtain ⟨settings', delimiter', stage', form'⟩ := d'
  obtain rfl : settings = settings' := h.settings
  obtain rfl : delimiter = delimiter' := h.delimiter
  have hform : form.Aliased a form' := h.form
  have hstage : stage.Aliased a stage' := h.stage
  rw [next, next]
  cases hstage with
  | boundaryLine =>
    dsimp only
    split
    · exact .wait
    · exact .fail _ s h
    · next line used _ =>
      rw [boundaryLine, boundaryLine]
      dsimp only
      split
      · exact .fail _ s h
      · exact .advance used s ⟨rfl, rfl, .ended, hform⟩
      · exact .advance used s ⟨rfl, rfl, .headerLines (.same _), hform⟩
  | headerLines hheading =>
    dsimp only
    split
    · exact .wait
    · exact .fail _ s h
    · next line used _ => exact headerLine_aliased hform hheading line used s
  | partData name hcontent => exact partData_aliased hform name hcontent w s
  | ended => exact .finished
  | failed phase => exact .fail _ s h

/-- Neither does a run. -/
theorem run_aliased (h : d.Aliased a d') (s : Storage) (w : Bytes) (atEnd : Bool) :
    (d.run s w atEnd).result = (d'.run s w atEnd).result ∧
      (d.run s w atEnd).storage = (d'.run s w atEnd).storage ∧
      (d.run s w atEnd).decoder.Aliased a (d'.run s w atEnd).decoder := by
  induction d, s, w using run_induction atEnd generalizing d' with
  | step d s w ih =>
    have hmove := next_aliased h s w atEnd
    generalize hnext : d.next s w atEnd = move at hmove
    generalize hnext' : d'.next s w atEnd = move' at hmove
    cases hmove with
    | wait =>
      rw [run_of_wait hnext, run_of_wait hnext']
      exact ⟨rfl, rfl, h⟩
    | finished =>
      rw [run_of_finished hnext, run_of_finished hnext']
      exact ⟨rfl, rfl, h⟩
    | fail e s' hafter =>
      rw [run_of_fail hnext, run_of_fail hnext']
      exact ⟨rfl, rfl, hafter⟩
    | advance n s' hafter =>
      rw [run_of_advance hnext, run_of_advance hnext']
      exact ih n _ s' hnext hafter

theorem Aliased.hasFailed (h : d.Aliased a d') : d.stage.hasFailed = d'.stage.hasFailed := by
  have hstage := h.stage
  generalize d.stage = stage, d'.stage = stage' at hstage
  cases hstage <;> rfl

theorem Aliased.fail (h : d.Aliased a d') : d.fail.Aliased a d'.fail := by
  have hphase : d.phase = d'.phase := by
    have hstage := h.stage
    rw [phase, phase]
    generalize d.stage = stage, d'.stage = stage' at hstage
    cases hstage <;> rfl
  refine ⟨h.settings, h.delimiter, ?_, .refl _⟩
  rw [Decoder.fail, Decoder.fail, hphase]
  exact .failed _

/-- The files of both decoders have the same paths. -/
theorem Aliased.release (h : d.Aliased a d') (s : Storage) : d.release s = d'.release s := by
  have hdrop : dropOpenFile d.stage.openFile? s = dropOpenFile d'.stage.openFile? s := by
    have hstage := h.stage
    generalize d.stage = stage, d'.stage = stage' at hstage
    cases hstage with
    | headerLines hheading =>
      cases hheading with
      | same => rfl
      | file hpart =>
        obtain ⟨-, -, rfl⟩ := hpart
        rfl
    | partData name hcontent =>
      cases hcontent with
      | same => rfl
      | file _ hpart =>
        obtain ⟨-, -, rfl⟩ := hpart
        rfl
    | _ => rfl
  rw [Decoder.release, Decoder.release, hdrop, h.form.removeFiles]

theorem pass_aliased (h : d.Aliased a d') (s : Storage) (buffer : InputBuffer) (atEnd : Bool) :
    (d.pass s buffer atEnd).result = (d'.pass s buffer atEnd).result ∧
      (d.pass s buffer atEnd).storage = (d'.pass s buffer atEnd).storage ∧
      (d.pass s buffer atEnd).decoder.Aliased a (d'.pass s buffer atEnd).decoder := by
  have hsame := h.hasFailed
  cases hd : d.stage.hasFailed with
  | true =>
    rw [hd] at hsame
    simp only [pass, hd, ← hsame, if_true]
    exact ⟨trivial, trivial, h⟩
  | false =>
    rw [hd] at hsame
    obtain ⟨hresult, hstorage, hafter⟩ := run_aliased h s buffer.unread atEnd
    cases hres : (d.run s buffer.unread atEnd).result with
    | ok progress =>
      obtain ⟨hr, hdec, hsto, -⟩ := pass_of_ok hd hres
      obtain ⟨hr', hdec', hsto', -⟩ := pass_of_ok hsame.symm (hresult.symm.trans hres)
      rw [hr, hr', hdec, hdec', hsto, hsto']
      exact ⟨rfl, hstorage, hafter⟩
    | error e =>
      obtain ⟨hr, hdec, hsto⟩ := pass_of_error hd hres
      obtain ⟨hr', hdec', hsto'⟩ := pass_of_error hsame.symm (hresult.symm.trans hres)
      rw [hr, hr', hdec, hdec', hsto, hsto', hafter.release, hstorage]
      exact ⟨rfl, rfl, hafter.fail⟩

/-- Both finish with the same error, or with forms that differ in the name at most. -/
theorem finish_aliased (h : d.Aliased a d') (s : Storage) (buffer : InputBuffer) :
    Answer.Related Eq (Form.Aliased a) (d.finish s buffer).result (d'.finish s buffer).result ∧
      (d.finish s buffer).storage = (d'.finish s buffer).storage := by
  obtain ⟨hresult, hstorage, hafter⟩ := pass_aliased h s buffer true
  cases hres : (d.pass s buffer true).result with
  | error e =>
    rw [finish_of_error hres, finish_of_error (hresult.symm.trans hres)]
    exact ⟨.error rfl, hstorage⟩
  | ok progress =>
    cases progress with
    | complete =>
      rw [finish_of_complete hres, finish_of_complete (hresult.symm.trans hres)]
      exact ⟨.ok hafter.form, hstorage⟩
    | needsMore =>
      rw [finish_of_needsMore hres, finish_of_needsMore (hresult.symm.trans hres)]
      refine ⟨.error rfl, ?_⟩
      show (d.pass s buffer true).decoder.release _ = (d'.pass s buffer true).decoder.release _
      rw [hafter.release, hstorage]

end Decoder

/-! ## The line that names a file -/

namespace PartHeader

/-- A Content-Disposition with a field and a file name. -/
def fileText (name clientName : String) : String :=
  "Content-Disposition: form-data; name=\"" ++ name ++ "\"; filename=\"" ++ clientName ++ "\""

/-- Its line, without the line feed. -/
def fileLine (name clientName : String) : Bytes :=
  Text.toBytes (fileText name clientName) ++ [Bytes.cr]

/-- Names that can be written into one line. -/
structure Writable (maxLength : Nat) (name clientName : String) : Prop where
  field : Text.Quotable name.toList
  file : Text.Quotable clientName.toList
  length : (fileLine name clientName).length ≤ maxLength

variable {name clientName : String}

theorem toList_fileText (name clientName : String) :
    (fileText name clientName).toList =
      "Content-Disposition: form-data; name=\"".toList ++ name.toList ++
        "\"; filename=\"".toList ++ clientName.toList ++ "\"".toList := by
  unfold fileText
  simp only [String.toList_append]

theorem parse_fileText (hname : '"' ∉ name.toList) (hclient : '"' ∉ clientName.toList) :
    parse (fileText name clientName).toList =
      .disposition [⟨formData, []⟩, ⟨Attribute.nameToken, name.toList⟩,
        ⟨Attribute.filenameToken, clientName.toList⟩] := by
  let attributes : List Attribute :=
    [⟨Attribute.nameToken, name.toList⟩, ⟨Attribute.filenameToken, clientName.toList⟩]
  let word : Spelling dispositionName := ⟨"Content-Disposition".toList, by decide⟩
  have hwritable : ∀ a ∈ attributes, a.Writable := by
    have htokens : Text.IsWord Attribute.nameToken ∧ Text.IsWord Attribute.filenameToken := by
      decide
    simp only [attributes, List.forall_mem_cons]
    exact ⟨⟨htokens.1, hname⟩, ⟨htokens.2, hclient⟩, nofun⟩
  have hformData : Text.IsWord formData := by decide
  have htext : (fileText name clientName).toList =
      line word.text (Attribute.writtenList formData attributes) := by
    rw [toList_fileText]
    simp [line, word, attributes, Attribute.writtenList, Attribute.written, formData,
      Attribute.nameToken, Attribute.filenameToken]
  rw [htext, parse_disposition word, Attribute.parseAll_written hformData (by decide) hwritable]

theorem dropCr_fileLine (name clientName : String) :
    Bytes.dropCr (fileLine name clientName) = Text.toBytes (fileText name clientName) :=
  Bytes.dropTail_append ..

theorem Writable.fits {maxLength : Nat} (h : Writable maxLength name clientName) :
    Line.Fits maxLength (fileLine name clientName) := by
  refine ⟨?_, h.length⟩
  have hlf : '\n' ∉ (fileText name clientName).toList := by
    rw [toList_fileText]
    simp [h.field.lf, h.file.lf]
  rw [fileLine, List.mem_append, not_or]
  exact ⟨fun hmem => hlf (Text.mem_of_mem_encode (by decide) (by decide) hmem), by decide⟩

end PartHeader

variable {name clientName clientName' : String} {heading : Option Heading}

/-- The line describes a file part that starts from scratch. -/
theorem Heading.read_fileText (hname : '"' ∉ name.toList) (hclient : '"' ∉ clientName.toList)
    (settings : Settings) (heading : Option Heading) (s : Storage) :
    read settings (PartHeader.fileText name clientName).toList heading s =
      match TempFile.create settings.uploadDir settings.maxFileSize
        (Decoder.dropOpenFile (part? heading) s) with
      | (.error e, s') => ⟨some e, some ⟨name, none⟩, s'⟩
      | (.ok target, s') => ⟨none, some ⟨name, some ⟨target, clientName, none⟩⟩, s'⟩ := by
  have hformData : Attribute.role ⟨PartHeader.formData, []⟩ = .other := by decide
  have hnameRole (value : List Char) : Attribute.role ⟨Attribute.nameToken, value⟩ = .name := rfl
  have hfileRole (value : List Char) :
      Attribute.role ⟨Attribute.filenameToken, value⟩ = .filename := rfl
  simp only [read, PartHeader.parse_fileText hname hclient, describe, hformData, hnameRole,
    hfileRole, rename, Attribute.text, String.ofList_toList]
  rfl

namespace Decoder

variable {d d' : Decoder} {s s' : Storage} {token : String} {settings : Settings}

/-- The decoder at the line of a file. -/
theorem next_fileLine (hstage : d.stage = .headerLines heading)
    (h : PartHeader.Writable d.settings.maxLineLength name clientName) (s : Storage)
    (rest : Bytes) (atEnd : Bool) :
    d.next s (PartHeader.fileLine name clientName ++ Bytes.lf :: rest) atEnd =
      match TempFile.create d.settings.uploadDir d.settings.maxFileSize
        (dropOpenFile (Heading.part? heading) s) with
      | (.error e, s') => .fail e { d with stage := .headerLines (some ⟨name, none⟩) } s'
      | (.ok target, s') =>
        .advance ((PartHeader.fileLine name clientName).length + 1)
          { d with stage := .headerLines (some ⟨name, some ⟨target, clientName, none⟩⟩) } s' := by
  have hline := Line.next_of_fits h.fits rest atEnd
  have htext : Text.decode (Text.toBytes (PartHeader.fileText name clientName)) =
      (PartHeader.fileText name clientName).toList := Text.decode_encode _
  have hempty : (Text.toBytes (PartHeader.fileText name clientName)).isEmpty = false := by
    rw [Text.toBytes, PartHeader.toList_fileText, Text.encode]
    rfl
  rw [next_headerLines hstage hline, PartHeader.dropCr_fileLine]
  simp only [headerLine, hempty, Bool.false_eq_true, if_false, htext,
    Heading.read_fileText h.field.quote h.file.quote]
  rcases TempFile.create d.settings.uploadDir d.settings.maxFileSize
    (dropOpenFile (Heading.part? heading) s) with ⟨_ | _, _⟩ <;> rfl

/-- Fed these pieces, the decoder has used them up and stands where a header line of a part
may begin. -/
structure AtHeaderLine (d : Decoder) (s : Storage) (pieces : List Bytes) : Prop where
  more : (d.feedAll s .empty pieces).result = .ok .needsMore
  stage : ∃ heading, (d.feedAll s .empty pieces).decoder.stage = .headerLines heading
  unread : (d.feedAll s .empty pieces).buffer.unread = []

theorem AtHeaderLine.reaches (hnew : new token settings = .ok d) {front : List Bytes}
    (h : d.AtHeaderLine s front) (more : Bytes) :
    d.Reaches s (front.flatten ++ more) (d.feedAll s .empty front).decoder
      (d.feedAll s .empty front).storage more := by
  have hwait : d.next s InputBuffer.empty.unread false = .wait := next_new hnew
  have hd := hasFailed_of_next_wait hwait
  obtain ⟨hfed, hunread⟩ := feedAll_agrees_process (hasHandle_new hnew) hwait front
  have hpass := hfed.result.symm.trans h.more
  have hrun := (result_pass hd).symm.trans hpass
  obtain ⟨-, hdec, hsto, hleft⟩ := pass_of_ok hd hrun
  have hreaches := Reaches.of_run hrun
  rw [← hdec, ← hsto, ← hleft, ← process, ← hfed.decoder, ← hfed.storage _ h.more,
    ← hunread h.more, h.unread] at hreaches
  have hafter := hreaches.append h.stage more
  simpa using hafter

/-! ## Two file names -/

/-- The rest of a body goes the same way behind both names: to the same error, or from
decoders that differ in the name only. -/
theorem continues_aliased (hnew : new token settings = .ok d) {front : List Bytes}
    (hat : d.AtHeaderLine s front)
    (hwritable : PartHeader.Writable settings.maxLineLength name clientName)
    (hwritable' : PartHeader.Writable settings.maxLineLength name clientName') (rest : Bytes) :
    let a : Alias := ⟨name, .inFolder settings.uploadDir
      (d.feedAll s .empty front).storage.names.upcoming, clientName, clientName'⟩
    let body := front.flatten ++ (PartHeader.fileLine name clientName ++ Bytes.lf :: rest)
    let body' := front.flatten ++ (PartHeader.fileLine name clientName' ++ Bytes.lf :: rest)
    (∃ e, d.Refuses s .empty body e ∧ d.Refuses s .empty body' e) ∨
      ∃ d₁ d₁' s₁, d₁.Aliased a d₁' ∧ d.Continues s .empty body d₁ s₁ rest ∧
        d.Continues s .empty body' d₁' s₁ rest := by
  intro a body body'
  have hreaches := hat.reaches hnew
  obtain ⟨heading, hstage⟩ := hat.stage
  have hsettings : (d.feedAll s .empty front).decoder.settings = settings := by
    have hgoes := (hreaches []).goesOn (hasFailed_of_next_wait (next_new (s := s) hnew))
    rw [hgoes.settings, eq_of_new hnew]
  generalize (d.feedAll s .empty front).decoder = d₀ at hreaches hstage hsettings
  obtain rfl := hsettings
  have hnext {clientName : String}
      (h : PartHeader.Writable d₀.settings.maxLineLength name clientName) :=
    next_fileLine hstage h (d.feedAll s .empty front).storage rest
  cases hcreate : TempFile.create d₀.settings.uploadDir d₀.settings.maxFileSize
      (dropOpenFile (Heading.part? heading) (d.feedAll s .empty front).storage) with
  | mk result s₁ =>
    rw [hcreate] at hnext
    cases result with
    | error e =>
      refine .inl ⟨e, (hreaches _).refuses hnew ?_, (hreaches _).refuses hnew ?_⟩
      · exact fun atEnd => ⟨_, _, hnext hwritable atEnd⟩
      · exact fun atEnd => ⟨_, _, hnext hwritable' atEnd⟩
    | ok target =>
      have hbehind {clientName : String}
          (h : PartHeader.Writable d₀.settings.maxLineLength name clientName) :
          d.Reaches s (front.flatten ++ (PartHeader.fileLine name clientName ++ Bytes.lf :: rest))
            { d₀ with stage := .headerLines (some ⟨name, some ⟨target, clientName, none⟩⟩) } s₁
            rest := by
        have hafter := (hreaches _).concat (hnext h false)
        rwa [← List.drop_drop, List.drop_left] at hafter
      refine .inr ⟨_, _, s₁, ?_, (hbehind hwritable).continues_new hnew,
        (hbehind hwritable').continues_new hnew⟩
      have hpath : target.path = a.path := by
        rw [TempFile.create] at hcreate
        split at hcreate <;> cases hcreate
        simp only [a]
        rw [names_dropOpenFile]
      exact ⟨rfl, rfl, .headerLines (.file ⟨hpath, rfl, rfl⟩), .refl _⟩

/-- Fed with such bodies, in any pieces, the decoder comes to the same; finished with them,
to forms that differ in the name at most. -/
theorem fileLines_alike (hnew : new token settings = .ok d) {front : List Bytes}
    (hat : d.AtHeaderLine s front)
    (hwritable : PartHeader.Writable settings.maxLineLength name clientName)
    (hwritable' : PartHeader.Writable settings.maxLineLength name clientName') (rest : Bytes)
    {pieces pieces' : List Bytes}
    (hpieces : pieces.flatten =
      front.flatten ++ (PartHeader.fileLine name clientName ++ Bytes.lf :: rest))
    (hpieces' : pieces'.flatten =
      front.flatten ++ (PartHeader.fileLine name clientName' ++ Bytes.lf :: rest)) :
    let a : Alias := ⟨name, .inFolder settings.uploadDir
      (d.feedAll s .empty front).storage.names.upcoming, clientName, clientName'⟩
    let once := d.finish s (InputBuffer.empty.push pieces.flatten)
    let once' := d.finish s (InputBuffer.empty.push pieces'.flatten)
    (d.feedAll s .empty pieces).result = (d.feedAll s .empty pieces').result ∧
      Answer.Related Eq (Form.Aliased a) once.result once'.result ∧
      ∀ form, once.result = .ok form → once.storage = once'.storage := by
  intro a once once'
  rcases continues_aliased hnew hat hwritable hwritable' rest with
    ⟨e, hrefuses, hrefuses'⟩ | ⟨d₁, d₁', s₁, halias, hgoes, hgoes'⟩
  · rw [← hpieces] at hrefuses
    rw [← hpieces'] at hrefuses'
    have honce : once.result = .error e := hrefuses.2 [] _ _ rfl rfl
    have honce' : once'.result = .error e := hrefuses'.2 [] _ _ rfl rfl
    refine ⟨(hrefuses.1 pieces rfl).trans (hrefuses'.1 pieces' rfl).symm, ?_, fun form hform => ?_⟩
    · rw [honce, honce']
      exact .error rfl
    · rw [honce] at hform
      cases hform
  · rw [← hpieces] at hgoes
    rw [← hpieces'] at hgoes'
    have honce : once.Agrees (d₁.finish s₁ (InputBuffer.empty.push rest)) := hgoes.2 [] _ _ rfl rfl
    have honce' : once'.Agrees (d₁'.finish s₁ (InputBuffer.empty.push rest)) :=
      hgoes'.2 [] _ _ rfl rfl
    obtain ⟨hform, hstorage⟩ := finish_aliased halias s₁ (InputBuffer.empty.push rest)
    refine ⟨?_, ?_, fun form hres => ?_⟩
    · rw [(hgoes.1 pieces rfl).result, (hgoes'.1 pieces' rfl).result]
      exact (pass_aliased halias s₁ _ false).1
    · rw [honce.result, honce'.result]
      exact hform
    · have hres₁ := honce.result.symm.trans hres
      rw [hres₁] at hform
      obtain ⟨form', hres'⟩ : ∃ form', once'.result = .ok form' := by
        rw [honce'.result]
        generalize (d₁'.finish s₁ (InputBuffer.empty.push rest)).result = result at hform
        cases hform with
        | ok => exact ⟨_, rfl⟩
      rw [honce.storage form hres, honce'.storage form' hres', hstorage]

/-- Whatever a decoder reads, files come, change and go in the upload folder only, under
the names that it makes itself. And wherever in a body a file is named, the name that the
client sends makes no difference: the body is refused with the same error, or comes to the
same form and the same files up to the names of temp files, except that the form may have
the one name or the other for this file, and for its variable. -/
theorem decoded_aliased (hnew : new token settings = .ok d) (s : Storage) :
    (∀ t x, Session.Visits ⟨some d, s, []⟩ t x →
      s.disk.ChangesAt (settings.IsTempPlace s) t.storage.disk) ∧
    ∀ (s' : Storage) (front pieces pieces' : List Bytes) (name clientName clientName' : String)
      (rest : Bytes),
      (settings.origin s).Fresh → (settings.origin s').Fresh →
      (settings.origin s).Alike (settings.origin s') →
      d.AtHeaderLine s front →
      PartHeader.Writable settings.maxLineLength name clientName →
      PartHeader.Writable settings.maxLineLength name clientName' →
      pieces.flatten =
        front.flatten ++ (PartHeader.fileLine name clientName ++ Bytes.lf :: rest) →
      pieces'.flatten =
        front.flatten ++ (PartHeader.fileLine name clientName' ++ Bytes.lf :: rest) →
      let o := settings.origin s
      let o' := settings.origin s'
      let a : Alias := ⟨name, .inFolder settings.uploadDir
        (d.feedAll s .empty front).storage.names.upcoming, clientName, clientName'⟩
      let fed := d.feedAll s .empty pieces
      let fed' := d.feedAll s' .empty pieces'
      Answer.Twin o o' Eq fed.result fed'.result ∧
        Answer.Twin o o' (fun form form' => ∃ form₁, form.Aliased a form₁ ∧ form₁.Twin o o' form')
          (fed.decoded none).1 (fed'.decoded none).1 ∧
        ∀ form, (fed.decoded none).1 = .ok form →
          (fed.decoded none).2.disk.Twin o o' (fed'.decoded none).2.disk := by
  refine ⟨fun t x hvisits => Session.changesAt_of_visits hnew hvisits, ?_⟩
  intro s' front pieces pieces' name clientName clientName' rest hfresh hfresh' halike hat
    hwritable hwritable' hpieces hpieces' o o' a fed fed'
  let once := d.finish s (InputBuffer.empty.push pieces.flatten)
  let once₁ := d.finish s (InputBuffer.empty.push pieces'.flatten)
  let once' := d.finish s' (InputBuffer.empty.push pieces'.flatten)
  -- The second body is followed on both storages.
  obtain ⟨hfed, hform, hkept⟩ : fed.result = (d.feedAll s .empty pieces').result ∧
      Answer.Related Eq (Form.Aliased a) once.result once₁.result ∧
      ∀ form, once.result = .ok form → once.storage = once₁.storage :=
    fileLines_alike hnew hat hwritable hwritable' rest hpieces hpieces'
  obtain ⟨htwin, hdisk⟩ : Answer.Twin o o' (Form.Twin o o') once₁.result once'.result ∧
      once₁.storage.disk.Twin o o' once'.storage.disk :=
    finish_twin hnew hfresh hfresh' halike _
  obtain ⟨hdecoded, hstorage⟩ : (fed.decoded none).1 = once.result ∧
      ∀ form, once.result = .ok form → (fed.decoded none).2 = once.storage :=
    decoded_eq_finish hnew rfl
  obtain ⟨hdecoded', hstorage'⟩ : (fed'.decoded none).1 = once'.result ∧
      ∀ form, once'.result = .ok form → (fed'.decoded none).2 = once'.storage :=
    decoded_eq_finish hnew rfl
  refine ⟨?_, ?_, fun form hres => ?_⟩
  · rw [hfed]
    exact (feedAll_twin hnew hfresh hfresh' halike pieces' pieces' rfl).1.result
  · rw [hdecoded, hdecoded']
    generalize once.result = result, once₁.result = result₁, once'.result = result' at hform htwin
    cases hform with
    | error he =>
      obtain rfl := he
      cases htwin with
      | error htwin => exact .error htwin
    | ok hform =>
      cases htwin with
      | ok htwin => exact .ok ⟨_, hform, htwin⟩
  · rw [hdecoded] at hres
    rw [hstorage form hres, hkept form hres]
    rcases htwin.elim with ⟨form₁, form', -, hres', -⟩ | ⟨e, -, hres₁, -⟩
    · rw [hstorage' form' hres']
      exact hdisk
    · rw [hres, hres₁] at hform
      cases hform

/-- A file name that looks like a path out of the folder, and another one. At its end the
first session has touched the upload folder only. -/
theorem decoded_aliased_of_path :
    let s : Storage := ⟨.ofFolders [["tmp"]], ⟨1, 0, 0⟩⟩
    let s' : Storage := ⟨.ofFolders [["tmp"]], ⟨2, 0, 0⟩⟩
    let front := [Text.toBytes "--B\r\n"]
    let rest := Text.toBytes "\r\nx\r\n--B--"
    let body (clientName : String) :=
      front.flatten ++ (PartHeader.fileLine "a" clientName ++ Bytes.lf :: rest)
    ∃ d form form', new "B" .standard = .ok d ∧ d.AtHeaderLine s front ∧
      PartHeader.Writable Settings.standard.maxLineLength "a" "../../f" ∧
      PartHeader.Writable Settings.standard.maxLineLength "a" "f" ∧
      ((d.feedAll s .empty [body "../../f"]).decoded none).1 = .ok form ∧
      ((d.feedAll s' .empty ((body "f").map fun b => [b])).decoded none).1 = .ok form' ∧
      (∃ path form₁, form.Aliased ⟨"a", path, "../../f", "f"⟩ form₁ ∧
        form₁.Twin (Settings.standard.origin s) (Settings.standard.origin s') form') ∧
      let session := Session.run ⟨some d, s, []⟩ [.finish (InputBuffer.empty.push (body "../../f"))]
      s.disk.ChangesAt (Settings.standard.IsTempPlace s) session.storage.disk := by
  intro s s' front rest body
  have hnew := new_of_ne .standard (show "B" ≠ "" by decide)
  let d : Decoder :=
    ⟨.standard, Delimiter.ofToken "B", .boundaryLine, .forFolder Settings.standard.uploadDir⟩
  have hat : d.AtHeaderLine s front := by
    have hmore : (d.feedAll s .empty front).result = .ok .needsMore := by cbv
    have hstage : (d.feedAll s .empty front).decoder.stage = .headerLines none := by cbv
    have hunread : (d.feedAll s .empty front).buffer.unread = [] := by cbv
    exact ⟨hmore, ⟨none, hstage⟩, hunread⟩
  have hwritable : PartHeader.Writable Settings.standard.maxLineLength "a" "../../f" :=
    ⟨⟨by decide, by decide⟩, ⟨by decide, by decide⟩, by decide +kernel⟩
  have hwritable' : PartHeader.Writable Settings.standard.maxLineLength "a" "f" :=
    ⟨⟨by decide, by decide⟩, ⟨by decide, by decide⟩, by decide +kernel⟩
  have hpieces : [body "../../f"].flatten = body "../../f" := List.flatten_singleton
  have hpieces' : ((body "f").map fun b => [b]).flatten = body "f" := by
    rw [← List.flatMap_def, List.flatMap_singleton']
  obtain ⟨hconfined, hnames⟩ := decoded_aliased hnew s
  obtain ⟨-, hanswer, -⟩ := hnames s' front [body "../../f"] ((body "f").map fun b => [b]) "a"
    "../../f" "f" rest (fun _ _ _ => rfl) (fun _ _ _ => rfl)
    (Settings.standard.alike_of_processes 1 2 (by decide)) hat hwritable hwritable' hpieces hpieces'
  let file : RawPart :=
    ⟨Text.toBytes "--B\r", [PartHeader.fileLine "a" "../../f"], [Bytes.cr], Text.toBytes "x\r\n"⟩
  have hbody : Framed .standard (Delimiter.ofToken "B") [file] (body "../../f") := by
    decide +kernel
  have haccepts : (Settings.standard.origin s).Accepts
      (Label.filenames ([file].flatMap RawPart.contents)) :=
    Origin.accepts_of_isOk (by decide +kernel)
  obtain ⟨-, honce, -⟩ := finish_of_framed (s := s) hnew hbody haccepts
  have hform := (decoded_eq_finish (s := s) hnew hpieces).1.trans honce
  rw [hform] at hanswer
  obtain ⟨x, hvisits⟩ := Session.visits_run ⟨some d, s, []⟩
    [.finish (InputBuffer.empty.push (body "../../f"))] _ rfl
  generalize hform' : ((Decoder.feedAll _ s' .empty ((body "f").map fun b => [b])).decoded none).1 =
    answer at hanswer
  cases hanswer with
  | ok htwin =>
    obtain ⟨form₁, halias, htwin⟩ := htwin
    exact ⟨d, _, _, hnew, hat, hwritable, hwritable', hform, hform', ⟨_, form₁, halias, htwin⟩,
      hconfined _ x hvisits⟩

end Decoder

end Multipart

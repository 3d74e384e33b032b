import Multipart.Proofs.Moments

/-!
# Where files are touched

A decoder makes the names of its temp files itself, of the process, a time and a count,
and puts the files into the upload folder (`Settings.IsTempPlace`). Nowhere else does it
create, write or remove anything, at no moment and whatever it reads
(`Session.changesAt_of_visits`).

Nothing is assumed of the disk at the start. A file may lie under such a name already,
and have other names; then it is the file that is written that has one of these names.
-/

namespace Multipart

/-! ## Changes at some places -/

namespace Disk

variable {places : Location → Prop} {d₀ d d' : Disk} {path : FilePath} {file : FileId}

/-- A file that is new, or that lay at one of these places. -/
def Touchable (places : Location → Prop) (d : Disk) (file : FileId) : Prop :=
  d.reversed.length ≤ file ∨ ∃ l, places l ∧ d.entries.get? l = some file

/-- From one disk to the other, names came and went at these places only, and only files
were written that are new or lay there. -/
structure ChangesAt (places : Location → Prop) (d d' : Disk) : Prop where
  folders : d'.folders = d.folders
  entries : ∀ l, ¬places l → d'.entries.get? l = d.entries.get? l
  contents : ∀ file, ¬d.Touchable places file → d'.contentsOf file = d.contentsOf file
  grown : d.reversed.length ≤ d'.reversed.length
  touchable : ∀ l file, places l → d'.entries.get? l = some file → d.Touchable places file

/-- A file that is opened is a new one, or the one that lay there. -/
theorem length_create (h : d.create path = .ok (file, d')) :
    d.reversed.length ≤ d'.reversed.length ∧
      (d.reversed.length ≤ file ∨ ∀ l, d.place path = .ok l → d.entries.get? l = some file) := by
  rw [create] at h
  cases hplace : d.place path with
  | error cause =>
    rw [hplace] at h
    cases h
  | ok l =>
    simp only [hplace, bind, Except.bind] at h
    split at h
    · next old hold =>
      cases h
      exact ⟨by simp [truncate], .inr fun x hx => Except.ok.inj hx ▸ hold⟩
    · cases h
      exact ⟨by simp [addFile], .inl (Nat.le_refl _)⟩

theorem contentsOf_append_of_ne {bytes : Bytes} {other : FileId} (h : other ≠ file) :
    (d.append file bytes).contentsOf other = d.contentsOf other := by
  simp [contentsOf, append, Ne.symm h]

namespace ChangesAt

theorem refl (d : Disk) : d.ChangesAt places d :=
  ⟨rfl, fun _ _ => rfl, fun _ _ => rfl, Nat.le_refl _, fun l _ hl hfile => .inr ⟨l, hl, hfile⟩⟩

/-- The file that is opened can be written from then on. -/
theorem create (h : d₀.ChangesAt places d) (hplace : ∀ l, d.place path = .ok l → places l)
    (hcreate : d.create path = .ok (file, d')) :
    d₀.ChangesAt places d' ∧ d₀.Touchable places file := by
  obtain ⟨l, hl, hentry, -, hentries, hcontents⟩ := create_spec hcreate
  obtain ⟨hgrown, hfile⟩ := length_create hcreate
  have hthere := hplace l hl
  have hopened : d₀.Touchable places file := by
    rcases hfile with hnew | hold
    · exact .inl (Nat.le_trans h.grown hnew)
    · exact h.touchable l file hthere (hold l hl)
  refine ⟨⟨(folders_create hcreate).trans h.folders, fun x hx => ?_, fun other hother => ?_,
    Nat.le_trans h.grown hgrown, fun x other hx hother => ?_⟩, hopened⟩
  · rw [hentries x, h.entries x hx]
    rintro rfl
    exact hx hthere
  · rw [hcontents other, h.contents other hother]
    rintro rfl
    exact hother hopened
  · by_cases hxl : x = l
    · rw [hxl, hentry] at hother
      obtain rfl := Option.some.inj hother
      exact hopened
    · rw [hentries x hxl] at hother
      exact h.touchable x other hx hother

theorem append (h : d₀.ChangesAt places d) (hfile : d₀.Touchable places file) (bytes : Bytes) :
    d₀.ChangesAt places (d.append file bytes) := by
  refine ⟨h.folders, h.entries, fun other hother => ?_, ?_, h.touchable⟩
  · rw [contentsOf_append_of_ne, h.contents other hother]
    rintro rfl
    exact hother hfile
  · simpa [Disk.append] using h.grown

theorem remove (h : d₀.ChangesAt places d) (hplace : ∀ l, d.place path = .ok l → places l) :
    d₀.ChangesAt places (d.remove path) := by
  cases hl : d.place path with
  | error cause =>
    rw [Disk.remove, hl]
    exact h
  | ok l =>
    have hsame : (d.remove path).reversed = d.reversed := by rw [Disk.remove, hl]
    refine ⟨(folders_remove d path).trans h.folders, fun x hx => ?_, fun other hother => ?_, ?_,
      fun x other hx hother => ?_⟩
    · rw [get?_remove hl, if_neg, h.entries x hx]
      rintro rfl
      exact hx (hplace x hl)
    · rw [contentsOf, hsame, ← contentsOf, h.contents other hother]
    · rw [hsame]
      exact h.grown
    · rw [get?_remove hl] at hother
      split at hother
      · cases hother
      · exact h.touchable x other hx hother

theorem removeAll {paths : List FilePath} (h : d₀.ChangesAt places d)
    (hplace : ∀ path ∈ paths, ∀ d : Disk, d.folders = d₀.folders →
      ∀ l, d.place path = .ok l → places l) :
    d₀.ChangesAt places (paths.foldl Disk.remove d) := by
  induction paths generalizing d with
  | nil => exact h
  | cons path paths ih =>
    refine ih (h.remove (hplace path List.mem_cons_self d h.folders)) ?_
    exact fun other hother => hplace other (List.mem_cons_of_mem _ hother)

end ChangesAt

/-! ## The upload folder -/

theorem names_withSlash (folder : String) :
    names (FilePath.withSlash folder) = names folder ∨
      names (FilePath.withSlash folder) = names folder ++ [""] := by
  rw [FilePath.withSlash]
  split
  · exact .inl rfl
  · split
    · exact .inl rfl
    · right
      rw [names, names, String.toList_append, show "/".toList = ['/'] from rfl,
        Text.splitOn_append_cons, List.map_append]
      rfl

/-- A slash at the end of a folder leads nowhere else. -/
theorem resolve_withSlash (d : Disk) (folder : String) :
    d.resolve (FilePath.withSlash folder) = d.resolve folder := by
  rw [resolve, resolve]
  rcases names_withSlash folder with hsame | hmore
  · rw [hsame]
  · have hstay (l : Location) : List.foldlM d.step l [""] = .ok l := by
      rw [List.foldlM_cons, step, if_pos (.inl rfl)]
      rfl
    rw [hmore, List.foldlM_append]
    cases List.foldlM d.step Location.start (names folder) with
    | error e => rfl
    | ok l => exact hstay l

end Disk

/-- A path in the upload folder, under a name of this process. -/
def Settings.IsTempPath (settings : Settings) (names : NameSupply) (path : FilePath) : Prop :=
  ∃ time count,
    path = .inFolder settings.uploadDir (NameSupply.nameOf names.process time count)

/-- A place directly in the upload folder, under a name of this process. -/
def Settings.IsTempPlace (settings : Settings) (s : Storage) (l : Location) : Prop :=
  ∃ folder time count, s.disk.resolve settings.uploadDir = .ok folder ∧
    l = folder.child (NameSupply.nameOf s.names.process time count)

variable {settings : Settings} {s : Storage}

theorem Settings.IsTempPath.place {path : FilePath} (h : settings.IsTempPath s.names path)
    {d : Disk} (hfolders : d.folders = s.disk.folders) {l : Location}
    (hplace : d.place path = .ok l) : settings.IsTempPlace s l := by
  obtain ⟨time, count, rfl⟩ := h
  rw [Disk.place_eq_ok_congr hfolders] at hplace
  obtain ⟨folder, -, hfolder, -, -, -, rfl⟩ := Disk.place_eq_ok_iff.mp hplace
  exact ⟨folder, time, count, (s.disk.resolve_withSlash _).symm.trans hfolder, rfl⟩

/-! ## Decoders -/

/-- Since this storage, files were touched in the upload folder only, and the files of a
decoder lie there. -/
structure Holdings.Confined (settings : Settings) (s : Storage) (x : Holdings) : Prop where
  process : x.storage.names.process = s.names.process
  disk : s.disk.ChangesAt (settings.IsTempPlace s) x.storage.disk
  path : ∀ part, x.part? = some part → settings.IsTempPath s.names part.target.path
  handle : ∀ part file, x.part? = some part → part.target.handle = some file →
    s.disk.Touchable (settings.IsTempPlace s) file
  form : ∀ f ∈ x.form.files.values, settings.IsTempPath s.names f.path

namespace Holdings.Confined

variable {part? : Option FilePart} {part : FilePart} {form : Form} {s' s₁ : Storage}

theorem drop (h : Confined settings s ⟨part?, form, s'⟩) :
    Confined settings s ⟨none, form, Decoder.dropOpenFile part? s'⟩ := by
  cases part? with
  | none => exact h
  | some part =>
    refine ⟨h.process, h.disk.remove fun l hl => ?_, nofun, nofun, h.form⟩
    exact (h.path part rfl).place h.disk.folders hl

theorem upcoming (h : Confined settings s ⟨none, form, s'⟩) :
    settings.IsTempPath s.names (.inFolder settings.uploadDir s'.names.upcoming) := by
  refine ⟨s'.names.clock.timeOf (s'.names.issued + 1), s'.names.issued + 1, ?_⟩
  rw [NameSupply.upcoming, NameSupply.numbered, h.process]

theorem refuse {e : UploadError} (h : Confined settings s ⟨none, form, s'⟩)
    (hcreate : TempFile.create settings.uploadDir settings.maxFileSize s' = (.error e, s₁)) :
    Confined settings s ⟨none, form, s₁⟩ := by
  rw [TempFile.create] at hcreate
  split at hcreate <;> cases hcreate
  exact ⟨h.process, h.disk, h.path, h.handle, h.form⟩

theorem create {t : TempFile} (h : Confined settings s ⟨none, form, s'⟩)
    (hcreate : TempFile.create settings.uploadDir settings.maxFileSize s' = (.ok t, s₁))
    (clientName : String) : Confined settings s ⟨some ⟨t, clientName, none⟩, form, s₁⟩ := by
  rw [TempFile.create] at hcreate
  split at hcreate
  · next file disk hdisk =>
    cases hcreate
    obtain ⟨hchanges, hfile⟩ :=
      h.disk.create (fun l hl => h.upcoming.place h.disk.folders hl) hdisk
    refine ⟨h.process, hchanges, ?_, ?_, h.form⟩
    · rintro part ⟨⟩
      exact h.upcoming
    · rintro part other ⟨⟩ ⟨⟩
      exact hfile
  · cases hcreate

theorem append {bytes : Bytes} {t : TempFile} (h : Confined settings s ⟨some part, form, s'⟩)
    (happend : part.target.append bytes s' = .ok (t, s₁)) :
    Confined settings s ⟨some { part with target := t }, form, s₁⟩ := by
  have hkept (size : Nat) :
      ∀ p file, some { part with target := { part.target with size } } = some p →
        p.target.handle = some file → s.disk.Touchable (settings.IsTempPlace s) file := by
    rintro p file ⟨⟩
    exact h.handle part file rfl
  rw [TempFile.append] at happend
  split at happend
  · cases happend
  · split at happend
    · cases happend
      exact h
    · split at happend
      · cases happend
      · next file hfile =>
        cases happend
        refine ⟨h.process, h.disk.append (h.handle part file rfl hfile) bytes, ?_, hkept _, h.form⟩
        rintro p ⟨⟩
        exact h.path part rfl

theorem publishFile (h : Confined settings s ⟨some part, form, s'⟩) (field : String) :
    Confined settings s ⟨none, (form.publishPart field s' (.file part)).1,
      (form.publishPart field s' (.file part)).2⟩ := by
  refine ⟨h.process, ?_, nofun, nofun, fun f hf => ?_⟩
  · simp only [Form.publishPart, Form.publishFile]
    split
    · next replaced hreplaced =>
      have hmem : replaced ∈ form.files.values := OrderedMap.mem_values_iff.mpr ⟨field, hreplaced⟩
      exact h.disk.remove fun l hl => (h.form replaced hmem).place h.disk.folders hl
    · exact h.disk
  · obtain ⟨key, hkey⟩ := OrderedMap.mem_values_iff.mp hf
    simp only [Form.publishPart, Form.publishFile, Form.withFile] at hkey
    rw [OrderedMap.get?_insert] at hkey
    split at hkey
    · obtain rfl := Option.some.inj hkey
      exact h.path part rfl
    · exact h.form f (OrderedMap.mem_values_iff.mpr ⟨key, hkey⟩)

theorem removeFiles (h : Confined settings s ⟨none, form, s'⟩) :
    Confined settings s ⟨none, .empty, s'.onDisk form.removeFiles⟩ := by
  have hpaths : s.disk.ChangesAt (settings.IsTempPlace s) (form.removeFiles s'.disk) := by
    rw [Form.removeFiles_eq]
    refine h.disk.removeAll fun path hpath d hfolders l hl => ?_
    obtain ⟨f, hf, rfl⟩ := List.mem_map.mp hpath
    exact (h.form f hf).place hfolders hl
  exact ⟨h.process, hpaths, nofun, nofun, nofun⟩

end Holdings.Confined

theorem Holdings.invariant_confined (settings : Settings) (s : Storage) :
    Invariant settings (Holdings.Confined settings s) where
  drop h := h.drop
  refuse h hcreate := h.refuse hcreate
  create h hcreate clientName := h.create hcreate clientName
  retype {part _ _} h _ := by
    refine ⟨h.process, h.disk, ?_, ?_, h.form⟩
    · rintro _ ⟨⟩
      exact h.path part rfl
    · rintro _ file ⟨⟩
      exact h.handle part file rfl
  append h happend := h.append happend
  publishFile h field := h.publishFile field
  publishField h _ _ := ⟨h.process, h.disk, h.path, h.handle, h.form⟩
  removeFiles h := h.removeFiles

/-- At every moment of a session of a new decoder, files were touched in the upload folder
only. -/
theorem Session.changesAt_of_visits {token : String} {d : Decoder}
    (hnew : Decoder.new token settings = .ok d) {t : Session} {x : Excerpt}
    (h : Visits ⟨some d, s, []⟩ t x) :
    s.disk.ChangesAt (settings.IsTempPlace s) t.storage.disk := by
  have hstart : (holdings ⟨some d, s, []⟩).Confined settings s := by
    rw [Decoder.eq_of_new hnew]
    exact ⟨rfl, .refl _, nofun, nofun, nofun⟩
  have hsettings : ∀ d₁, decoder? ⟨some d, s, []⟩ = some d₁ → d₁.settings = settings := by
    rintro _ ⟨⟩
    rw [Decoder.eq_of_new hnew]
  have hafter := (h.holdings (P := fun _ => Holdings.Confined settings s)
    (fun _ => Holdings.invariant_confined settings s)
    (fun hheld => ⟨hheld.process, hheld.disk, hheld.path, hheld.handle, nofun⟩) hsettings
    hstart).2
  have hdisk := hafter.disk
  rwa [storage_holdings] at hdisk

end Multipart

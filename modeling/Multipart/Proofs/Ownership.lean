import Multipart.Proofs.Parallel

/-!
# Who owns which file

A session is the life of one decoder: it is given buffers to process and
to finish on, turned into its form, or dropped, in any order and however
often it fails. In every state the files it has created and not removed
are those of the open file part, of the form that is being read, and of
the forms that were handed over (`Session.Exact`), each at one place
(`Session.exact_run`). What was handed over is never touched again, and
what was not is gone once the session gives up.
-/

namespace Multipart

/-- A decoder, as long as it is neither dropped nor turned into its form, the
storage it works on, and the forms it has handed over. -/
structure Session where
  decoder? : Option Decoder
  storage : Storage
  handed : List Form

namespace Session

/-- What can be done with a decoder. The buffer is the caller's and may hold
anything. -/
inductive Op where
  | process (buffer : InputBuffer)
  | finish (buffer : InputBuffer)
  | intoForm
  | drop

/-- One operation. There is none on a decoder that is gone. -/
def step (t : Session) (op : Op) : Session :=
  match t.decoder? with
  | none => t
  | some d =>
    match op with
    | .process buffer =>
      let o := d.process t.storage buffer
      ⟨some o.decoder, o.storage, t.handed⟩
    | .finish buffer =>
      let o := d.finish t.storage buffer
      ⟨some o.decoder, o.storage, t.handed ++ o.result.toOption.toList⟩
    | .intoForm =>
      let (result, s) := d.intoForm t.storage
      ⟨none, s, t.handed ++ result.toOption.toList⟩
    | .drop => ⟨none, d.release t.storage, t.handed⟩

/-- Operations one after the other. -/
def run (t : Session) (ops : List Op) : Session := ops.foldl step t

/-- Whether an operation ends with an error, or drops the decoder. -/
def GivesUp (t : Session) (op : Op) : Prop :=
  ∃ d, t.decoder? = some d ∧
    match op with
    | .process buffer => ∃ e, (d.process t.storage buffer).result = .error e
    | .finish buffer => ∃ e, (d.finish t.storage buffer).result = .error e
    | .intoForm => ∃ e, (d.intoForm t.storage).1 = .error e
    | .drop => True

/-! ## Files -/

/-- The path of the temp file that is being filled. -/
def openPaths (t : Session) : List FilePath :=
  (t.decoder?.bind fun d => d.stage.openFile?.map (·.target.path)).toList

/-- The files of the form that is being read. -/
def formFiles (t : Session) : List StoredFile :=
  match t.decoder? with
  | some d => d.form.files.values
  | none => []

/-- The files of the forms that were handed over. -/
def handedFiles (t : Session) : List StoredFile := t.handed.flatMap (·.files.values)

/-- All paths that anyone has. -/
def paths (t : Session) : List FilePath :=
  t.openPaths ++ (t.formFiles ++ t.handedFiles).map StoredFile.path

/-- The files on disk are exactly those that someone has the path of, besides
what lay there at the start. -/
structure Exact (start : Disk) (limit : Nat) (t : Session) : Prop where
  /-- Every path leads to a file, at a place where there was none. -/
  lies : ∀ p ∈ t.paths, ∃ l data, t.storage.disk.place p = .ok l ∧
    t.storage.disk.fileAt? l = some data ∧ start.fileAt? l = none
  /-- No two paths lead to one place. -/
  distinct : (t.paths.map t.storage.disk.place).Nodup
  /-- Where no path leads, all is as it was. -/
  unchanged : ∀ l, (∀ p ∈ t.paths, t.storage.disk.place p ≠ .ok l) →
    t.storage.disk.fileAt? l = start.fileAt? l
  /-- Every entry is as large as it says, and not too large. -/
  sizes : ∀ f ∈ t.formFiles ++ t.handedFiles, ∃ data,
    t.storage.disk.read? f.path = some data ∧ f.size = data.length ∧ f.size ≤ limit

/-! ## The invariant -/

/-- The files that were handed over lie in the base view, which shows what was
there at the start everywhere else. -/
structure Handed (o : Origin) (base : Location → Option Bytes) (files : List StoredFile) :
    Prop where
  lies : ∀ f ∈ files, ∃ k l data, f.path = o.path k ∧ o.place k = .ok l ∧ base l = some data ∧
    f.size = data.length ∧ data.length ≤ o.limit
  nodup : (files.map StoredFile.path).Nodup
  elsewhere : ∀ l, (∀ k, o.path k ∈ files.map StoredFile.path → o.place k ≠ .ok l) →
    base l = o.disk.fileAt? l

/-- What holds of a session in every state. A decoder that has failed has no
form. -/
structure Sound (o : Origin) (base : Location → Option Bytes) (c : Ledger) (t : Session) :
    Prop where
  handed : Handed o base t.handedFiles
  alive : ∀ d, t.decoder? = some d → d.Parallel o o base base c t.storage d t.storage
  gone : t.decoder? = none → c.Covers o base none ∅ t.storage
  failed : ∀ d, t.decoder? = some d → d.stage.hasFailed = true → d.form = .empty

variable {o : Origin} {base : Location → Option Bytes} {c : Ledger} {s : Storage} {t : Session}
  {files : List StoredFile} {form : Form}

/-! ## Handing over -/

/-- A file that the decoder has was not handed over. -/
theorem Handed.path_not_mem (hh : Handed o base files) {target? : Option TempFile}
    {stored : OrderedMap String StoredFile} (h : c.Covers o base target? stored s) {k : Nat}
    (hk : c.held k ≠ none) : o.path k ∉ files.map StoredFile.path := by
  intro hmem
  obtain ⟨f, hf, hsame⟩ := List.mem_map.mp hmem
  obtain ⟨k', l, data, hpath, hl, hdata, -⟩ := hh.lies f hf
  obtain rfl : k' = k := Origin.path_inj (hpath.symm.trans hsame)
  rw [h.keeps.free k' l (.inr hk) hl] at hdata
  cases hdata

theorem Handed.append (hh : Handed o base files) (h : c.Covers o base none form.files s) :
    Handed o s.disk.fileAt? (files ++ form.files.values) := by
  constructor
  · intro f hf
    rcases List.mem_append.mp hf with hold | hnew
    · obtain ⟨k, l, data, hpath, hl, hdata, hsize⟩ := hh.lies f hold
      exact ⟨k, l, data, hpath, hl, h.keeps.fileAt?_of_base hdata, hsize⟩
    · obtain ⟨k, l, data, -, hpath, hl, -, hat, hsize⟩ := h.lies_of_mem hnew
      exact ⟨k, l, data, hpath, hl, hat, hsize⟩
  · rw [List.map_append, List.nodup_append]
    refine ⟨hh.nodup, h.nodup_paths, ?_⟩
    rintro p hold q hnew rfl
    obtain ⟨f, hf, rfl⟩ := List.mem_map.mp hnew
    obtain ⟨k, -, data, -, hpath, -, hheld, -⟩ := h.lies_of_mem hf
    rw [hpath] at hold
    exact hh.path_not_mem h (by rw [hheld]; exact nofun) hold
  · intro l hl
    rw [List.map_append] at hl
    rw [h.keeps.elsewhere l, hh.elsewhere l]
    · exact fun k hk => hl k (List.mem_append_left _ hk)
    · intro k hk
      rcases h.claimed k hk with hopen | ⟨field, hfield⟩
      · rw [h.closed rfl] at hopen
        cases hopen
      · refine hl k (List.mem_append_right _ ?_)
        rw [h.paths_eq]
        exact List.mem_map_of_mem (OrderedMap.mem_values_iff.mpr ⟨field, hfield⟩)

end Session

/-! ## What one operation does -/

namespace Decoder

variable {s : Storage} {d : Decoder} {buffer : InputBuffer} {atEnd : Bool}

/-- A decoder that answers with an error has no form, if it had none after it
failed before. -/
theorem gaveUp_pass (hd : d.stage.hasFailed = true → d.form = .empty) {e : UploadError}
    (h : (d.pass s buffer atEnd).result = .error e) :
    (d.pass s buffer atEnd).decoder.stage.hasFailed = true ∧
      (d.pass s buffer atEnd).decoder.form = .empty := by
  cases hfailed : d.stage.hasFailed with
  | true =>
    simp only [pass, hfailed, if_true]
    exact ⟨trivial, hd hfailed⟩
  | false =>
    rw [result_pass hfailed] at h
    rw [(pass_of_error hfailed h).2.1]
    exact ⟨rfl, rfl⟩

theorem form_of_failed_pass (hd : d.stage.hasFailed = true → d.form = .empty)
    (hfailed : (d.pass s buffer atEnd).decoder.stage.hasFailed = true) :
    (d.pass s buffer atEnd).decoder.form = .empty := by
  cases hres : (d.pass s buffer atEnd).result with
  | error e => exact (gaveUp_pass hd hres).2
  | ok progress =>
    rw [hasFailed_of_result_pass hres] at hfailed
    cases hfailed

/-- A decoder that cannot finish has failed, and has no form. -/
theorem gaveUp_finish (hd : d.stage.hasFailed = true → d.form = .empty) {e : UploadError}
    (h : (d.finish s buffer).result = .error e) :
    (d.finish s buffer).decoder.stage.hasFailed = true ∧
      (d.finish s buffer).decoder.form = .empty := by
  cases hres : (d.pass s buffer true).result with
  | error e =>
    rw [finish_of_error hres]
    exact gaveUp_pass hd hres
  | ok progress =>
    cases progress with
    | needsMore =>
      rw [finish_of_needsMore hres]
      exact ⟨rfl, rfl⟩
    | complete =>
      rw [finish_of_complete hres] at h
      cases h

end Decoder

namespace Session

variable {o : Origin} {base : Location → Option Bytes} {c : Ledger} {s : Storage} {t : Session}
  {d : Decoder} {handed : List Form}

theorem Sound.pass (h : Sound o base c ⟨some d, s, handed⟩) (buffer : InputBuffer) (atEnd : Bool) :
    ∃ c', Sound o base c'
      ⟨some (d.pass s buffer atEnd).decoder, (d.pass s buffer atEnd).storage, handed⟩ := by
  obtain ⟨c', hpass⟩ := Decoder.pass_parallel (.refl o) (h.alive d rfl)
    (rfl : buffer.unread = buffer.unread) atEnd
  refine ⟨c', ⟨h.handed, ?_, nofun, ?_⟩⟩
  · rintro d' ⟨⟩
    exact hpass.after
  · rintro d' ⟨⟩ hfailed
    exact Decoder.form_of_failed_pass (h.failed d rfl) hfailed

theorem Sound.abort (h : Sound o base c ⟨some d, s, handed⟩) :
    Sound o base c.clear ⟨some (d.abort s).1, (d.abort s).2, handed⟩ := by
  refine ⟨h.handed, ?_, nofun, ?_⟩
  · rintro d' ⟨⟩
    exact (h.alive d rfl).abort
  · rintro d' ⟨⟩ -
    rfl

theorem Sound.release (h : Sound o base c ⟨some d, s, handed⟩) :
    Sound o base c.clear ⟨none, d.release s, handed⟩ :=
  ⟨h.handed, nofun, fun _ => (h.alive d rfl).owns.covers.release, nofun⟩

/-- After the form was handed over, for a decoder that stays and for one that
does not. -/
theorem Sound.handOver (h : Sound o base c ⟨some d, s, handed⟩) (hstage : d.stage = .ended) :
    Sound o s.disk.fileAt? c.clear ⟨some { d with form := .empty }, s, handed ++ [d.form]⟩ ∧
      Sound o s.disk.fileAt? c.clear ⟨none, s, handed ++ [d.form]⟩ := by
  have halive := h.alive d rfl
  have hcovers := halive.owns.covers
  rw [hstage] at hcovers
  have hfiles : Handed o s.disk.fileAt? (handedFiles ⟨none, s, handed ++ [d.form]⟩) := by
    have happend := h.handed.append hcovers
    simpa [handedFiles] using happend
  refine ⟨⟨hfiles, ?_, nofun, ?_⟩, ⟨hfiles, nofun, fun _ => hcovers.handOver, nofun⟩⟩
  · rintro d' ⟨⟩
    have hown : Decoder.Owns o s.disk.fileAt? c.clear { d with form := .empty } s := by
      refine ⟨halive.owns.folder, halive.owns.limit, ?_⟩
      rw [hstage]
      exact hcovers.handOver
    exact ⟨⟨rfl, rfl, halive.twin.stage, .empty⟩, hown, hown⟩
  · rintro d' ⟨⟩ -
    rfl

/-- What is in one base view is in the other. -/
def Grows (base base' : Location → Option Bytes) : Prop :=
  ∀ l data, base l = some data → base' l = some data

/-- Every operation keeps a session sound, and leaves what was handed over
where it is. -/
theorem Sound.step (h : t.Sound o base c) (op : Op) :
    ∃ base' c', (t.step op).Sound o base' c' ∧ Grows base base' ∧
      t.handed <+: (t.step op).handed := by
  obtain ⟨decoder?, s, handed⟩ := t
  cases decoder? with
  | none => exact ⟨base, c, h, fun _ _ hl => hl, List.prefix_rfl⟩
  | some d =>
    have hgrows : Grows base s.disk.fileAt? := fun l data hl =>
      (h.alive d rfl).owns.covers.keeps.fileAt?_of_base hl
    cases op with
    | process buffer =>
      obtain ⟨c', hpass⟩ := h.pass buffer false
      exact ⟨base, c', hpass, fun _ _ hl => hl, List.prefix_rfl⟩
    | drop => exact ⟨base, c.clear, h.release, fun _ _ hl => hl, List.prefix_rfl⟩
    | intoForm =>
      by_cases hstage : d.stage = .ended
      · simp only [Session.step, Decoder.intoForm, hstage]
        exact ⟨_, c.clear, (h.handOver hstage).2, hgrows, List.prefix_append ..⟩
      · simp only [Session.step, Decoder.intoForm_of_ne hstage]
        exact ⟨base, c.clear, (List.append_nil handed).symm ▸ h.release, fun _ _ hl => hl,
          List.prefix_append ..⟩
    | finish buffer =>
      obtain ⟨c', hpass⟩ := h.pass buffer true
      cases hres : (d.pass s buffer true).result with
      | error e =>
        simp only [Session.step, Decoder.finish_of_error hres]
        exact ⟨base, c', (List.append_nil handed).symm ▸ hpass, fun _ _ hl => hl,
          List.prefix_append ..⟩
      | ok progress =>
        cases progress with
        | needsMore =>
          simp only [Session.step, Decoder.finish_of_needsMore hres]
          exact ⟨base, c'.clear, (List.append_nil handed).symm ▸ hpass.abort, fun _ _ hl => hl,
            List.prefix_append ..⟩
        | complete =>
          simp only [Session.step, Decoder.finish_of_complete hres]
          refine ⟨_, c'.clear, (hpass.handOver (Decoder.stage_of_result_pass hres)).1, ?_,
            List.prefix_append ..⟩
          exact fun l data hl => (hpass.alive _ rfl).owns.covers.keeps.fileAt?_of_base hl

theorem Sound.run (h : t.Sound o base c) (ops : List Op) :
    ∃ base' c', (t.run ops).Sound o base' c' ∧ Grows base base' ∧
      t.handed <+: (t.run ops).handed := by
  induction ops generalizing t base c with
  | nil => exact ⟨base, c, h, fun _ _ hl => hl, List.prefix_rfl⟩
  | cons op ops ih =>
    obtain ⟨base₁, c₁, hstep, hgrows, hearlier⟩ := h.step op
    obtain ⟨base₂, c₂, hrun, hgrows', hearlier'⟩ := ih hstep
    exact ⟨base₂, c₂, hrun, fun l data hl => hgrows' l data (hgrows l data hl),
      hearlier.trans hearlier'⟩

/-! ## What is so of a sound session -/

theorem Sound.covers (h : t.Sound o base c) :
    ∃ target? files, c.Covers o base target? files t.storage ∧
    t.openPaths = (target?.map TempFile.path).toList ∧ t.formFiles = files.values := by
  cases hd : t.decoder? with
  | none => exact ⟨none, ∅, h.gone hd, by simp [openPaths, hd], by simp [formFiles, hd]; rfl⟩
  | some d =>
    refine ⟨_, _, (h.alive d hd).owns.covers, ?_, ?_⟩
    · simp [openPaths, hd]
      rfl
    · simp [formFiles, hd]

theorem Covers.of_open {target? : Option TempFile} {stored : OrderedMap String StoredFile}
    (h : c.Covers o base target? stored s) {p : FilePath}
    (hp : p ∈ (target?.map TempFile.path).toList) :
    ∃ k l data, c.opened = some k ∧ p = o.path k ∧ o.place k = .ok l ∧ c.held k = some data ∧
      s.disk.fileAt? l = some data := by
  cases target? with
  | none => cases hp
  | some t =>
    obtain rfl : p = t.path := by simpa using hp
    obtain ⟨k, data, hopen, hdata, hfilled⟩ := h.filled t rfl
    obtain ⟨l, hl, hat⟩ := h.keeps.at_held k data hdata
    exact ⟨k, l, data, hopen, hfilled.fills.1, hl, hdata, hat⟩

/-- Every path that anyone has is that of a file number, and leads to its
place. -/
theorem Sound.lies (h : t.Sound o base c) {p : FilePath} (hp : p ∈ t.paths) :
    ∃ k l data, p = o.path k ∧ o.place k = .ok l ∧ t.storage.disk.place p = .ok l ∧
      t.storage.disk.fileAt? l = some data := by
  obtain ⟨target?, files, hc, hopen, hform⟩ := h.covers
  have hlies : ∃ k l data, p = o.path k ∧ o.place k = .ok l ∧
      t.storage.disk.fileAt? l = some data := by
    rw [paths, hopen, hform, List.map_append] at hp
    rcases List.mem_append.mp hp with hp | hp
    · obtain ⟨k, l, data, -, hpath, hl, -, hat⟩ := Covers.of_open hc hp
      exact ⟨k, l, data, hpath, hl, hat⟩
    · rcases List.mem_append.mp hp with hp | hp
      · obtain ⟨f, hf, rfl⟩ := List.mem_map.mp hp
        obtain ⟨k, l, data, -, hpath, hl, -, hat, -⟩ := hc.lies_of_mem hf
        exact ⟨k, l, data, hpath, hl, hat⟩
      · obtain ⟨f, hf, rfl⟩ := List.mem_map.mp hp
        obtain ⟨k, l, data, hpath, hl, hdata, -⟩ := h.handed.lies f hf
        exact ⟨k, l, data, hpath, hl, hc.keeps.fileAt?_of_base hdata⟩
  obtain ⟨k, l, data, rfl, hl, hat⟩ := hlies
  exact ⟨k, l, data, rfl, hl, (hc.keeps.place_path k).trans hl, hat⟩

theorem Sound.nodup_paths (h : t.Sound o base c) : t.paths.Nodup := by
  obtain ⟨target?, files, hc, hopen, hform⟩ := h.covers
  rw [paths, hopen, hform, List.map_append, List.nodup_append, List.nodup_append]
  refine ⟨?_, ⟨hc.nodup_paths, h.handed.nodup, ?_⟩, ?_⟩
  · cases target? <;> simp
  · rintro p hp q hq rfl
    obtain ⟨f, hf, rfl⟩ := List.mem_map.mp hp
    obtain ⟨k, -, data, -, hpath, -, hheld, -⟩ := hc.lies_of_mem hf
    rw [hpath] at hq
    exact h.handed.path_not_mem hc (by rw [hheld]; exact nofun) hq
  · rintro p hp q hq rfl
    obtain ⟨k, -, data, hk, hpath, -, hheld, -⟩ := Covers.of_open hc hp
    rcases List.mem_append.mp hq with hq | hq
    · obtain ⟨f, hf, rfl⟩ := List.mem_map.mp hq
      obtain ⟨k', -, -, ⟨field, hfield⟩, hpath', -⟩ := hc.lies_of_mem hf
      obtain rfl : k' = k := Origin.path_inj (hpath'.symm.trans hpath)
      exact hc.apart field k' hfield hk
    · rw [hpath] at hq
      exact h.handed.path_not_mem hc (by rw [hheld]; exact nofun) hq

theorem Sound.unchanged (h : t.Sound o base c) {l : Location}
    (hl : ∀ p ∈ t.paths, t.storage.disk.place p ≠ .ok l) :
    t.storage.disk.fileAt? l = o.disk.fileAt? l := by
  obtain ⟨target?, files, hc, hopen, hform⟩ := h.covers
  have hnot {k : Nat} (hk : o.path k ∈ t.paths) : o.place k ≠ .ok l := by
    rw [← hc.keeps.place_path k]
    exact hl _ hk
  rw [paths, hopen, hform, List.map_append] at hnot
  rw [hc.keeps.elsewhere l, h.handed.elsewhere l]
  · exact fun k hk => hnot (List.mem_append_right _ (List.mem_append_right _ hk))
  · intro k hk
    rcases hc.claimed k hk with hk | ⟨field, hfield⟩
    · cases target? with
      | none =>
        rw [hc.closed rfl] at hk
        cases hk
      | some t =>
        obtain ⟨k', data, hk', -, hfilled⟩ := hc.filled t rfl
        obtain rfl := Option.some.inj (hk.symm.trans hk')
        exact hnot (List.mem_append_left _ (by simp [hfilled.fills.1]))
    · refine hnot (List.mem_append_right _ (List.mem_append_left _ ?_))
      rw [hc.paths_eq]
      exact List.mem_map_of_mem (OrderedMap.mem_values_iff.mpr ⟨field, hfield⟩)

theorem Sound.sizes (h : t.Sound o base c) {f : StoredFile}
    (hf : f ∈ t.formFiles ++ t.handedFiles) :
    ∃ data, t.storage.disk.read? f.path = some data ∧ f.size = data.length ∧ f.size ≤ o.limit := by
  obtain ⟨target?, files, hc, -, hform⟩ := h.covers
  have hlies : ∃ k l data, f.path = o.path k ∧ o.place k = .ok l ∧
      t.storage.disk.fileAt? l = some data ∧ f.size = data.length ∧ data.length ≤ o.limit := by
    rw [hform] at hf
    rcases List.mem_append.mp hf with hf | hf
    · obtain ⟨k, l, data, -, hpath, hl, -, hat, hsize⟩ := hc.lies_of_mem hf
      exact ⟨k, l, data, hpath, hl, hat, hsize⟩
    · obtain ⟨k, l, data, hpath, hl, hdata, hsize⟩ := h.handed.lies f hf
      exact ⟨k, l, data, hpath, hl, hc.keeps.fileAt?_of_base hdata, hsize⟩
  obtain ⟨k, l, data, hpath, hl, hat, hsize, hle⟩ := hlies
  refine ⟨data, ?_, hsize, hsize ▸ hle⟩
  rw [Disk.read?_eq, hpath, hc.keeps.place_path, hl]
  exact hat

theorem Sound.exact (h : t.Sound o base c) (hfresh : o.Fresh) : t.Exact o.disk o.limit where
  lies p hp := by
    obtain ⟨k, l, data, -, hl, hplace, hat⟩ := h.lies hp
    exact ⟨l, data, hplace, hat, hfresh k l hl⟩
  distinct := by
    refine h.nodup_paths.map_on ?_
    intro p hp q hq hsame
    obtain ⟨j, l, -, rfl, hj, hplace, -⟩ := h.lies hp
    obtain ⟨k, l', -, rfl, hk, hplace', -⟩ := h.lies hq
    obtain rfl := Except.ok.inj (hplace.symm.trans (hsame.trans hplace'))
    rw [Origin.place_inj hj hk]
  unchanged l hl := h.unchanged hl
  sizes f hf := h.sizes hf

theorem own_eq_nil (hd : d.stage.hasFailed = true ∧ d.form = .empty) :
    openPaths ⟨some d, s, handed⟩ = [] ∧ formFiles ⟨some d, s, handed⟩ = [] := by
  obtain ⟨hfailed, hform⟩ := hd
  have hopen : d.stage.openFile? = none := by
    cases hstage : d.stage with
    | failed phase => rfl
    | _ => rw [hstage] at hfailed; cases hfailed
  constructor
  · rw [openPaths, Option.bind_some, hopen]
    rfl
  · simp only [formFiles, hform]
    rfl

/-- A session that gives up has no file of its own left. -/
theorem Sound.nil_of_givesUp (h : t.Sound o base c) {op : Op} (hop : t.GivesUp op) :
    (t.step op).openPaths = [] ∧ (t.step op).formFiles = [] := by
  obtain ⟨decoder?, s, handed⟩ := t
  obtain ⟨d, hd, hop⟩ := hop
  obtain rfl : decoder? = some d := hd
  cases op with
  | process buffer =>
    obtain ⟨e, he⟩ := hop
    exact own_eq_nil (Decoder.gaveUp_pass (h.failed d rfl) he)
  | drop => exact ⟨rfl, rfl⟩
  | intoForm => exact ⟨rfl, rfl⟩
  | finish buffer =>
    obtain ⟨e, he⟩ := hop
    exact own_eq_nil (Decoder.gaveUp_finish (h.failed d rfl) he)

/-- What was handed over stays with whoever it was handed to. -/
theorem Sound.read?_run (h : t.Sound o base c) (ops : List Op) {f : StoredFile}
    (hf : f ∈ t.handedFiles) :
    f ∈ (t.run ops).handedFiles ∧
      (t.run ops).storage.disk.read? f.path = t.storage.disk.read? f.path := by
  obtain ⟨base', c', hrun, hgrows, forms, hforms⟩ := h.run ops
  obtain ⟨k, l, data, hpath, hl, hdata, -⟩ := h.handed.lies f hf
  obtain ⟨target?, files, hc, -⟩ := h.covers
  obtain ⟨target?', files', hc', -⟩ := hrun.covers
  constructor
  · rw [handedFiles, ← hforms, List.flatMap_append]
    exact List.mem_append_left _ hf
  · rw [Disk.read?_eq, Disk.read?_eq, hpath, hc.keeps.place_path, hc'.keeps.place_path, hl]
    exact (hc'.keeps.fileAt?_of_base (hgrows l data hdata)).trans
      (hc.keeps.fileAt?_of_base hdata).symm

theorem sound_new {token : String} {settings : Settings}
    (hnew : Decoder.new token settings = .ok d) (hfresh : (settings.origin s).Fresh) :
    Sound (settings.origin s) s.disk.fileAt? .start ⟨some d, s, []⟩ := by
  refine ⟨⟨nofun, List.nodup_nil, fun _ _ => rfl⟩, ?_, nofun, ?_⟩
  · rintro d' ⟨⟩
    exact Decoder.parallel_new hnew hfresh hfresh
  · rintro d' ⟨⟩ hfailed
    rw [Decoder.hasFailed_of_next_wait (Decoder.next_new (s := s) hnew)] at hfailed
    cases hfailed

/-- Disk ownership, in every state that a new decoder can get to: no file is
lost, none is left behind, and none is touched that someone else has. -/
theorem exact_run {token : String} {settings : Settings}
    (hnew : Decoder.new token settings = .ok d) (hfresh : (settings.origin s).Fresh)
    (ops : List Op) :
    let t := run ⟨some d, s, []⟩ ops
    t.Exact s.disk settings.maxFileSize ∧
      (∀ op, t.GivesUp op → (t.step op).openPaths = [] ∧ (t.step op).formFiles = []) ∧
      ∀ later, ∀ f ∈ t.handedFiles, f ∈ (t.run later).handedFiles ∧
        (t.run later).storage.disk.read? f.path = t.storage.disk.read? f.path := by
  obtain ⟨base, c, hsound, -⟩ := (sound_new hnew hfresh).run ops
  exact ⟨hsound.exact hfresh, fun op hop => hsound.nil_of_givesUp hop,
    fun later f hf => hsound.read?_run later hf⟩

/-- An upload that is handed over before the decoder is dropped. -/
theorem exact_run_of_upload :
    let s : Storage := ⟨.ofFolders [["tmp"]], ⟨1, 0, 0⟩⟩
    let body := Text.toBytes
      "--B\r\nContent-Disposition: form-data; name=a; filename=f\r\n\r\nx\r\n--B--"
    let ops := [.process (InputBuffer.empty.push body), .finish .empty, .drop]
    ∃ d, Decoder.new "B" .standard = .ok d ∧
      (run ⟨some d, s, []⟩ ops).Exact s.disk Settings.standard.maxFileSize := by
  intro s body ops
  have hnew := Decoder.new_of_ne .standard (show "B" ≠ "" by decide)
  have hfresh : (Settings.standard.origin s).Fresh := fun _ _ _ => rfl
  exact ⟨_, hnew, (exact_run hnew hfresh ops).1⟩

end Session

end Multipart

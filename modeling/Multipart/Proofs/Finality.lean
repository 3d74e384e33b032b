import Multipart.Proofs.Ownership

/-!
# Failure is final

A decoder that answers with an error has failed for good: it keeps nothing
of what it read, it never touches a buffer again, and it answers every
later call with the same error (`Session.failed_for_good`).

It leaves no file behind either, whatever lay on the disk before. For that
`Holdings.Tidy` follows the names that a session has taken: whatever still
lies under one of them is the open file, a file of the form, or was handed
over, and every new file lies under one. Every operation on files keeps
this up (`Holdings.invariant_tidy`).
-/

namespace Multipart

/-! ## Names that are accounted for -/

namespace Holdings

/-- The path of the open file and those of the form. -/
def paths (x : Holdings) : List FilePath :=
  (x.part?.map (·.target.path)).toList ++ x.form.files.values.map StoredFile.path

/-- With so many names given out since the start, every new file lies under
one of them, and whatever lies under one was handed over or is a file of the
decoder. -/
structure Accounted (o : Origin) (handed : List FilePath) (asked : Nat) (x : Holdings) :
    Prop where
  names : x.storage.names = o.names.ahead asked
  folders : x.storage.disk.folders = o.disk.folders
  named : ∀ l, x.storage.disk.fileAt? l ≠ none →
    o.disk.fileAt? l ≠ none ∨ ∃ k < asked, o.place k = .ok l
  owned : ∀ k < asked, x.storage.disk.read? (o.path k) ≠ none → o.path k ∈ handed ++ x.paths

def Tidy (o : Origin) (handed : List FilePath) (x : Holdings) : Prop :=
  ∃ asked, x.Accounted o handed asked

variable {o : Origin} {handed handed' : List FilePath} {x y : Holdings} {asked : Nat}

/-- Files that are gone need no account. -/
theorem Accounted.of_shrinks (h : x.Accounted o handed asked)
    (hnames : y.storage.names = x.storage.names) (hshrinks : x.storage.disk.Shrinks y.storage.disk)
    (hpaths : ∀ p, y.storage.disk.read? p ≠ none → p ∈ handed ++ x.paths →
      p ∈ handed' ++ y.paths) : y.Accounted o handed' asked where
  names := hnames.trans h.names
  folders := hshrinks.folders.trans h.folders
  named l hl := h.named l (hshrinks.files l hl)
  owned k hk hread := hpaths _ hread (h.owned k hk (hshrinks.read? hread))

theorem Accounted.drop {part? : Option FilePart} {form : Form} {s : Storage}
    (h : Accounted o handed asked ⟨part?, form, s⟩) :
    Accounted o handed asked ⟨none, form, Decoder.dropOpenFile part? s⟩ := by
  cases part? with
  | none => exact h
  | some part =>
    refine h.of_shrinks rfl (Disk.shrinks_remove ..) fun p hread hmem => ?_
    have hne : p ≠ part.target.path := by
      rintro rfl
      exact hread (Disk.read?_remove_self ..)
    simpa [paths, hne] using hmem

theorem exists_lt_succ {p : Nat → Prop} (h : ∃ k < asked, p k) : ∃ k < asked + 1, p k := by
  obtain ⟨k, hk, hp⟩ := h
  exact ⟨k, Nat.lt_succ_of_lt hk, hp⟩

/-- The path that the next temp file gets. -/
theorem Accounted.upcoming (h : x.Accounted o handed asked) :
    FilePath.inFolder o.folder x.storage.names.upcoming = o.path asked := by
  rw [h.names]
  rfl

theorem Accounted.refuse {form : Form} {limit : Nat} {s s' : Storage} {e : UploadError}
    (h : Accounted o handed asked ⟨none, form, s⟩)
    (hcreate : TempFile.create o.folder limit s = (.error e, s')) :
    Accounted o handed (asked + 1) ⟨none, form, s'⟩ := by
  rw [TempFile.create, h.upcoming] at hcreate
  split at hcreate
  · cases hcreate
  · next cause hdisk =>
    cases hcreate
    refine ⟨congrArg NameSupply.issue h.names, h.folders, fun l hl => ?_, fun k hk hread => ?_⟩
    · exact (h.named l hl).imp_right exists_lt_succ
    · rcases Nat.lt_succ_iff_lt_or_eq.mp hk with hlt | rfl
      · exact h.owned k hlt hread
      · exact absurd (Disk.read?_of_create_error hdisk) hread

theorem Accounted.create {form : Form} {limit : Nat} {s s' : Storage} {t : TempFile}
    (h : Accounted o handed asked ⟨none, form, s⟩)
    (hcreate : TempFile.create o.folder limit s = (.ok t, s')) (clientName : String) :
    Accounted o handed (asked + 1) ⟨some ⟨t, clientName, none⟩, form, s'⟩ := by
  rw [TempFile.create, h.upcoming] at hcreate
  split at hcreate
  · next file disk hdisk =>
    cases hcreate
    have hfolders := Disk.folders_create hdisk
    refine ⟨congrArg NameSupply.issue h.names, hfolders.trans h.folders, fun l hl => ?_,
      fun k hk hread => ?_⟩
    · rcases Disk.files_of_create hdisk hl with hold | hplace
      · exact (h.named l hold).imp_right exists_lt_succ
      · exact .inr ⟨asked, Nat.lt_succ_self asked, (Disk.place_eq_ok_congr h.folders).mp hplace⟩
    · rcases Nat.lt_succ_iff_lt_or_eq.mp hk with hlt | rfl
      · -- names with different numbers do not meet, so the file was there before
        obtain ⟨l, hplace, hfile⟩ := Disk.read?_ne_none_iff.mp hread
        rw [Disk.place_eq_ok_congr hfolders] at hplace
        rcases Disk.files_of_create hdisk hfile with hold | hplace'
        · rcases List.mem_append.mp (h.owned k hlt
            (Disk.read?_ne_none_iff.mpr ⟨l, hplace, hold⟩)) with hmem | hmem
          · exact List.mem_append_left _ hmem
          · exact List.mem_append_right _ (List.mem_append_right _ hmem)
        · have := Origin.place_inj ((Disk.place_eq_ok_congr h.folders).mp hplace)
            ((Disk.place_eq_ok_congr h.folders).mp hplace')
          omega
      · simp [paths]
  · cases hcreate

theorem Accounted.publishFile {part : FilePart} {form : Form} {s : Storage}
    (h : Accounted o handed asked ⟨some part, form, s⟩) (field : String) :
    Accounted o handed asked ⟨none, (form.publishPart field s (.file part)).1,
      (form.publishPart field s (.file part)).2⟩ := by
  have hfiles : ∀ other f, form.files.get? other = some f → other ≠ field →
      f ∈ (form.files.insert field part.stored).values := by
    intro other f hf hne
    refine OrderedMap.mem_values_iff.mpr ⟨other, ?_⟩
    rw [OrderedMap.get?_insert, if_neg hne, hf]
  have hnew : part.stored ∈ (form.files.insert field part.stored).values :=
    OrderedMap.mem_values_iff.mpr ⟨field, by rw [OrderedMap.get?_insert, if_pos rfl]⟩
  have hkept : ∀ p, p ∈ paths ⟨some part, form, s⟩ →
      p ∈ (form.files.insert field part.stored).values.map StoredFile.path ∨
        ∃ replaced, form.files.get? field = some replaced ∧ replaced.path = p := by
    intro p hp
    rcases List.mem_append.mp hp with hopen | hform
    · obtain rfl : p = part.target.path := by simpa using hopen
      exact .inl (List.mem_map.mpr ⟨part.stored, hnew, rfl⟩)
    · obtain ⟨f, hf, rfl⟩ := List.mem_map.mp hform
      obtain ⟨other, hother⟩ := OrderedMap.mem_values_iff.mp hf
      by_cases hsame : other = field
      · exact .inr ⟨f, hsame ▸ hother, rfl⟩
      · exact .inl (List.mem_map_of_mem (hfiles other f hother hsame))
  have hdisk : (form.publishPart field s (.file part)).2.disk =
      (form.publishFile field part.stored s.disk).2 := rfl
  refine h.of_shrinks rfl ?_ fun p hread hmem => ?_
  · rw [hdisk, Form.publishFile]
    dsimp only
    split
    · exact Disk.shrinks_remove ..
    · exact .refl s.disk
  · rcases List.mem_append.mp hmem with hhanded | hmem
    · exact List.mem_append_left _ hhanded
    · rcases hkept p hmem with hform | ⟨replaced, hreplaced, rfl⟩
      · exact List.mem_append_right _ hform
      · rw [hdisk, Form.publishFile] at hread
        simp only [hreplaced] at hread
        exact absurd (Disk.read?_remove_self ..) hread

theorem Accounted.append {part : FilePart} {form : Form} {s s' : Storage} {bytes : Bytes}
    {t : TempFile} (h : Accounted o handed asked ⟨some part, form, s⟩)
    (happend : part.target.append bytes s = .ok (t, s')) :
    Accounted o handed asked ⟨some { part with target := t }, form, s'⟩ := by
  rw [TempFile.append] at happend
  split at happend
  · cases happend
  · split at happend
    · cases happend
      exact h
    · split at happend <;> cases happend
      exact h.of_shrinks rfl (Disk.shrinks_append ..) fun p _ hmem => hmem

theorem Accounted.removeFiles {form : Form} {s : Storage}
    (h : Accounted o handed asked ⟨none, form, s⟩) :
    Accounted o handed asked ⟨none, .empty, s.onDisk form.removeFiles⟩ := by
  have hdisk : (s.onDisk form.removeFiles).disk =
      (form.files.values.map StoredFile.path).foldl Disk.remove s.disk :=
    form.removeFiles_eq s.disk
  refine h.of_shrinks rfl (hdisk ▸ Disk.shrinks_removeAll ..) fun p hread hmem => ?_
  rcases List.mem_append.mp hmem with hhanded | hform
  · exact List.mem_append_left _ hhanded
  · rw [hdisk] at hread
    exact absurd (Disk.read?_removeAll hform) hread

/-- Every operation on files keeps the names accounted for. -/
theorem invariant_tidy {settings : Settings} (hfolder : settings.uploadDir = o.folder) :
    Invariant settings (Tidy o handed) where
  drop := fun ⟨asked, h⟩ => ⟨asked, h.drop⟩
  refuse := fun ⟨asked, h⟩ hcreate => ⟨asked + 1, h.refuse (hfolder ▸ hcreate)⟩
  create := fun ⟨asked, h⟩ hcreate clientName =>
    ⟨asked + 1, h.create (hfolder ▸ hcreate) clientName⟩
  retype := fun ⟨asked, h⟩ _ => ⟨asked, h.names, h.folders, h.named, h.owned⟩
  append := fun ⟨asked, h⟩ happend => ⟨asked, h.append happend⟩
  publishFile := fun ⟨asked, h⟩ field => ⟨asked, h.publishFile field⟩
  publishField := fun ⟨asked, h⟩ _ _ => ⟨asked, h.names, h.folders, h.named, h.owned⟩
  removeFiles := fun ⟨asked, h⟩ => ⟨asked, h.removeFiles⟩

/-- What was in the form is accounted for once the form was handed over. -/
theorem Tidy.handOver {part? : Option FilePart} {form : Form} {s : Storage}
    (h : Tidy o handed ⟨part?, form, s⟩) :
    Tidy o (handed ++ form.files.values.map StoredFile.path) ⟨part?, .empty, s⟩ := by
  obtain ⟨asked, h⟩ := h
  refine ⟨asked, h.of_shrinks rfl (.refl s.disk) fun p _ hmem => ?_⟩
  simp only [paths, List.mem_append] at hmem ⊢
  rcases hmem with hhanded | hopen | hform
  · exact .inl (.inl hhanded)
  · exact .inr (.inl hopen)
  · exact .inl (.inr hform)

end Holdings

/-! ## Sessions -/

namespace Session

/-- What the decoder of a session has, if there is one. -/
def holdings (t : Session) : Holdings :=
  match t.decoder? with
  | some d => d.holdings t.storage
  | none => ⟨none, .empty, t.storage⟩

theorem storage_holdings (t : Session) : t.holdings.storage = t.storage := by
  rw [holdings]
  split <;> rfl

/-- All names that a session has taken are accounted for. -/
structure Tidy (o : Origin) (t : Session) : Prop where
  files : t.holdings.Tidy o (t.handedFiles.map StoredFile.path)
  folder : ∀ d, t.decoder? = some d → d.settings.uploadDir = o.folder
  failed : ∀ d, t.decoder? = some d → d.stage.hasFailed = true → d.form = .empty

variable {o : Origin} {t : Session} {d : Decoder} {s : Storage} {handed : List Form}
  {buffer : InputBuffer}

theorem Tidy.pass (h : Tidy o ⟨some d, s, handed⟩) (buffer : InputBuffer) (atEnd : Bool) :
    Tidy o ⟨some (d.pass s buffer atEnd).decoder, (d.pass s buffer atEnd).storage, handed⟩ := by
  obtain ⟨hsettings, hfiles⟩ := (Holdings.invariant_tidy (h.folder d rfl)).pass h.files
  refine ⟨hfiles, ?_, ?_⟩
  · rintro d' ⟨⟩
    rw [hsettings]
    exact h.folder d rfl
  · rintro d' ⟨⟩ hfailed
    exact Decoder.form_of_failed_pass (h.failed d rfl) hfailed

theorem Tidy.feedAll (h : Tidy o ⟨some d, s, handed⟩) (buffer : InputBuffer)
    (pieces : List Bytes) :
    Tidy o ⟨some (d.feedAll s buffer pieces).decoder, (d.feedAll s buffer pieces).storage,
      handed⟩ := by
  induction pieces generalizing d s buffer with
  | nil => exact h
  | cons piece pieces ih =>
    have hpass := h.pass (buffer.push piece) false
    by_cases hmore : (d.feed s buffer piece).result = .ok .needsMore
    · rw [Decoder.feedAll_cons hmore]
      exact ih hpass _
    · rw [Decoder.feedAll_cons_of_ne hmore]
      exact hpass

theorem Tidy.abort (h : Tidy o ⟨some d, s, handed⟩) :
    Tidy o ⟨some (d.abort s).1, (d.abort s).2, handed⟩ := by
  refine ⟨(Holdings.invariant_tidy (h.folder d rfl)).release h.files, ?_, ?_⟩
  · rintro d' ⟨⟩
    exact h.folder d rfl
  · rintro d' ⟨⟩ -
    rfl

theorem Tidy.gone (h : (holdings ⟨none, s, handed⟩).Tidy o
    ((handedFiles ⟨none, s, handed⟩).map StoredFile.path)) : Tidy o ⟨none, s, handed⟩ := by
  refine ⟨h, ?_, ?_⟩
  · rintro d ⟨⟩
  · rintro d ⟨⟩

theorem Tidy.release (h : Tidy o ⟨some d, s, handed⟩) : Tidy o ⟨none, d.release s, handed⟩ :=
  .gone ((Holdings.invariant_tidy (h.folder d rfl)).release h.files)

theorem Tidy.handOver (h : Tidy o ⟨some d, s, handed⟩) (hstage : d.stage = .ended) :
    Tidy o ⟨some { d with form := .empty }, s, handed ++ [d.form]⟩ ∧
      Tidy o ⟨none, s, handed ++ [d.form]⟩ := by
  have hfiles := h.files
  rw [show holdings ⟨some d, s, handed⟩ = ⟨none, d.form, s⟩ by
    simp only [holdings, Decoder.holdings, hstage]
    rfl] at hfiles
  have hafter := hfiles.handOver
  rw [show (handedFiles ⟨some d, s, handed⟩).map StoredFile.path ++
      d.form.files.values.map StoredFile.path =
        (handedFiles ⟨none, s, handed ++ [d.form]⟩).map StoredFile.path by
    simp [handedFiles]] at hafter
  refine ⟨⟨?_, ?_, ?_⟩, .gone hafter⟩
  · rw [show holdings ⟨some { d with form := .empty }, s, handed ++ [d.form]⟩ =
      ⟨none, .empty, s⟩ by
        simp only [holdings, Decoder.holdings, hstage]
        rfl]
    exact hafter
  · rintro d' ⟨⟩
    exact h.folder d rfl
  · rintro d' ⟨⟩ -
    rfl

theorem Tidy.step (h : t.Tidy o) (op : Op) : (t.step op).Tidy o := by
  obtain ⟨decoder?, s, handed⟩ := t
  cases decoder? with
  | none => exact h
  | some d =>
    cases op with
    | process buffer => exact h.pass buffer false
    | drop => exact h.release
    | intoForm =>
      by_cases hstage : d.stage = .ended
      · simp only [Session.step, Decoder.intoForm, hstage]
        exact (h.handOver hstage).2
      · simp only [Session.step, Decoder.intoForm_of_ne hstage]
        exact (List.append_nil handed).symm ▸ h.release
    | finish buffer =>
      have hpass := h.pass buffer true
      cases hres : (d.pass s buffer true).result with
      | error e =>
        simp only [Session.step, Decoder.finish_of_error hres]
        exact (List.append_nil handed).symm ▸ hpass
      | ok progress =>
        cases progress with
        | needsMore =>
          simp only [Session.step, Decoder.finish_of_needsMore hres]
          exact (List.append_nil handed).symm ▸ hpass.abort
        | complete =>
          simp only [Session.step, Decoder.finish_of_complete hres]
          exact (hpass.handOver (Decoder.stage_of_result_pass hres)).1

theorem Tidy.run (h : t.Tidy o) (ops : List Op) : (t.run ops).Tidy o := by
  induction ops generalizing t with
  | nil => exact h
  | cons op ops ih => exact ih (h.step op)

theorem tidy_new {token : String} {settings : Settings}
    (hnew : Decoder.new token settings = .ok d) (s : Storage) :
    Tidy (settings.origin s) ⟨some d, s, []⟩ := by
  rw [Decoder.eq_of_new hnew]
  refine ⟨⟨0, rfl, rfl, fun l hl => .inl hl, nofun⟩, ?_, ?_⟩
  · rintro d' ⟨⟩
    rfl
  · rintro d' ⟨⟩ hfailed
    cases hfailed

end Session

/-! ## Storages without new files -/

/-- No name that was taken since has a file, and no file on the disk is new. -/
structure Storage.Cleared (o : Origin) (s : Storage) : Prop where
  unnamed : ∀ k, o.names.issued + k < s.names.issued → s.disk.read? (o.path k) = none
  noneNew : ∀ l, s.disk.fileAt? l ≠ none → o.disk.fileAt? l ≠ none

theorem Holdings.Accounted.cleared {o : Origin} {x : Holdings} {asked : Nat}
    (h : x.Accounted o [] asked) (hpaths : x.paths = []) : x.storage.Cleared o := by
  have hunnamed (k : Nat) (hk : k < asked) : x.storage.disk.read? (o.path k) = none := by
    by_contra hread
    have howned := h.owned k hk hread
    rw [hpaths] at howned
    cases howned
  refine ⟨fun k hk => hunnamed k ?_, fun l hl => ?_⟩
  · rw [h.names] at hk
    exact Nat.lt_of_add_lt_add_left hk
  · rcases h.named l hl with hbefore | ⟨k, hk, hplace⟩
    · exact hbefore
    · have hread := Disk.read?_ne_none_iff.mpr
        ⟨l, (Disk.place_eq_ok_congr h.folders).mpr hplace, hl⟩
      exact absurd (hunnamed k hk) hread

/-- A session that has no files and has handed over none leaves none. -/
theorem Session.Tidy.cleared {o : Origin} {t : Session} (h : t.Tidy o) (hhanded : t.handed = [])
    (hpaths : t.holdings.paths = []) : t.storage.Cleared o := by
  obtain ⟨asked, hfiles⟩ := h.files
  rw [handedFiles, hhanded] at hfiles
  exact t.storage_holdings ▸ hfiles.cleared hpaths

theorem Stage.eq_failed {stage : Stage} (h : stage.hasFailed = true) :
    ∃ phase, stage = .failed phase := by
  cases stage with
  | failed phase => exact ⟨phase, rfl⟩
  | _ => cases h

/-- A decoder that has failed leaves no files, if no form was handed over. -/
theorem Session.Tidy.cleared_of_failed {o : Origin} {d : Decoder} {s : Storage}
    (h : Tidy o ⟨some d, s, []⟩) (hfailed : d.stage.hasFailed = true) : s.Cleared o := by
  refine h.cleared rfl ?_
  obtain ⟨phase, hstage⟩ := Stage.eq_failed hfailed
  simp only [holdings, Decoder.holdings, Holdings.paths, hstage, h.failed d rfl hfailed]
  rfl

/-! ## Decoders that have failed -/

/-- A decoder that has failed for good. It has nothing, and it leaves whatever
it is called on as it was. -/
structure Decoder.Final (d : Decoder) : Prop where
  form : d.form = .empty
  field : d.stage.field? = none
  openFile : d.stage.openFile? = none
  value : d.stage.value = []
  process : ∀ s buffer, d.process s buffer = ⟨.error (.protocol .alreadyFailed), d, s, buffer⟩
  finish : ∀ s buffer, d.finish s buffer = ⟨.error (.protocol .alreadyFailed), d, s, buffer⟩
  intoForm : ∀ s, ∃ e, (d.intoForm s).1 = .error e

theorem Decoder.final_of_hasFailed {d : Decoder} (hfailed : d.stage.hasFailed = true)
    (hform : d.form = .empty) : d.Final := by
  have hpass (s : Storage) (buffer : InputBuffer) (atEnd : Bool) :
      d.pass s buffer atEnd = ⟨.error (.protocol .alreadyFailed), d, s, buffer⟩ := by
    rw [pass, if_pos hfailed]
  obtain ⟨phase, hstage⟩ := Stage.eq_failed hfailed
  constructor
  · exact hform
  · rw [hstage]
    rfl
  · rw [hstage]
    rfl
  · rw [hstage]
    rfl
  · exact fun s buffer => hpass s buffer false
  · intro s buffer
    rw [Decoder.finish, hpass s buffer true]
  · intro s
    rw [intoForm, hstage]
    exact ⟨_, rfl⟩

namespace Session

/-- Whether an operation reads a buffer. -/
def Op.Reads : Op → Prop
  | process _ | finish _ => True
  | intoForm | drop => False

variable {o : Origin} {t : Session} {d : Decoder} {s : Storage}

theorem Tidy.final_of_givesUp (h : t.Tidy o) {op : Op} (hreads : op.Reads)
    (hfails : t.GivesUp op) : ∃ d, (t.step op).decoder? = some d ∧ d.Final := by
  obtain ⟨decoder?, s, handed⟩ := t
  obtain ⟨d, hd, hfails⟩ := hfails
  obtain rfl : decoder? = some d := hd
  cases op with
  | process buffer =>
    obtain ⟨e, he⟩ := hfails
    obtain ⟨hfailed, hform⟩ := Decoder.gaveUp_pass (h.failed d rfl) he
    exact ⟨_, rfl, Decoder.final_of_hasFailed hfailed hform⟩
  | finish buffer =>
    obtain ⟨e, he⟩ := hfails
    obtain ⟨hfailed, hform⟩ := Decoder.gaveUp_finish (h.failed d rfl) he
    exact ⟨_, rfl, Decoder.final_of_hasFailed hfailed hform⟩
  | intoForm => cases hreads
  | drop => cases hreads

theorem step_of_final (hd : t.decoder? = some d) (hfinal : d.Final) {op : Op}
    (hreads : op.Reads) : t.step op = t := by
  obtain ⟨decoder?, s, handed⟩ := t
  obtain rfl : decoder? = some d := hd
  cases op with
  | process buffer => simp only [step, hfinal.process]
  | finish buffer =>
    simp only [step, hfinal.finish]
    exact congrArg _ (List.append_nil handed)
  | intoForm => cases hreads
  | drop => cases hreads

theorem run_of_final (hd : t.decoder? = some d) (hfinal : d.Final) {ops : List Op}
    (hreads : ∀ op ∈ ops, op.Reads) : t.run ops = t := by
  induction ops with
  | nil => rfl
  | cons op ops ih =>
    rw [List.forall_mem_cons] at hreads
    rw [show t.run (op :: ops) = (t.step op).run ops from rfl, step_of_final hd hfinal hreads.1]
    exact ih hreads.2

/-- A decoder that is final has no files, so what lies under a name that was
taken was handed over. -/
theorem Tidy.read?_of_final (h : t.Tidy o) (hd : t.decoder? = some d) (hfinal : d.Final) :
    ∃ asked, t.holdings.Accounted o (t.handedFiles.map StoredFile.path) asked ∧
      ∀ k < asked, t.storage.disk.read? (o.path k) ≠ none →
        o.path k ∈ t.handedFiles.map StoredFile.path := by
  obtain ⟨asked, hfiles⟩ := h.files
  refine ⟨asked, hfiles, fun k hk hread => ?_⟩
  obtain ⟨decoder?, s, handed⟩ := t
  obtain rfl : decoder? = some d := hd
  have hnone : (holdings ⟨some d, s, handed⟩).paths = [] := by
    simp only [holdings, Decoder.holdings, Holdings.paths, hfinal.openFile, hfinal.form]
    rfl
  have howned := hfiles.owned k hk hread
  rwa [hnone, List.append_nil] at howned

/-- Failure is final. Once a call has been answered with an error, the decoder
has nothing and answers no call any more; no name that it took has a file, and
no new file is on the disk, but for what was handed over before. -/
theorem failed_for_good {token : String} {settings : Settings}
    (hnew : Decoder.new token settings = .ok d) (s : Storage) (ops : List Op) {op : Op}
    (hreads : op.Reads) (hfails : (run ⟨some d, s, []⟩ ops).GivesUp op) :
    let o := settings.origin s
    let t := (run ⟨some d, s, []⟩ ops).step op
    (∃ d', t.decoder? = some d' ∧ d'.Final) ∧
      Violation.alreadyFailed.text = "Upload session already failed" ∧
      (∀ k, o.names.issued + k < t.storage.names.issued →
        o.path k ∉ t.handedFiles.map StoredFile.path → t.storage.disk.read? (o.path k) = none) ∧
      (∀ l, t.storage.disk.fileAt? l ≠ none → s.disk.fileAt? l ≠ none ∨
        ∃ f ∈ t.handedFiles, t.storage.disk.place f.path = .ok l) ∧
      ∀ later, (∀ op ∈ later, op.Reads) → t.run later = t := by
  intro o t
  have htidy : t.Tidy o := ((tidy_new hnew s).run ops).step op
  obtain ⟨d', hd', hfinal⟩ := ((tidy_new hnew s).run ops).final_of_givesUp hreads hfails
  obtain ⟨asked, hfiles, hhanded⟩ := htidy.read?_of_final hd' hfinal
  have hstorage := t.storage_holdings
  have hnames := hfiles.names
  have hnamed := hfiles.named
  have hfolders := hfiles.folders
  rw [hstorage] at hnames hnamed hfolders
  refine ⟨⟨d', hd', hfinal⟩, rfl, fun k hk hnot => ?_, fun l hl => ?_,
    fun later hlater => run_of_final hd' hfinal hlater⟩
  · by_contra hread
    rw [hnames] at hk
    exact hnot (hhanded k (Nat.lt_of_add_lt_add_left hk) hread)
  · refine (hnamed l hl).imp_right fun ⟨k, hk, hplace⟩ => ?_
    have hplace' := (Disk.place_eq_ok_congr hfolders).mpr hplace
    obtain ⟨f, hf, hpath⟩ := List.mem_map.mp
      (hhanded k hk (Disk.read?_ne_none_iff.mpr ⟨l, hplace', hl⟩))
    exact ⟨f, hf, hpath ▸ hplace'⟩

/-- What comes of the first bytes of a session. -/
theorem run_process (hd : d.stage.hasFailed = false) {w : Bytes} {progress : Progress}
    (h : (d.run s w false).result = .ok progress) :
    run ⟨some d, s, []⟩ [.process (InputBuffer.empty.push w)] =
      ⟨some (d.run s w false).decoder, (d.run s w false).storage, []⟩ := by
  have hunread : (InputBuffer.empty.push w).unread = w := by simp
  rw [← hunread] at h
  obtain ⟨-, hdecoder, hstorage, -⟩ := Decoder.pass_of_ok hd h
  rw [hunread] at hdecoder hstorage
  simp only [run, List.foldl_cons, List.foldl_nil, step, Decoder.process, hdecoder, hstorage]

/-- A body that ends in its second file, when the first was published and five bytes of the
second are on the disk. Another body, a whole one, comes too late. -/
theorem failed_for_good_of_unclosed :
    let s : Storage := ⟨.ofFolders [["tmp"]], ⟨1, 0, 0⟩⟩
    let body := Text.toBytes <|
      "--B\r\nContent-Disposition: x; name=a; filename=f\r\n\r\nx\r\n" ++
      "--B\r\nContent-Disposition: x; name=b; filename=g\r\n\r\nsome data"
    let late := InputBuffer.empty.push <| Text.toBytes
      "--B\r\nContent-Disposition: x; name=c\r\n\r\ny\r\n--B--\r\n"
    let o := Settings.standard.origin s
    ∃ d, Decoder.new "B" .standard = .ok d ∧ Op.Reads (.finish .empty) ∧
      let before := run ⟨some d, s, []⟩ [.process (InputBuffer.empty.push body)]
      let after := before.step (.finish .empty)
      (before.formFiles.map StoredFile.path = [o.path 0] ∧ before.openPaths = [o.path 1] ∧
        before.storage.disk.read? (o.path 0) = some (Text.toBytes "x") ∧
        before.storage.disk.read? (o.path 1) = some (Text.toBytes "some ")) ∧
      before.GivesUp (.finish .empty) ∧
      (∃ d', after.decoder? = some d' ∧ d'.Final) ∧
      (∀ l, after.storage.disk.fileAt? l = none) ∧
      after.run [.process late, .finish late] = after := by
  intro s body late o
  have hnew := Decoder.new_of_ne .standard (show "B" ≠ "" by decide)
  have hreads : Op.Reads (.finish .empty) := trivial
  refine ⟨_, hnew, hreads, ?_⟩
  generalize hd : Decoder.mk _ _ _ _ = d at hnew
  obtain ⟨hmore, hforms, hopen, hfirst, hsecond, hwaits⟩ :=
    Decoder.run_satisfies (d := d) (s := s) (w := body) (P := fun r =>
      r.result = .ok .needsMore ∧
      r.decoder.form.files.values.map StoredFile.path = [o.path 0] ∧
      (r.decoder.stage.openFile?.map (·.target.path)).toList = [o.path 1] ∧
      r.storage.disk.read? (o.path 0) = some (Text.toBytes "x") ∧
      r.storage.disk.read? (o.path 1) = some (Text.toBytes "some ") ∧
      (Decoder.runWithin true 1 r.decoder r.storage []).map Run.result = some (.ok .needsMore))
      false 20 (by rw [← hd]; decide +kernel)
  have halive := Decoder.hasFailed_of_next_wait (Decoder.next_new (s := s) hnew)
  intro before after
  have hbefore : before = ⟨some (d.run s body false).decoder, (d.run s body false).storage, []⟩ :=
    run_process halive hmore
  have hopened := Decoder.hasFailed_of_next_wait (Decoder.next_of_run_needsMore hmore)
  generalize d.run s body false = r at *
  have hends : (r.decoder.finish r.storage .empty).result = .error (.protocol .unexpectedEnd) := by
    obtain ⟨rest, hrest, hresult⟩ := Option.map_eq_some_iff.mp hwaits
    have hpass : (r.decoder.pass r.storage .empty true).result = .ok .needsMore := by
      rw [Decoder.result_pass hopened, InputBuffer.unread_empty, Decoder.run_of_runWithin hrest,
        hresult]
    rw [Decoder.finish_of_needsMore hpass]
  have hfails : before.GivesUp (.finish .empty) := hbefore ▸ ⟨_, rfl, _, hends⟩
  have hhanded : after.handedFiles = [] := by
    simp only [after, hbefore, step, hends]
    rfl
  obtain ⟨hfinal, -, -, hnone, hlater⟩ := failed_for_good hnew s _ hreads hfails
  refine ⟨hbefore ▸ ⟨hforms, hopen, hfirst, hsecond⟩, hfails, hfinal, fun l => ?_, hlater _ ?_⟩
  · by_contra hl
    rcases hnone l hl with hold | ⟨f, hf, -⟩
    · exact hold rfl
    · exact absurd (hhanded ▸ hf : f ∈ []) List.not_mem_nil
  · simp [Op.Reads]

end Session

end Multipart

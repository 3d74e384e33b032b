import Multipart.Proofs.Moments

/-!
# How large temp files become

No file under a name that a session has taken is ever larger than the settings
allow: not the open one, and none that was published, replaced or handed over.
It does not matter what lay on the disk before, since files are counted by what
the session wrote to them: a file is emptied when it is opened, and takes no
byte beyond its ceiling (`Holdings.invariant_bounded`).
-/

namespace Multipart

namespace Disk

variable {d d' d'' : Disk}

/-- Names were taken away and nothing else. -/
structure Prunes (d d' : Disk) : Prop where
  folders : d'.folders = d.folders
  entries : ∀ l file, d'.entries.get? l = some file → d.entries.get? l = some file
  contents : d'.contentsOf = d.contentsOf

theorem Prunes.refl (d : Disk) : d.Prunes d := ⟨rfl, fun _ _ h => h, rfl⟩

theorem Prunes.trans (h : d.Prunes d') (h' : d'.Prunes d'') : d.Prunes d'' :=
  ⟨h'.folders.trans h.folders, fun l file hl => h.entries l file (h'.entries l file hl),
    h'.contents.trans h.contents⟩

theorem prunes_remove (d : Disk) (path : FilePath) : d.Prunes (d.remove path) := by
  cases hplace : d.place path with
  | error cause =>
    rw [remove, hplace]
    exact .refl d
  | ok l =>
    refine ⟨folders_remove d path, fun x file hx => ?_, by rw [remove, hplace]; rfl⟩
    rw [get?_remove hplace] at hx
    split at hx
    · cases hx
    · exact hx

theorem prunes_removeAll (d : Disk) (paths : List FilePath) :
    d.Prunes (paths.foldl Disk.remove d) := by
  induction paths generalizing d with
  | nil => exact .refl d
  | cons p paths ih => exact (prunes_remove d p).trans (ih (d.remove p))

end Disk

namespace Holdings

/-- With so many names given out since the start, no file under one of them is
larger than the ceiling, and the open file has as many bytes as it counts. -/
structure Bounded (o : Origin) (asked : Nat) (x : Holdings) : Prop where
  names : x.storage.names = o.names.ahead asked
  folders : x.storage.disk.folders = o.disk.folders
  small : ∀ k < asked, ∀ l file, o.place k = .ok l → x.storage.disk.entries.get? l = some file →
    (x.storage.disk.contentsOf file).length ≤ o.limit
  opened : ∀ part, x.part? = some part → part.target.limit = o.limit ∧
    ∃ file, part.target.handle = some file ∧ file < x.storage.disk.reversed.length ∧
      (x.storage.disk.contentsOf file).length = part.target.size

variable {o : Origin} {x y : Holdings} {asked : Nat} {form : Form} {s s' : Storage}

/-- Taking names away makes no file larger. -/
theorem Bounded.of_prunes (h : x.Bounded o asked) (hnames : y.storage.names = x.storage.names)
    (hprunes : x.storage.disk.Prunes y.storage.disk) (hnone : y.part? = none) :
    y.Bounded o asked where
  names := hnames.trans h.names
  folders := hprunes.folders.trans h.folders
  small k hk l file hl hfile := by
    rw [hprunes.contents]
    exact h.small k hk l file hl (hprunes.entries l file hfile)
  opened part hpart := by
    rw [hnone] at hpart
    cases hpart

theorem Bounded.refuse {limit : Nat} {e : UploadError} (h : Bounded o asked ⟨none, form, s⟩)
    (hcreate : TempFile.create o.folder limit s = (.error e, s')) :
    Bounded o (asked + 1) ⟨none, form, s'⟩ := by
  have hpath : FilePath.inFolder o.folder s.names.upcoming = o.path asked := by
    rw [h.names]
    rfl
  rw [TempFile.create, hpath] at hcreate
  split at hcreate
  · cases hcreate
  · next cause hdisk =>
    cases hcreate
    refine ⟨congrArg NameSupply.issue h.names, h.folders, fun k hk l file hl hfile => ?_, ?_⟩
    · rcases Nat.lt_succ_iff_lt_or_eq.mp hk with hlt | rfl
      · exact h.small k hlt l file hl hfile
      · -- what cannot be opened has no place
        have hplace : s.disk.place (o.path k) = .ok l := (Disk.place_eq_ok_congr h.folders).mpr hl
        simp only [Disk.create, hplace, bind, Except.bind] at hdisk
        split at hdisk <;> cases hdisk
    · rintro part ⟨⟩

theorem Bounded.create {t : TempFile} (h : Bounded o asked ⟨none, form, s⟩)
    (hcreate : TempFile.create o.folder o.limit s = (.ok t, s')) (clientName : String) :
    Bounded o (asked + 1) ⟨some ⟨t, clientName, none⟩, form, s'⟩ := by
  have hpath : FilePath.inFolder o.folder s.names.upcoming = o.path asked := by
    rw [h.names]
    rfl
  rw [TempFile.create, hpath] at hcreate
  split at hcreate
  · next file disk hdisk =>
    cases hcreate
    obtain ⟨l₀, hplace, hentry, hempty, hentries, hcontents⟩ := Disk.create_spec hdisk
    refine ⟨congrArg NameSupply.issue h.names, (Disk.folders_create hdisk).trans h.folders, ?_, ?_⟩
    · intro k hk l other hl hother
      by_cases hsame : other = file
      · rw [hsame, hempty]
        exact Nat.zero_le _
      · have hne : l ≠ l₀ := by
          rintro rfl
          exact hsame (Option.some.inj (hother.symm.trans hentry))
        have hlt : k < asked := by
          rcases Nat.lt_succ_iff_lt_or_eq.mp hk with hlt | rfl
          · exact hlt
          · exact absurd (Except.ok.inj (hl.symm.trans
              ((Disk.place_eq_ok_congr h.folders).mp hplace))) hne
        rw [hcontents other hsame]
        exact h.small k hlt l other hl ((hentries l hne).symm.trans hother)
    · rintro part ⟨⟩
      exact ⟨rfl, file, rfl, disk.entries_lt _ (OrderedMap.mem_of_get? hentry), by rw [hempty]; rfl⟩
  · cases hcreate

theorem Bounded.append {part : FilePart} {bytes : Bytes} {t : TempFile}
    (h : Bounded o asked ⟨some part, form, s⟩)
    (happend : part.target.append bytes s = .ok (t, s')) :
    Bounded o asked ⟨some { part with target := t }, form, s'⟩ := by
  obtain ⟨hlimit, file, hhandle, hlt, hsize⟩ := h.opened part rfl
  rw [TempFile.append, hhandle] at happend
  split at happend
  · cases happend
  · next hfits =>
    split at happend
    · cases happend
      exact h
    · cases happend
      have hgrown : ((s.disk.append file bytes).contentsOf file).length =
          part.target.size + bytes.length := by
        rw [Disk.contentsOf_append _ _ _ hlt, if_pos rfl, List.length_append, hsize]
      refine ⟨h.names, h.folders, fun k hk l other hl hother => ?_, ?_⟩
      · by_cases hsame : other = file
        · rw [hsame]
          exact hgrown.trans_le (hlimit ▸ Nat.le_of_not_lt hfits)
        · have hold := h.small k hk l other hl hother
          rwa [Storage.disk_onDisk, Disk.contentsOf_append _ _ _ hlt, if_neg hsame]
      · rintro part' ⟨⟩
        exact ⟨hlimit, file, rfl, by simpa [Disk.append] using hlt, hgrown⟩

/-- Every operation on files keeps them within the ceiling. -/
theorem invariant_bounded {settings : Settings} (hfolder : settings.uploadDir = o.folder)
    (hlimit : settings.maxFileSize = o.limit) :
    Invariant settings fun x => ∃ asked, x.Bounded o asked where
  drop := by
    rintro (_ | part) f s ⟨asked, h⟩
    · exact ⟨asked, h⟩
    · exact ⟨asked, h.of_prunes rfl (Disk.prunes_remove ..) rfl⟩
  refuse := fun ⟨asked, h⟩ hcreate => ⟨asked + 1, h.refuse (hfolder ▸ hcreate)⟩
  create := fun ⟨asked, h⟩ hcreate clientName =>
    ⟨asked + 1, h.create (hfolder ▸ hlimit ▸ hcreate) clientName⟩
  retype := by
    rintro p f s ⟨asked, h⟩ contentType
    exact ⟨asked, h.names, h.folders, h.small, by rintro _ ⟨⟩; exact h.opened p rfl⟩
  append := fun ⟨asked, h⟩ happend => ⟨asked, h.append happend⟩
  publishFile := by
    rintro p f s ⟨asked, h⟩ field
    refine ⟨asked, h.of_prunes rfl ?_ rfl⟩
    show s.disk.Prunes (f.publishFile field p.stored s.disk).2
    rw [Form.publishFile]
    dsimp only
    split
    · exact Disk.prunes_remove ..
    · exact .refl s.disk
  publishField := fun ⟨asked, h⟩ _ _ => ⟨asked, h.names, h.folders, h.small, h.opened⟩
  removeFiles := by
    rintro f s ⟨asked, h⟩
    refine ⟨asked, h.of_prunes rfl ?_ rfl⟩
    show s.disk.Prunes (f.removeFiles s.disk)
    rw [Form.removeFiles_eq]
    exact Disk.prunes_removeAll ..

end Holdings

namespace Session

variable {token : String} {settings : Settings} {d : Decoder} {s : Storage} {t : Session}
  {x : Excerpt}

theorem Visits.bounded (hnew : Decoder.new token settings = .ok d)
    (h : Visits ⟨some d, s, []⟩ t x) :
    (∀ d, t.decoder? = some d → d.settings = settings) ∧
      ∃ asked, t.holdings.Bounded (settings.origin s) asked := by
  refine h.holdings (P := fun _ x => ∃ asked, x.Bounded (settings.origin s) asked)
    (fun _ => Holdings.invariant_bounded rfl rfl) ?_ ?_ ?_
  · rintro handed part? form s' ⟨asked, hgiven⟩
    exact ⟨asked, hgiven.names, hgiven.folders, hgiven.small, hgiven.opened⟩
  · rintro _ ⟨⟩
    rw [Decoder.eq_of_new hnew]
  · rw [Decoder.eq_of_new hnew]
    exact ⟨0, rfl, rfl, nofun, nofun⟩

/-- Also when the decoder is gone, at last, its files are within the ceiling. -/
theorem bounded_run (hnew : Decoder.new token settings = .ok d) (s : Storage) (ops : List Op) :
    ∃ asked, (run ⟨some d, s, []⟩ ops).holdings.Bounded (settings.origin s) asked := by
  induction ops using List.reverseRecOn with
  | nil => exact (Visits.bounded hnew .start).2
  | append_singleton ops op ih =>
    have hseen := visits_run ⟨some d, s, []⟩ ops
    rw [show run ⟨some d, s, []⟩ (ops ++ [op]) = (run ⟨some d, s, []⟩ ops).step op from
      List.foldl_concat ..]
    generalize run ⟨some d, s, []⟩ ops = t at ih hseen
    cases hafter : (t.step op).decoder? with
    | some d' =>
      obtain ⟨x, hx⟩ := hseen.step op d' hafter
      exact (hx.bounded hnew).2
    | none =>
      obtain ⟨_ | d₁, s₁, handed⟩ := t
      · exact ih
      · obtain ⟨x, hx⟩ := hseen d₁ rfl
        obtain rfl := (hx.bounded hnew).1 d₁ rfl
        have hreleased := Invariant.release (Holdings.invariant_bounded rfl rfl) ih
        cases op with
        | process buffer => cases hafter
        | drop => exact hreleased
        | finish buffer => cases hafter
        | intoForm =>
          by_cases hstage : d₁.stage = .ended
          · obtain ⟨asked, hb⟩ := ih
            simp only [Session.step, Decoder.intoForm, hstage]
            exact ⟨asked, hb.of_prunes rfl (.refl _) rfl⟩
          · simp only [Session.step, Decoder.intoForm_of_ne hstage]
            exact hreleased

/-- No file under a name that the session has taken is larger than the settings
allow. -/
theorem length_le_of_bounded
    (hbounded : ∃ asked, t.holdings.Bounded (settings.origin s) asked) {k : Nat}
    (hk : s.names.issued + k < t.storage.names.issued) {data : Bytes}
    (hread : t.storage.disk.read? ((settings.origin s).path k) = some data) :
    data.length ≤ settings.maxFileSize := by
  obtain ⟨asked, hnames, hfolders, hsmall, -⟩ := hbounded
  rw [storage_holdings] at hnames hfolders hsmall
  rw [hnames] at hk
  obtain ⟨l, hplace, -⟩ := Disk.read?_ne_none_iff.mp (by rw [hread]; exact nofun)
  rw [Disk.read?_eq, hplace] at hread
  obtain ⟨file, hfile, rfl⟩ := Option.map_eq_some_iff.mp hread
  exact hsmall k (Nat.lt_of_add_lt_add_left hk) l file ((Disk.place_eq_ok_congr hfolders).mp hplace)
    hfile

end Session

end Multipart

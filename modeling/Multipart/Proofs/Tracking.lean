import Multipart.Proofs.Ledger

/-!
# Files, whatever lay there before

Whether temp files can be created and filled depends on the folders of a
disk and not on its files. `Ledger.Tracks` is what stays of a ledger if
something may lie where the files will: the names still have their
numbers, and the file that is being filled its size. If nothing lies there
(`Origin.Fresh`), the ledger covers the files as well, so both are followed
in one go.
-/

namespace Multipart

/-- The ledger follows a decoder that fills `target?` and has published `files`,
and covers its files if their names were fresh. -/
structure Ledger.Tracks (o : Origin) (target? : Option TempFile)
    (files : OrderedMap String StoredFile) (s : Storage) (c : Ledger) : Prop where
  names : s.names = o.names.ahead c.asked
  folders : s.disk.folders = o.disk.folders
  closed : target? = none → c.opened = none
  filled : ∀ t, target? = some t → ∃ k data, c.opened = some k ∧ c.held k = some data ∧
    t.path = o.path k ∧ t.handle.isSome = true ∧ t.size = data.length ∧ t.limit = o.limit
  covers : o.Fresh → c.Covers o o.disk.fileAt? target? files s

namespace Ledger.Tracks

variable {o : Origin} {target? : Option TempFile} {t : TempFile}
  {files : OrderedMap String StoredFile} {s : Storage} {c : Ledger} {l : Location}

theorem start (o : Origin) : Ledger.start.Tracks o none ∅ ⟨o.disk, o.names⟩ where
  names := rfl
  folders := rfl
  closed _ := rfl
  filled := nofun
  covers := .start

theorem place_path (h : c.Tracks o target? files s) {k : Nat} (hk : o.place k = .ok l) :
    s.disk.place (o.path k) = .ok l := by
  obtain ⟨folder, -, hfolder, -⟩ := Disk.place_eq_ok_iff.mp hk
  rw [Disk.place_congr h.folders hfolder]
  exact hk

theorem create (h : c.Tracks o none files s) (hplace : o.place c.asked = .ok l) :
    ∃ t s', TempFile.create o.folder o.limit s = (.ok t, s') ∧
      c.create.Tracks o (some t) files s' := by
  have hpath : FilePath.inFolder o.folder s.names.upcoming = o.path c.asked := by
    rw [h.names]
    rfl
  have hcreate : ∃ file disk, s.disk.create (o.path c.asked) = .ok (file, disk) := by
    rw [Disk.create, h.place_path hplace]
    simp only [bind, Except.bind]
    split <;> exact ⟨_, _, rfl⟩
  obtain ⟨file, disk, hdisk⟩ := hcreate
  have hnew : TempFile.create o.folder o.limit s =
      (.ok ⟨o.path c.asked, some file, 0, o.limit⟩, ⟨disk, s.names.issue⟩) := by
    rw [TempFile.create, hpath]
    simp only [hdisk]
  refine ⟨_, _, hnew, ?_, ?_, ?_, ?_, fun hfresh => ?_⟩
  · rw [h.names]
    rfl
  · exact (Disk.folders_create hdisk).trans h.folders
  · rintro ⟨⟩
  · rintro t' ⟨⟩
    exact ⟨c.asked, [], rfl, Function.update_self .., rfl, rfl, rfl, rfl⟩
  · obtain ⟨t, s', hcovered, -, -, -, hc⟩ := (h.covers hfresh).create_of_ok hplace
    rw [hnew] at hcovered
    cases hcovered
    exact hc

theorem append (h : c.Tracks o (some t) files s) {bytes : Bytes}
    (hfits : t.size + bytes.length ≤ o.limit) :
    ∃ t' s', t.append bytes s = .ok (t', s') ∧ t'.path = t.path ∧ t'.size = t.size + bytes.length ∧
      (c.write bytes).Tracks o (some t') files s' := by
  obtain ⟨k, data, hopen, hdata, hpath, hhandle, hsize, hlimit⟩ := h.filled t rfl
  obtain ⟨file, hfile⟩ := Option.isSome_iff_exists.mp hhandle
  have hlarge : ¬t.size + bytes.length > t.limit := by
    rw [hlimit]
    omega
  have happend : ∃ t' s', t.append bytes s = .ok (t', s') ∧
      t' = { t with size := t.size + bytes.length } ∧
      s'.names = s.names ∧ s'.disk.folders = s.disk.folders := by
    rw [TempFile.append, if_neg hlarge]
    cases bytes with
    | nil => exact ⟨t, s, rfl, rfl, rfl, rfl⟩
    | cons b bytes =>
      exact ⟨_, s.onDisk (·.append file (b :: bytes)), by rw [hfile]; rfl, rfl, rfl, rfl⟩
  obtain ⟨t', s', happend, rfl, hnames, hfolders⟩ := happend
  have hwrite : c.write bytes =
      { c with held := Function.update c.held k (some (data ++ bytes)) } := by
    rw [write, hopen]
    simp only [hdata, Option.map_some]
  refine ⟨_, s', happend, rfl, rfl, ?_, hfolders.trans h.folders, ?_, ?_, fun hfresh => ?_⟩
  · rw [hnames, h.names, asked_write]
  · rintro ⟨⟩
  · rintro t' ⟨⟩
    rw [hwrite]
    refine ⟨k, data ++ bytes, hopen, Function.update_self .., hpath, hhandle, ?_, hlimit⟩
    rw [List.length_append, hsize]
  · obtain ⟨t', s'', hcovered, -, -, -, hc⟩ := (h.covers hfresh).append_of_ok hfits
    rw [happend] at hcovered
    cases hcovered
    exact hc

theorem dropOpenFile {part? : Option FilePart}
    (h : c.Tracks o (part?.map FilePart.target) files s) :
    c.drop.Tracks o none files (Decoder.dropOpenFile part? s) where
  names := by
    rw [asked_drop, ← h.names]
    cases part? <;> rfl
  folders := by
    rw [← h.folders]
    cases part? with
    | none => rfl
    | some part => exact Disk.folders_remove ..
  closed _ := opened_drop c
  filled := nofun
  covers hfresh := (h.covers hfresh).dropOpenFile

theorem publishFile {form : Form} (h : c.Tracks o (some t) form.files s) (field : String)
    {f : StoredFile} (hpath : f.path = t.path) (hsize : f.size = t.size) :
    (c.publish field).Tracks o none (form.withFile field f).files
      { s with disk := (form.publishFile field f s.disk).2 } where
  names := by rw [asked_publish, ← h.names]
  folders := by
    rw [← h.folders, Form.publishFile]
    cases form.files.get? field with
    | none => rfl
    | some replaced => exact Disk.folders_remove ..
  closed _ := opened_publish c field
  filled := nofun
  covers hfresh := (h.covers hfresh).publishFile field hpath hsize

end Ledger.Tracks

end Multipart

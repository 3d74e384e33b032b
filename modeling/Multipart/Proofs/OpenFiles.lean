import Multipart.Proofs.DiskView
import Multipart.Proofs.Feeding
import Multipart.Proofs.Grammar

/-!
# What is in an open file

A temp file that is being filled holds some bytes if its path leads to the
file that its handle is for, and these are the bytes of that file
(`TempFile.Holds`). That is so of no bytes when the file is created, whatever
lay under its path before, and of more bytes after each append, since writes
go by handle and nothing else is done while the file is open.

The open file of a decoder can be filled up to the ceiling of the settings
(`Decoder.Fillable`). So one write does what the ceiling of the part says and
nothing else: it succeeds exactly if the bytes held so far and the new ones stay
within it (`Content.write_of_fits`, `Content.write_of_exceeds`).
-/

namespace Multipart

/-- The file is open, lies on disk under its path, and has exactly these
bytes. -/
structure TempFile.Holds (t : TempFile) (data : Bytes) (s : Storage) : Prop where
  lies : ∃ file l, t.handle = some file ∧ s.disk.place t.path = .ok l ∧
    s.disk.entries.get? l = some file ∧ s.disk.contentsOf file = data
  size_eq : t.size = data.length

/-- The file is open, and may become as large as the settings say. -/
def Settings.Fillable (settings : Settings) (t : TempFile) : Prop :=
  t.handle.isSome = true ∧ t.limit = settings.maxFileSize

theorem Settings.lasting_fillable (settings : Settings) :
    settings.Lasting settings.Fillable where
  creates _ _ _ hcreate :=
    let ⟨hhandle, _, hlimit⟩ := TempFile.create_spec hcreate
    ⟨hhandle, hlimit⟩
  grows _ _ h := h

namespace Decoder

/-- The open file can be filled. -/
def Fillable (d : Decoder) : Prop := FilePart.All d.settings.Fillable d.stage.openFile?

theorem fillable_next {d d' : Decoder} {s s' : Storage} {w : Bytes} {atEnd : Bool} {n : Nat}
    (hopen : d.Fillable) (h : d.next s w atEnd = .advance n d' s') : d'.Fillable := by
  have hopen' := next_all d.settings.lasting_fillable hopen h
  rw [Fillable, (goesOn_of_advance h).settings]
  exact hopen'

theorem fillable_new {token : String} {settings : Settings} {d : Decoder}
    (hnew : new token settings = .ok d) : d.Fillable := by
  rw [eq_of_new hnew]
  exact FilePart.all_none

end Decoder

variable {settings : Settings} {s s' : Storage} {t t' : TempFile} {held data bytes : Bytes}

/-! ## Files -/

/-- A file that was opened for writing lies under its path and is empty; no other
name leads elsewhere, and no other file is changed. -/
theorem Disk.create_spec {d d' : Disk} {path : FilePath} {file : FileId}
    (h : d.create path = .ok (file, d')) :
    ∃ l, d.place path = .ok l ∧ d'.entries.get? l = some file ∧ d'.contentsOf file = [] ∧
      (∀ x, x ≠ l → d'.entries.get? x = d.entries.get? x) ∧
      ∀ other, other ≠ file → d'.contentsOf other = d.contentsOf other := by
  rw [create] at h
  cases hplace : d.place path with
  | error cause =>
    rw [hplace] at h
    cases h
  | ok l =>
    refine ⟨l, rfl, ?_⟩
    simp only [hplace, bind, Except.bind] at h
    split at h
    · next old hold =>
      cases h
      have hlt : file < d.reversed.length := d.entries_lt _ (OrderedMap.mem_of_get? hold)
      refine ⟨hold, by simp [contentsOf, truncate, hlt], fun _ _ => rfl, fun other hne => ?_⟩
      simp [contentsOf, truncate, Ne.symm hne]
    · cases h
      refine ⟨by rw [get?_addFile, if_pos rfl], by simp [contentsOf, addFile], ?_, ?_⟩
      · intro x hne
        rw [get?_addFile, if_neg hne]
      · intro other hne
        rcases Nat.lt_or_gt_of_ne hne with hlt | hgt
        · simp [contentsOf, addFile, List.getElem?_append_left hlt]
        · have hnone : d.reversed[other]? = none := List.getElem?_eq_none (Nat.le_of_lt hgt)
          have hnone' : (d.reversed ++ [[]])[other]? = none := List.getElem?_eq_none (by simpa)
          simp [contentsOf, addFile, hnone, hnone']

namespace TempFile

theorem holds_create {folder : String} {limit : Nat}
    (h : TempFile.create folder limit s = (.ok t, s')) : t.Holds [] s' := by
  rw [TempFile.create] at h
  split at h
  · next file disk hcreate =>
    cases h
    obtain ⟨l, hplace, hentry, hempty, -⟩ := Disk.create_spec hcreate
    have hplace' := (Disk.place_eq_ok_congr (Disk.folders_create hcreate)).mpr hplace
    exact ⟨⟨file, l, rfl, hplace', hentry, hempty⟩, rfl⟩
  · cases h

theorem Holds.read? (h : t.Holds data s) : s.disk.read? t.path = some data := by
  obtain ⟨⟨file, l, -, hplace, hentry, hdata⟩, -⟩ := h
  rw [Disk.read?_eq, hplace]
  simp only [Disk.fileAt?, hentry, Option.map_some, hdata]

/-- An append within the ceiling adds its bytes to those on disk. -/
theorem Holds.append_of_fits (h : t.Holds held s) (hfits : (held ++ bytes).length ≤ t.limit) :
    ∃ s', t.append bytes s = .ok ({ t with size := t.size + bytes.length }, s') ∧
      Holds { t with size := t.size + bytes.length } (held ++ bytes) s' := by
  obtain ⟨⟨file, l, hhandle, hplace, hentry, hdata⟩, hsize⟩ := h
  have hsize' : t.size + bytes.length = (held ++ bytes).length := by
    rw [List.length_append, hsize]
  rw [TempFile.append, hsize', if_neg (Nat.not_lt.mpr hfits), hhandle]
  split
  · next hempty =>
    obtain rfl := List.isEmpty_iff.mp hempty
    rw [List.append_nil, ← hsize, ← hhandle]
    exact ⟨s, rfl, ⟨file, l, hhandle, hplace, hentry, hdata⟩, hsize⟩
  · have hlt : file < s.disk.reversed.length := s.disk.entries_lt _ (OrderedMap.mem_of_get? hentry)
    refine ⟨_, rfl, ⟨file, l, rfl, (Disk.place_eq_ok_congr rfl).mp hplace, hentry, ?_⟩, rfl⟩
    rw [Storage.disk_onDisk, Disk.contentsOf_append _ _ _ hlt, if_pos rfl, hdata]

theorem Holds.append_of_exceeds (h : t.Holds held s)
    (hlong : t.limit < (held ++ bytes).length) :
    t.append bytes s = .error (.limitExceeded t.limit) := by
  rw [List.length_append, ← h.size_eq] at hlong
  rw [TempFile.append, if_pos hlong]

end TempFile

/-! ## Contents -/

namespace Content

/-- The content has taken exactly this data: its value is the data, or its temp
file holds it. -/
def Holds (data : Bytes) (s : Storage) : Content → Prop
  | .plain value => value = data
  | .file part => part.target.Holds data s

/-- The content after it has taken more data. -/
def grow (data : Bytes) : Content → Content
  | .plain value => .plain (value ++ data)
  | .file part =>
    .file { part with target := { part.target with size := part.target.size + data.length } }

variable {content content' : Content}

@[simp] theorem grow_nil (content : Content) : content.grow [] = content := by
  cases content <;> simp [grow]

@[simp] theorem isSome_file?_grow (content : Content) (data : Bytes) :
    (content.grow data).file?.isSome = content.file?.isSome := by
  cases content <;> rfl

/-- A write within the ceiling of the part succeeds. -/
theorem write_of_fits (hopen : FilePart.All settings.Fillable content.file?)
    (h : content.Holds held s)
    (hfits : (held ++ data).length ≤ settings.ceiling content.file?.isSome) :
    ∃ s', content.write settings.maxFieldSize data s = .ok (content.grow data, s') ∧
      (content.grow data).Holds (held ++ data) s' := by
  cases content with
  | plain value =>
    obtain rfl : value = held := h
    rw [List.length_append] at hfits
    exact ⟨s, if_neg (Nat.not_lt.mpr hfits), rfl⟩
  | file part =>
    have hlimit : part.target.limit = settings.maxFileSize := (hopen part rfl).2
    obtain ⟨s', happend, hafter⟩ := TempFile.Holds.append_of_fits h
      (hfits.trans_eq hlimit.symm)
    exact ⟨s', by rw [write, happend, grow], hafter⟩

/-- A write beyond the ceiling of the part is refused, with this ceiling. -/
theorem write_of_exceeds (hopen : FilePart.All settings.Fillable content.file?)
    (h : content.Holds held s)
    (hlong : settings.ceiling content.file?.isSome < (held ++ data).length) :
    content.write settings.maxFieldSize data s =
      .error (.limitExceeded (settings.ceiling content.file?.isSome)) := by
  cases content with
  | plain value =>
    obtain rfl : value = held := h
    rw [List.length_append] at hlong
    exact if_pos hlong
  | file part =>
    have hlimit : part.target.limit = settings.maxFileSize := (hopen part rfl).2
    rw [write, TempFile.Holds.append_of_exceeds h (hlimit.trans_lt hlong), hlimit]
    rfl

/-- A write that is not refused was within the ceiling. -/
theorem write_spec (hopen : FilePart.All settings.Fillable content.file?)
    (h : content.Holds held s)
    (hwrite : content.write settings.maxFieldSize data s = .ok (content', s')) :
    content' = content.grow data ∧ content'.Holds (held ++ data) s' ∧
      (held ++ data).length ≤ settings.ceiling content.file?.isSome := by
  rcases Nat.lt_or_ge (settings.ceiling content.file?.isSome) (held ++ data).length with
    hlong | hfits
  · rw [write_of_exceeds hopen h hlong] at hwrite
    cases hwrite
  · obtain ⟨s₁, hok, hafter⟩ := write_of_fits hopen h hfits
    obtain ⟨rfl, rfl⟩ := Prod.mk.inj (Except.ok.inj (hok.symm.trans hwrite))
    exact ⟨rfl, hafter, hfits⟩

theorem holds_ofHeading {heading : Heading}
    (h : FilePart.All (·.Holds [] s) (Heading.part? (some heading))) :
    (Content.ofHeading heading).Holds [] s := by
  obtain ⟨name, _ | part⟩ := heading
  · rfl
  · exact h part rfl

end Content

/-! ## Header lines -/

/-- Header lines leave an open file empty. -/
theorem Heading.holds_describe (attributes : List Attribute) (heading : Option Heading)
    (h : FilePart.All (·.Holds [] s) (part? heading)) :
    FilePart.All (·.Holds [] (describe settings attributes heading s).storage)
      (part? (describe settings attributes heading s).heading) := by
  fun_induction describe settings attributes heading s with
  | case1 => exact h
  | case2 _ _ _ _ _ ih => exact ih h
  | case3 _ _ heading _ _ ih =>
    refine ih fun part hpart => h part ?_
    cases heading with
    | none => cases hpart
    | some heading => exact hpart
  | case4 => exact h
  | case5 => exact h
  | case6 => exact FilePart.all_none
  | case7 _ _ _ _ _ target _ hcreate ih =>
    refine ih fun part hpart => ?_
    obtain rfl := Option.some.inj hpart
    exact TempFile.holds_create hcreate

theorem Heading.holds_read {line : List Char} {heading : Option Heading}
    (h : FilePart.All (·.Holds [] s) (part? heading)) :
    FilePart.All (·.Holds [] (read settings line heading s).storage)
      (part? (read settings line heading s).heading) := by
  rw [read]
  split
  · exact holds_describe _ _ FilePart.all_none
  · exact all_withContentType _ h
  · exact h

end Multipart

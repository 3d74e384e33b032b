import Multipart.Decoder.Run

/-!
# The open temp file

What holds of every temp file that was just created holds of the file of a
heading, whatever the header lines were (`Heading.all_read`): header lines
create files and rename parts, and leave the files alone. If it also stays
when a file grows (`Settings.Lasting`), it holds of the open file of a
decoder in every stage (`Decoder.next_all`).

So the file has its handle from the moment it is created, and a write never
meets a closed file (`Decoder.next_hasHandle`).
-/

namespace Multipart

/-- The file part of a heading, if it has one. -/
def Heading.part? (heading : Option Heading) : Option FilePart := heading.bind Heading.file

/-- If there is a file part, its temp file has a property. -/
def FilePart.All (p : TempFile → Prop) (part? : Option FilePart) : Prop :=
  ∀ part, part? = some part → p part.target

theorem FilePart.all_none {p : TempFile → Prop} : FilePart.All p none := fun _ h => nomatch h

/-- A property of every temp file that is created with these settings. -/
def Settings.Creates (settings : Settings) (p : TempFile → Prop) : Prop :=
  ∀ s t s', TempFile.create settings.uploadDir settings.maxFileSize s = (.ok t, s') → p t

/-- A property that temp files have from the start, and keep as they grow. -/
structure Settings.Lasting (settings : Settings) (p : TempFile → Prop) : Prop where
  creates : settings.Creates p
  grows : ∀ (t : TempFile) (size : Nat), p t → p { t with size }

namespace Heading

variable {settings : Settings} {p : TempFile → Prop}

theorem all_describe (hp : settings.Creates p) (attributes : List Attribute)
    (heading : Option Heading) (s : Storage) (h : FilePart.All p (part? heading)) :
    FilePart.All p (part? (describe settings attributes heading s).heading) := by
  fun_induction describe settings attributes heading s with
  | case1 => exact h
  | case2 a rest heading s _ ih => exact ih h
  | case3 a rest heading s _ ih =>
    refine ih fun part hpart => h part ?_
    cases heading with
    | none => cases hpart
    | some heading => exact hpart
  | case4 => exact h
  | case5 => exact h
  | case6 => exact h
  | case7 a rest s _ name target s' hcreate ih =>
    refine ih ?_
    intro part hpart
    obtain rfl := Option.some.inj hpart
    exact hp s target s' hcreate

theorem all_withContentType {heading : Option Heading} (value : String)
    (h : FilePart.All p (part? heading)) :
    FilePart.All p (part? (withContentType heading value)) := by
  intro part hpart
  obtain _ | ⟨name, _ | old⟩ := heading
  · cases hpart
  · cases hpart
  · obtain rfl := Option.some.inj hpart
    exact h old rfl

theorem target_withContentType (heading : Option Heading) (value : String) :
    (part? (withContentType heading value)).map FilePart.target =
      (part? heading).map FilePart.target := by
  obtain _ | ⟨name, _ | part⟩ := heading <;> rfl

theorem all_read (hp : settings.Creates p) {line : List Char} {heading : Option Heading}
    {s : Storage} (h : FilePart.All p (part? heading)) :
    FilePart.All p (part? (read settings line heading s).heading) := by
  rw [read]
  split
  · exact all_describe hp _ _ _ FilePart.all_none
  · exact all_withContentType _ h
  · exact h

end Heading

/-! ## What lasts -/

/-- A new temp file is open, empty, and has its ceiling. -/
theorem TempFile.create_spec {folder : String} {limit : Nat} {s s' : Storage} {t : TempFile}
    (h : TempFile.create folder limit s = (.ok t, s')) :
    t.handle.isSome = true ∧ t.size = 0 ∧ t.limit = limit := by
  rw [TempFile.create] at h
  split at h
  · cases h
    exact ⟨rfl, rfl, rfl⟩
  · cases h

theorem TempFile.create_error {folder : String} {limit : Nat} {s : Storage} {e : UploadError}
    (h : (create folder limit s).1 = .error e) :
    ∃ cause, s.disk.create (FilePath.inFolder folder s.names.upcoming) = .error cause ∧
      e = .resource (.openFile (FilePath.inFolder folder s.names.upcoming).text folder) cause := by
  rw [create] at h
  split at h
  · cases h
  · next cause hcreate =>
    cases h
    exact ⟨cause, hcreate, rfl⟩

/-- A temp file that takes bytes grows by them, and does not change
otherwise. -/
theorem TempFile.append_spec {t t' : TempFile} {bytes : Bytes} {s s' : Storage}
    (h : t.append bytes s = .ok (t', s')) : t' = { t with size := t.size + bytes.length } := by
  rw [TempFile.append] at h
  split at h
  · cases h
  · split at h
    · next hempty =>
      cases h
      rw [List.isEmpty_iff.mp hempty, List.length_nil, Nat.add_zero]
    · split at h <;> cases h
      rfl

theorem Content.all_write {settings : Settings} {p : TempFile → Prop} (hp : settings.Lasting p)
    {data : Bytes} {s s' : Storage} {content content' : Content}
    (h : FilePart.All p content.file?)
    (hwrite : content.write settings.maxFieldSize data s = .ok (content', s')) :
    FilePart.All p content'.file? := by
  cases content with
  | plain value =>
    rw [Content.write] at hwrite
    split at hwrite <;> cases hwrite
    exact FilePart.all_none
  | file part =>
    rw [Content.write] at hwrite
    split at hwrite
    · next target s'' happend =>
      cases hwrite
      intro part' hpart
      obtain rfl := Option.some.inj hpart
      rw [TempFile.append_spec happend]
      exact hp.grows _ _ (h part rfl)
    · cases hwrite

theorem Content.all_ofHeading {p : TempFile → Prop} {heading : Heading}
    (h : FilePart.All p (Heading.part? (some heading))) :
    FilePart.All p (Content.ofHeading heading).file? := by
  obtain ⟨name, _ | part⟩ := heading
  · exact FilePart.all_none
  · exact h

namespace Decoder

variable {p : TempFile → Prop} {d d' : Decoder} {s s' : Storage} {n : Nat}

theorem boundaryLine_all {line : Bytes} {used : Nat}
    (h : d.boundaryLine line used s = .advance n d' s') :
    FilePart.All p d'.stage.openFile? := by
  rw [boundaryLine] at h
  split at h <;> cases h <;> exact FilePart.all_none

theorem headerLine_all (hp : d.settings.Lasting p) {heading : Option Heading} {line : Bytes}
    {used : Nat} (hd : FilePart.All p (Heading.part? heading))
    (h : d.headerLine heading line used s = .advance n d' s') :
    FilePart.All p d'.stage.openFile? := by
  unfold headerLine at h
  split at h
  · split at h <;> cases h
    exact Content.all_ofHeading hd
  · dsimp only at h
    split at h <;> cases h
    exact Heading.all_read hp.creates hd

theorem partData_all (hp : d.settings.Lasting p) {name : String} {content : Content}
    {window : Bytes} (hd : FilePart.All p content.file?)
    (h : d.partData name content window s = .advance n d' s') :
    FilePart.All p d'.stage.openFile? := by
  rw [partData] at h
  split at h
  · split at h <;> cases h
    exact FilePart.all_none
  · dsimp only at h
    split at h
    · cases h
    · split at h
      · cases h
      · next hwrite =>
        cases h
        exact Content.all_write hp hd hwrite

/-- What holds of temp files as long as they are filled holds of the open one
after a step too. -/
theorem next_all (hp : d.settings.Lasting p) (hd : FilePart.All p d.stage.openFile?)
    {window : Bytes} {atEnd : Bool} (h : d.next s window atEnd = .advance n d' s') :
    FilePart.All p d'.stage.openFile? := by
  rw [next] at h
  split at h
  · split at h
    · cases h
    · cases h
    · exact boundaryLine_all h
  · next hstage =>
    rw [hstage] at hd
    split at h
    · cases h
    · cases h
    · exact headerLine_all hp hd h
  · next hstage =>
    rw [hstage] at hd
    exact partData_all hp hd h
  · cases h
  · cases h

end Decoder

/-! ## The handle -/

/-- The handle of a temp file, if there is one, is there. -/
def FilePart.HasHandle (part? : Option FilePart) : Prop :=
  FilePart.All (·.handle.isSome = true) part?

/-- The temp file that the decoder is filling is open. -/
def Decoder.HasHandle (d : Decoder) : Prop := FilePart.HasHandle d.stage.openFile?

theorem FilePart.hasHandle_none : FilePart.HasHandle none := FilePart.all_none

theorem Settings.lasting_handle (settings : Settings) :
    settings.Lasting (·.handle.isSome = true) where
  creates _ _ _ hcreate := (TempFile.create_spec hcreate).1
  grows _ _ h := h

/-- A step leaves the open temp file its handle. -/
theorem Decoder.next_hasHandle {d d' : Decoder} {s s' : Storage} {window : Bytes} {atEnd : Bool}
    {n : Nat} (hd : d.HasHandle) (h : d.next s window atEnd = .advance n d' s') : d'.HasHandle :=
  next_all d.settings.lasting_handle hd h

end Multipart

import Mathlib.Tactic.ByContra
import Multipart.Disk.Storage

/-!
# What lies on a disk

The view of a disk is the file at each location (`Disk.fileAt?`). Each
operation has one lemma that says what it does to it: creating a file,
writing to an open one, and taking a name away change the view at one
location and nowhere else. None of them changes the folders, so a folder
that a path has led to is found again (`Disk.resolve_congr`), and names in
it lead where they led before (`Disk.place_congr`).

Seen by paths, writing and taking away make no file readable that was not
(`Disk.Shrinks`), and creating makes only the one that is created.
-/

namespace Multipart

namespace Disk

/-- The bytes of the file at a location. -/
def fileAt? (d : Disk) (l : Location) : Option Bytes := (d.entries.get? l).map d.contentsOf

theorem read?_eq (d : Disk) (path : FilePath) :
    d.read? path = match d.place path with
      | .ok l => d.fileAt? l
      | .error _ => none := by
  rw [read?, lookup?]
  cases d.place path <;> rfl

/-! ## What the operations do -/

theorem get?_addFile (d : Disk) (l x : Location) :
    (d.addFile l).entries.get? x = if x = l then some d.reversed.length else d.entries.get? x :=
  OrderedMap.get?_insert ..

/-- A new file is empty, and lies at its location alone. -/
theorem fileAt?_addFile (d : Disk) (l x : Location) :
    (d.addFile l).fileAt? x = if x = l then some [] else d.fileAt? x := by
  rw [fileAt?, get?_addFile]
  split
  · simp [addFile, contentsOf]
  · rw [fileAt?]
    refine Option.map_congr ?_
    intro file hfile
    have hlt : file < d.reversed.length := d.entries_lt _ (OrderedMap.mem_of_get? hfile)
    simp [addFile, contentsOf, List.getElem?_append_left hlt]

/-- No other location has a new file's id. -/
theorem get?_addFile_eq_some_iff (d : Disk) (l x : Location) :
    (d.addFile l).entries.get? x = some d.reversed.length ↔ x = l := by
  rw [get?_addFile]
  split
  · next h => simp [h]
  · next h =>
    refine iff_of_false ?_ h
    intro hfile
    exact Nat.lt_irrefl _ (d.entries_lt _ (OrderedMap.mem_of_get? hfile))

/-- A write shows where the file lies, and nowhere else. -/
theorem fileAt?_append {d : Disk} {file : FileId} {l : Location}
    (h : ∀ x, d.entries.get? x = some file ↔ x = l) (bytes : Bytes) (x : Location) :
    (d.append file bytes).fileAt? x =
      if x = l then some (d.contentsOf file ++ bytes) else d.fileAt? x := by
  have hfile := (h l).mpr rfl
  have hlt : file < d.reversed.length := d.entries_lt _ (OrderedMap.mem_of_get? hfile)
  rw [fileAt?, show (d.append file bytes).entries = d.entries from rfl]
  split
  · next hx => rw [hx, hfile, Option.map_some, contentsOf_append d bytes file hlt, if_pos rfl]
  · next hx =>
    refine Option.map_congr ?_
    intro other hother
    rw [contentsOf_append d bytes other hlt, if_neg]
    rintro rfl
    exact hx ((h x).mp hother)

theorem get?_remove {d : Disk} {path : FilePath} {l : Location} (h : d.place path = .ok l)
    (x : Location) :
    (d.remove path).entries.get? x = if x = l then none else d.entries.get? x := by
  rw [remove, h]
  exact OrderedMap.get?_erase ..

/-- A name that was taken away leads to nothing; all others lead where they
led. -/
theorem fileAt?_remove {d : Disk} {path : FilePath} {l : Location} (h : d.place path = .ok l)
    (x : Location) :
    (d.remove path).fileAt? x = if x = l then none else d.fileAt? x := by
  have hcontents : (d.remove path).contentsOf = d.contentsOf := by
    rw [remove, h]
    rfl
  rw [fileAt?, hcontents, get?_remove h]
  split <;> rfl

/-! ## Where paths lead -/

theorem folders_append (d : Disk) (file : FileId) (bytes : Bytes) :
    (d.append file bytes).folders = d.folders := rfl

theorem folders_addFile (d : Disk) (l : Location) : (d.addFile l).folders = d.folders := rfl

theorem folders_remove (d : Disk) (path : FilePath) : (d.remove path).folders = d.folders := by
  rw [remove]
  split <;> rfl

theorem step_congr {d d' : Disk} (hf : d'.folders = d.folders) {l m : Location} {name : String}
    (h : d.step l name = .ok m) : d'.step l name = .ok m := by
  have hfolder : d'.isFolder = d.isFolder := by
    funext x
    rw [isFolder, isFolder, hf]
  rw [step] at h ⊢
  rw [hfolder]
  split at h
  · next hstay => rwa [if_pos hstay]
  · next hmove =>
    rw [if_neg hmove]
    split at h
    · next hup => rwa [if_pos hup]
    · next hdown =>
      rw [if_neg hdown]
      split at h
      · cases h
      · next hshort =>
        rw [if_neg hshort]
        split at h
        · next hfound => rwa [if_pos hfound]
        · split at h <;> cases h

theorem resolve_congr {d d' : Disk} (hf : d'.folders = d.folders) {folder : String} {l : Location}
    (h : d.resolve folder = .ok l) : d'.resolve folder = .ok l := by
  rw [resolve] at h ⊢
  generalize Location.start = base at h ⊢
  generalize names folder = components at h ⊢
  induction components generalizing base with
  | nil => exact h
  | cons name components ih =>
    rw [List.foldlM_cons] at h ⊢
    cases hstep : d.step base name with
    | error e =>
      rw [hstep] at h
      cases h
    | ok m =>
      rw [hstep] at h
      rw [step_congr hf hstep]
      exact ih m h

theorem place_eq_ok_iff {d : Disk} {path : FilePath} {l : Location} :
    d.place path = .ok l ↔
      ∃ folder, checkText path.text = .ok () ∧ d.resolve path.folder = .ok folder ∧
        isFileName path.name = true ∧ path.name.utf8ByteSize ≤ maxNameBytes ∧
        d.isFolder (folder.child path.name) = false ∧ l = folder.child path.name := by
  rw [place]
  cases hcheck : checkText path.text with
  | error e => simp [bind, Except.bind]
  | ok u =>
    cases hfolder : d.resolve path.folder with
    | error e => simp [bind, Except.bind]
    | ok folder =>
      simp only [bind, Except.bind]
      constructor
      · intro h
        split at h
        · cases h
        · split at h
          · cases h
          · split at h
            · cases h
            · cases h
              exact ⟨folder, trivial, rfl, by simp_all, by omega, by simp_all, rfl⟩
      · rintro ⟨folder', -, hsame, hname, hlong, hnone, rfl⟩
        obtain rfl := Except.ok.inj hsame
        simp [hname, hnone, Nat.not_lt.mpr hlong]

/-- In a folder that was found, names lead where they led, or fail as they
failed. -/
theorem place_congr {d d' : Disk} (hf : d'.folders = d.folders) {path : FilePath}
    {folder : Location} (h : d.resolve path.folder = .ok folder) :
    d'.place path = d.place path := by
  simp only [place, h, resolve_congr hf h, isFolder, hf]
  rfl

theorem folders_create {d d' : Disk} {path : FilePath} {file : FileId}
    (h : d.create path = .ok (file, d')) : d'.folders = d.folders := by
  rw [create] at h
  cases hplace : d.place path with
  | error cause =>
    rw [hplace] at h
    cases h
  | ok l =>
    simp only [hplace, bind, Except.bind] at h
    split at h <;> cases h <;> rfl

theorem place_eq_ok_congr {d d' : Disk} (hf : d'.folders = d.folders) {path : FilePath}
    {l : Location} : d'.place path = .ok l ↔ d.place path = .ok l := by
  constructor
  · intro h
    obtain ⟨folder, -, hfolder, -⟩ := place_eq_ok_iff.mp h
    rwa [place_congr hf.symm hfolder]
  · intro h
    obtain ⟨folder, -, hfolder, -⟩ := place_eq_ok_iff.mp h
    rwa [place_congr hf hfolder]

/-- A path reads what it read if the folders stay, and the file where it leads. -/
theorem read?_congr {d d' : Disk} (hf : d'.folders = d.folders) {path : FilePath}
    (hfile : ∀ l, d.place path = .ok l → d'.fileAt? l = d.fileAt? l) :
    d'.read? path = d.read? path := by
  rw [read?_eq, read?_eq]
  cases hplace : d.place path with
  | error cause =>
    cases hplace' : d'.place path with
    | error cause' => rfl
    | ok l =>
      rw [place_eq_ok_congr hf, hplace] at hplace'
      cases hplace'
  | ok l => simp only [(place_eq_ok_congr hf).mpr hplace, hfile l hplace]

/-! ## What lies under a path -/

section Contents

variable {d d' d'' : Disk} {p : FilePath}

theorem read?_ne_none_iff :
    d.read? p ≠ none ↔ ∃ l, d.place p = .ok l ∧ d.fileAt? l ≠ none := by
  rw [read?_eq]
  cases d.place p with
  | error cause => simp
  | ok l => simp

/-- No file came: what lies on the disk now lay there before. -/
structure Shrinks (d d' : Disk) : Prop where
  folders : d'.folders = d.folders
  files : ∀ l, d'.fileAt? l ≠ none → d.fileAt? l ≠ none

theorem Shrinks.refl (d : Disk) : d.Shrinks d := ⟨rfl, fun _ h => h⟩

theorem Shrinks.trans (h : d.Shrinks d') (h' : d'.Shrinks d'') : d.Shrinks d'' :=
  ⟨h'.folders.trans h.folders, fun l hl => h.files l (h'.files l hl)⟩

theorem Shrinks.read? (h : d.Shrinks d') (hread : d'.read? p ≠ none) : d.read? p ≠ none := by
  obtain ⟨l, hplace, hfile⟩ := read?_ne_none_iff.mp hread
  exact read?_ne_none_iff.mpr ⟨l, (place_eq_ok_congr h.folders).mp hplace, h.files l hfile⟩

theorem shrinks_remove (d : Disk) (p : FilePath) : d.Shrinks (d.remove p) := by
  refine ⟨folders_remove d p, fun l hl => ?_⟩
  cases hplace : d.place p with
  | error cause => rwa [remove, hplace] at hl
  | ok l' =>
    rw [fileAt?_remove hplace] at hl
    split at hl
    · exact absurd rfl hl
    · exact hl

theorem read?_remove_self (d : Disk) (p : FilePath) : (d.remove p).read? p = none := by
  by_contra hread
  obtain ⟨l, hplace, hfile⟩ := read?_ne_none_iff.mp hread
  rw [fileAt?_remove ((place_eq_ok_congr (folders_remove d p)).mp hplace), if_pos rfl] at hfile
  exact hfile rfl

theorem shrinks_removeAll (d : Disk) (paths : List FilePath) :
    d.Shrinks (paths.foldl Disk.remove d) := by
  induction paths generalizing d with
  | nil => exact .refl d
  | cons p paths ih => exact (shrinks_remove d p).trans (ih (d.remove p))

theorem read?_removeAll {paths : List FilePath} (hp : p ∈ paths) :
    (paths.foldl Disk.remove d).read? p = none := by
  induction paths generalizing d with
  | nil => cases hp
  | cons q paths ih =>
    rcases List.mem_cons.mp hp with rfl | hp
    · by_contra hread
      exact (shrinks_removeAll (d.remove p) paths).read? hread (read?_remove_self d p)
    · exact ih hp

theorem shrinks_append (d : Disk) (file : FileId) (bytes : Bytes) :
    d.Shrinks (d.append file bytes) := by
  refine ⟨folders_append d file bytes, fun l hl => ?_⟩
  simp only [fileAt?, append, ne_eq, Option.map_eq_none_iff] at hl ⊢
  exact hl

/-- Only the file that is created comes. -/
theorem files_of_create {file : FileId} (h : d.create p = .ok (file, d')) {l : Location}
    (hl : d'.fileAt? l ≠ none) : d.fileAt? l ≠ none ∨ d.place p = .ok l := by
  rw [create] at h
  cases hp : d.place p with
  | error cause =>
    rw [hp] at h
    cases h
  | ok l' =>
    simp only [hp, bind, Except.bind] at h
    split at h
    · cases h
      simp only [fileAt?, truncate, ne_eq, Option.map_eq_none_iff] at hl ⊢
      exact .inl hl
    · cases h
      rw [fileAt?_addFile] at hl
      split at hl
      · next hl' => exact .inr (hl' ▸ rfl)
      · exact .inl hl

theorem read?_of_create_error {cause : IoError} (h : d.create p = .error cause) :
    d.read? p = none := by
  rw [read?_eq]
  cases hp : d.place p with
  | error cause => rfl
  | ok l =>
    simp only [create, hp, bind, Except.bind] at h
    split at h <;> cases h

end Contents

/-! ## Names of one length -/

/-- A file can have this name, wherever it lies: it is a file name, and no
folder has it. -/
structure Nameable (d : Disk) (name : String) : Prop where
  isFileName : Disk.isFileName name = true
  noNul : '\x00' ∉ name.toList
  noFolder : ∀ l : Location, d.isFolder (l.child name) = false

theorem Nameable.append_ne {d : Disk} {name : String} (h : d.Nameable name) (folder : String) :
    folder ++ name ≠ "" := by
  intro hempty
  have hlist := congrArg String.toList hempty
  rw [String.toList_append] at hlist
  have hname : name = "" := String.toList_inj.mp (List.append_eq_nil_iff.mp hlist).2
  subst hname
  exact absurd h.isFileName (by decide)

/-- Names in one folder can be opened alike, if they are too long alike. -/
theorem place_alike {d : Disk} {folder name name' : String} (h : d.Nameable name)
    (h' : d.Nameable name')
    (hname : name.utf8ByteSize > maxNameBytes ↔ name'.utf8ByteSize > maxNameBytes)
    (hpath : (folder ++ name).utf8ByteSize > maxPathBytes ↔
      (folder ++ name').utf8ByteSize > maxPathBytes) :
    (∃ l l', d.place ⟨folder, name⟩ = .ok l ∧ d.place ⟨folder, name'⟩ = .ok l') ∨
      ∃ cause, d.place ⟨folder, name⟩ = .error cause ∧ d.place ⟨folder, name'⟩ = .error cause := by
  have hcheck : checkText (folder ++ name) = checkText (folder ++ name') := by
    simp only [checkText, String.toList_append, List.mem_append, h.noNul, h'.noNul, h.append_ne,
      h'.append_ne, hpath]
  simp only [place, FilePath.text, hcheck, h.isFileName, h'.isFileName, h.noFolder, h'.noFolder,
    hname]
  cases checkText (folder ++ name') with
  | error cause => exact .inr ⟨cause, rfl, rfl⟩
  | ok =>
    cases d.resolve folder with
    | error cause => exact .inr ⟨cause, rfl, rfl⟩
    | ok l =>
      by_cases hlong : name'.utf8ByteSize > maxNameBytes
      · exact .inr ⟨.nameTooLong, by simp [bind, Except.bind, hlong]⟩
      · exact .inl ⟨l.child name, l.child name', by simp [bind, Except.bind, hlong]⟩

end Disk

end Multipart

import Mathlib.Logic.Function.Basic
import Multipart.Proofs.Naming
import Multipart.TempFile

/-!
# Files that are kept

`Storage.Keeps` says what the storage holds of the files of an origin: the
bytes of each file that is there, by number, and everywhere else what a
base view of the disk says. Creating, filling and removing temp files
change the bytes of one number and leave the base as it is. A file that is
being filled is known by its number too (`TempFile.Fills`).
-/

namespace Multipart

open Function (update)

/-- So many names were asked for, these files of the origin are there, and
everywhere else lies what `base` says. No file of the origin that is there
or still to come lies where `base` has one. -/
structure Storage.Keeps (o : Origin) (base : Location → Option Bytes) (asked : Nat)
    (held : Nat → Option Bytes) (s : Storage) : Prop where
  names : s.names = o.names.ahead asked
  places : ∀ name,
    s.disk.place (.inFolder o.folder name) = o.disk.place (.inFolder o.folder name)
  lt_asked : ∀ k, held k ≠ none → k < asked
  at_held : ∀ k data, held k = some data → ∃ l, o.place k = .ok l ∧ s.disk.fileAt? l = some data
  elsewhere : ∀ l, (∀ k, held k ≠ none → o.place k ≠ .ok l) → s.disk.fileAt? l = base l
  free : ∀ k l, asked ≤ k ∨ held k ≠ none → o.place k = .ok l → base l = none

/-- A temp file takes the data of the file with this number: it has the
number's path, and its handle is that of the one name there. -/
def TempFile.Fills (o : Origin) (s : Storage) (t : TempFile) (k : Nat) : Prop :=
  t.path = o.path k ∧ ∃ file l, t.handle = some file ∧ o.place k = .ok l ∧
    ∀ x, s.disk.entries.get? x = some file ↔ x = l

namespace Storage.Keeps

variable {o : Origin} {base : Location → Option Bytes} {asked : Nat} {held : Nat → Option Bytes}
  {s : Storage} {k : Nat} {l : Location} {data bytes : Bytes}

theorem start (hfresh : o.Fresh) :
    Storage.Keeps o o.disk.fileAt? 0 (fun _ => none) ⟨o.disk, o.names⟩ where
  names := rfl
  places _ := rfl
  lt_asked _ h := absurd rfl h
  at_held _ _ h := nomatch h
  elsewhere _ _ := rfl
  free k l _ := hfresh k l

theorem place_path (h : s.Keeps o base asked held) (k : Nat) :
    s.disk.place (o.path k) = o.place k := h.places _

/-- Once a file lies in the folder, its names lead where they lead as long
as the folders stay. -/
theorem places_of_folders (h : s.Keeps o base asked held) (hk : o.place k = .ok l) {d : Disk}
    (hf : d.folders = s.disk.folders) (name : String) :
    d.place (.inFolder o.folder name) = o.disk.place (.inFolder o.folder name) := by
  rw [← h.place_path] at hk
  obtain ⟨folder, -, hfolder, -⟩ := Disk.place_eq_ok_iff.mp hk
  rw [← h.places]
  exact Disk.place_congr hf hfolder

theorem fileAt?_next (h : s.Keeps o base asked held) (hl : o.place asked = .ok l) :
    s.disk.fileAt? l = none := by
  rw [h.elsewhere l, h.free asked l (.inl (Nat.le_refl _)) hl]
  intro k hk hkl
  have hlt := h.lt_asked k hk
  rw [Origin.place_inj hkl hl] at hlt
  exact Nat.lt_irrefl _ hlt

theorem fileAt?_of_base (h : s.Keeps o base asked held) (hl : base l = some data) :
    s.disk.fileAt? l = some data := by
  rw [h.elsewhere l, hl]
  intro k hk hkl
  rw [h.free k l (.inr hk) hkl] at hl
  cases hl

/-- What is there can be left to others: it becomes part of the base view. -/
theorem handOver (h : s.Keeps o base asked held) :
    s.Keeps o s.disk.fileAt? asked fun _ => none where
  names := h.names
  places := h.places
  lt_asked k hk := absurd rfl hk
  at_held k data hk := nomatch hk
  elsewhere _ _ := rfl
  free k l hk hl := by
    have hle : asked ≤ k := hk.resolve_right (absurd rfl)
    rw [h.elsewhere l, h.free k l (.inl hle) hl]
    intro j hj hjl
    have hlt := h.lt_asked j hj
    rw [Origin.place_inj hjl hl] at hlt
    omega

theorem issue (h : s.Keeps o base asked held) :
    Storage.Keeps o base (asked + 1) held { s with names := s.names.issue } where
  names := by rw [h.names]; rfl
  places := h.places
  lt_asked k hk := Nat.lt_succ_of_lt (h.lt_asked k hk)
  at_held := h.at_held
  elsewhere := h.elsewhere
  free k l hk := h.free k l (hk.imp_left Nat.le_of_succ_le)

/-- The disk shows what is kept under each number. -/
theorem read?_path (h : s.Keeps o base asked held)
    (hfree : ∀ k l, o.place k = .ok l → base l = none) (k : Nat) :
    s.disk.read? (o.path k) = held k := by
  rw [Disk.read?_eq, h.place_path]
  cases hheld : held k with
  | some data =>
    obtain ⟨l, hl, hdata⟩ := h.at_held k data hheld
    rw [hl, ← hdata]
  | none =>
    cases hplace : o.place k with
    | error cause => rfl
    | ok l =>
      rw [← hfree k l hplace]
      refine h.elsewhere l fun j hj hjl => hj ?_
      rw [Origin.place_inj hjl hplace, hheld]

/-! ## Creating -/

theorem create_of_error (h : s.Keeps o base asked held) {cause : IoError}
    (hplace : o.place asked = .error cause) (limit : Nat) :
    TempFile.create o.folder limit s =
      (.error (.resource (.openFile (o.path asked).text o.folder) cause),
        { s with names := s.names.issue }) := by
  have hpath : FilePath.inFolder o.folder s.names.upcoming = o.path asked := by
    rw [h.names]
    rfl
  have hcreate : s.disk.create (o.path asked) = .error cause := by
    rw [Disk.create, h.place_path, hplace]
    rfl
  rw [TempFile.create, hpath]
  simp only [hcreate]

theorem create_of_ok (h : s.Keeps o base asked held) (hplace : o.place asked = .ok l)
    (limit : Nat) :
    ∃ t s', TempFile.create o.folder limit s = (.ok t, s') ∧ t.size = 0 ∧ t.limit = limit ∧
      t.Fills o s' asked ∧ s'.Keeps o base (asked + 1) (update held asked (some [])) := by
  have hpath : FilePath.inFolder o.folder s.names.upcoming = o.path asked := by
    rw [h.names]
    rfl
  have hnew := h.fileAt?_next hplace
  have hcreate : s.disk.create (o.path asked) = .ok (s.disk.reversed.length, s.disk.addFile l) := by
    have hnone : s.disk.entries.get? l = none := by
      rw [Disk.fileAt?, Option.map_eq_none_iff] at hnew
      exact hnew
    rw [Disk.create, h.place_path, hplace]
    simp only [bind, Except.bind, hnone]
  refine ⟨⟨o.path asked, some s.disk.reversed.length, 0, limit⟩,
    ⟨s.disk.addFile l, s.names.issue⟩, ?_, rfl, rfl, ⟨rfl, _, l, rfl, hplace, ?_⟩, ?_⟩
  · rw [TempFile.create, hpath]
    simp only [hcreate]
  · exact fun x => Disk.get?_addFile_eq_some_iff ..
  · constructor
    · rw [h.names]; rfl
    · exact h.places_of_folders hplace (Disk.folders_addFile ..)
    · intro k hk
      by_cases hka : k = asked
      · omega
      · rw [Function.update_of_ne hka] at hk
        exact Nat.lt_succ_of_lt (h.lt_asked k hk)
    · intro k data hk
      by_cases hka : k = asked
      · subst hka
        rw [Function.update_self] at hk
        exact ⟨l, hplace, by rw [Disk.fileAt?_addFile, if_pos rfl, hk]⟩
      · rw [Function.update_of_ne hka] at hk
        obtain ⟨l', hl', hdata⟩ := h.at_held k data hk
        have hne : l' ≠ l := by
          rintro rfl
          exact hka (Origin.place_inj hl' hplace)
        exact ⟨l', hl', by rw [Disk.fileAt?_addFile, if_neg hne, hdata]⟩
    · intro x hx
      have hxl : x ≠ l := by
        rintro rfl
        exact hx asked (by simp) hplace
      rw [Disk.fileAt?_addFile, if_neg hxl]
      refine h.elsewhere x fun k hk => hx k ?_
      rwa [Function.update_of_ne (Nat.ne_of_lt (h.lt_asked k hk))]
    · intro k x hk
      by_cases hka : k = asked
      · exact h.free k x (.inl (Nat.le_of_eq hka.symm))
      · rw [Function.update_of_ne hka] at hk
        exact h.free k x (hk.imp_left Nat.le_of_succ_le)

/-! ## Filling -/

theorem append (h : s.Keeps o base asked held) {t : TempFile} (ht : t.Fills o s k)
    (hk : held k = some data) {file : FileId} (hfile : t.handle = some file) :
    (s.onDisk (·.append file bytes)).Keeps o base asked (update held k (some (data ++ bytes))) := by
  obtain ⟨-, file', l, hhandle, hl, honly⟩ := ht
  obtain rfl := Option.some.inj (hfile.symm.trans hhandle)
  have hcontents : s.disk.contentsOf file = data := by
    obtain ⟨l', hl', hdata⟩ := h.at_held k data hk
    obtain rfl := Except.ok.inj (hl'.symm.trans hl)
    rw [Disk.fileAt?, (honly l').mpr rfl] at hdata
    exact Option.some.inj hdata
  have hview := Disk.fileAt?_append honly bytes
  have hheld (j : Nat) : update held k (some (data ++ bytes)) j ≠ none ↔ held j ≠ none := by
    by_cases hjk : j = k
    · subst hjk
      simp [hk]
    · rw [Function.update_of_ne hjk]
  constructor
  · exact h.names
  · exact h.places_of_folders hl (Disk.folders_append ..)
  · exact fun j hj => h.lt_asked j ((hheld j).mp hj)
  · intro j data' hj
    by_cases hjk : j = k
    · subst hjk
      rw [Function.update_self] at hj
      exact ⟨l, hl, by rw [Storage.disk_onDisk, hview, if_pos rfl, hcontents, hj]⟩
    · rw [Function.update_of_ne hjk] at hj
      obtain ⟨l', hl', hdata⟩ := h.at_held j data' hj
      have hne : l' ≠ l := by
        rintro rfl
        exact hjk (Origin.place_inj hl' hl)
      exact ⟨l', hl', by rw [Storage.disk_onDisk, hview, if_neg hne, hdata]⟩
  · intro x hx
    have hxl : x ≠ l := by
      rintro rfl
      exact hx k (by simp) hl
    rw [Storage.disk_onDisk, hview, if_neg hxl]
    exact h.elsewhere x fun j hj => hx j ((hheld j).mpr hj)
  · exact fun j x hj => h.free j x (hj.imp_right (hheld j).mp)

theorem fills_append {t : TempFile} (ht : t.Fills o s k) (file : FileId) (size : Nat) :
    { t with size }.Fills o (s.onDisk (·.append file bytes)) k := ht

/-! ## Removing -/

/-- The file with a number is taken away, if it is there. -/
theorem remove (h : s.Keeps o base asked held) (hfree : ∀ l, o.place k = .ok l → base l = none) :
    (s.onDisk (·.remove (o.path k))).Keeps o base asked (update held k none) := by
  have hheld (j : Nat) (hj : update held k none j ≠ none) : j ≠ k ∧ held j ≠ none := by
    by_cases hjk : j = k
    · subst hjk
      simp at hj
    · rw [Function.update_of_ne hjk] at hj
      exact ⟨hjk, hj⟩
  cases hplace : o.place k with
  | error cause =>
    have hnone : held k = none := by
      rw [Option.eq_none_iff_forall_ne_some]
      intro data hk
      obtain ⟨l, hl, -⟩ := h.at_held k data hk
      rw [hplace] at hl
      cases hl
    have hsame : s.disk.remove (o.path k) = s.disk := by
      rw [Disk.remove, h.place_path, hplace]
    have hstay : update held k none = held := by
      rw [← hnone, Function.update_eq_self]
    rw [Storage.onDisk, hsame, hstay]
    exact h
  | ok l =>
    have hl : s.disk.place (o.path k) = .ok l := (h.place_path k).trans hplace
    have hview := Disk.fileAt?_remove hl
    constructor
    · exact h.names
    · exact h.places_of_folders hplace (Disk.folders_remove ..)
    · exact fun j hj => h.lt_asked j (hheld j hj).2
    · intro j data hj
      have hjk := (hheld j (by simp [hj])).1
      rw [Function.update_of_ne hjk] at hj
      obtain ⟨l', hl', hdata⟩ := h.at_held j data hj
      have hne : l' ≠ l := by
        rintro rfl
        exact hjk (Origin.place_inj hl' hplace)
      exact ⟨l', hl', by rw [Storage.disk_onDisk, hview, if_neg hne, hdata]⟩
    · intro x hx
      rw [Storage.disk_onDisk, hview]
      split
      · next hxl => rw [hxl, hfree l hplace]
      · next hxl =>
        refine h.elsewhere x fun j hj hjx => hx j ?_ hjx
        have hjk : j ≠ k := by
          rintro rfl
          exact hxl (Except.ok.inj (hjx.symm.trans hplace))
        rwa [Function.update_of_ne hjk]
    · exact fun j x hj => h.free j x (hj.imp_right fun hj => (hheld j hj).2)

theorem free_of_held (h : s.Keeps o base asked held) (hk : held k ≠ none) :
    ∀ l, o.place k = .ok l → base l = none := fun l => h.free k l (.inr hk)

theorem removeAll (h : s.Keeps o base asked held) {paths : List FilePath} {numbers : List Nat}
    (hpaths : paths = numbers.map o.path)
    (hfree : ∀ k ∈ numbers, ∀ l, o.place k = .ok l → base l = none) :
    (s.onDisk fun d => paths.foldl Disk.remove d).Keeps o base asked
      fun k => if k ∈ numbers then none else held k := by
  subst hpaths
  induction numbers generalizing s held with
  | nil => simpa [Storage.onDisk] using h
  | cons k numbers ih =>
    have hone := h.remove (hfree k (List.mem_cons_self ..))
    have hall := ih hone fun j hj => hfree j (List.mem_cons_of_mem _ hj)
    have hheld : (fun j => if j ∈ numbers then none else update held k none j) =
        fun j => if j ∈ k :: numbers then none else held j := by
      funext j
      by_cases hjk : j = k
      · simp [hjk]
      · simp [hjk]
    rwa [hheld] at hall

end Storage.Keeps

end Multipart

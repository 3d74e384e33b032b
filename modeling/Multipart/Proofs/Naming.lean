import Mathlib.Data.Nat.Digits.Defs
import Mathlib.Data.String.Basic
import Multipart.Proofs.DiskView
import Multipart.Settings

/-!
# Names of temp files

A name holds its count, so names with different counts differ whatever
process and time they show (`NameSupply.numbered_inj`), and the files
under them lie at different locations (`Origin.place_inj`).

An `Origin` is where the temp files of a decoder come from: a folder, a
ceiling, and the supply of names and the disk at the start. Its files are
known by number, from zero.
-/

namespace Multipart

theorem toList_toString_inj {m n : Nat} (h : (toString m).toList = (toString n).toList) :
    m = n := by
  have hm : (toString m).toList = Nat.toDigits 10 m := Nat.toList_repr
  have hn : (toString n).toList = Nat.toDigits 10 n := Nat.toList_repr
  rw [hm, hn] at h
  rw [← Nat.ofDigitChars_ten_toDigits (n := m), h, Nat.ofDigitChars_ten_toDigits]

theorem isDigit_of_mem_toString {n : Nat} {c : Char} (h : c ∈ (toString n).toList) :
    c.isDigit = true := by
  have hn : (toString n).toList = Nat.toDigits 10 n := Nat.toList_repr
  rw [hn] at h
  exact Nat.isDigit_of_mem_toDigits (by decide) (by decide) h

/-- Decimal digits hold no hyphen. -/
theorem hyphen_not_mem_toString (n : Nat) : '-' ∉ (toString n).toList :=
  fun h => absurd (isDigit_of_mem_toString h) (by decide)

theorem utf8ByteSize_toString_le {n digits : Nat} (hdigits : 0 < digits) (h : n < 10 ^ digits) :
    (toString n).utf8ByteSize ≤ 4 * digits := by
  have hchars (cs : List Char) : String.utf8Len cs ≤ 4 * cs.length := by
    induction cs with
    | nil => exact Nat.le_refl _
    | cons c cs ih =>
      have := Char.utf8Size_le_four c
      rw [String.utf8Len_cons, List.length_cons]
      omega
  have hlength : (toString n).toList.length ≤ digits := Nat.repr_length n digits hdigits h
  have hsize := hchars (toString n).toList
  rw [← String.utf8ByteSize_ofList, String.ofList_toList] at hsize
  omega

namespace NameSupply

/-- The count in a name tells names of one process apart. -/
theorem nameOf_inj {process time time' count count' : Nat}
    (h : nameOf process time count = nameOf process time' count') : count = count' := by
  have hlist := congrArg String.toList h
  simp only [nameOf, String.toList_append, List.append_assoc, List.append_cancel_left_eq] at hlist
  have hcut (t c : Nat) : Text.cutAt? '-' ((toString t).toList ++
      ("-".toList ++ ((toString c).toList ++ ".tmp".toList))) =
        some ((toString t).toList, (toString c).toList ++ ".tmp".toList) :=
    Text.cutAt?_append (hyphen_not_mem_toString t)
  have hrest := (hcut time count).symm.trans ((congrArg _ hlist).trans (hcut time' count'))
  simp only [Option.some.injEq, Prod.mk.injEq, List.append_cancel_right_eq] at hrest
  exact toList_toString_inj hrest.2

theorem numbered_inj {n : NameSupply} {j k : Nat} (h : n.numbered j = n.numbered k) : j = k :=
  nameOf_inj h

/-- Names of temp files all begin alike. -/
theorem nameOf_ne {process time count : Nat} {other : String}
    (hother : other.toList.head? ≠ some 'u') : nameOf process time count ≠ other := by
  rintro rfl
  exact hother (by simp [nameOf])

/-- A name of a temp file can be a file's if it is no folder's. -/
theorem nameable_nameOf {d : Disk} {process time count : Nat}
    (hfolders : ∀ l ∈ d.folders, l.names.getLast? ≠ some (nameOf process time count)) :
    d.Nameable (nameOf process time count) := by
  constructor
  · simp [Disk.isFileName, nameOf_ne (show "".toList.head? ≠ some 'u' by decide),
      nameOf_ne (show ".".toList.head? ≠ some 'u' by decide),
      nameOf_ne (show "..".toList.head? ≠ some 'u' by decide)]
  · intro h
    simp only [nameOf, String.toList_append, List.mem_append] at h
    rcases h with ((((((h | h) | h) | h) | h) | h) | h)
    all_goals first
      | exact absurd h (by decide)
      | exact absurd (isDigit_of_mem_toString h) (by decide)
  · intro l
    rw [Disk.isFolder, Bool.or_eq_false_iff]
    refine ⟨by simp [Location.isOutermost, Location.child], ?_⟩
    rw [List.contains_eq_mem, decide_eq_false_iff_not]
    intro hmem
    refine hfolders _ hmem ?_
    simp [Location.child]

/-- Names of temp files are short. -/
theorem utf8ByteSize_nameOf_le {process time count : Nat} (hprocess : process < 10 ^ 20)
    (htime : time < 10 ^ 20) (hcount : count < 10 ^ 20) :
    (nameOf process time count).utf8ByteSize ≤ 253 := by
  have hp := utf8ByteSize_toString_le (by decide) hprocess
  have ht := utf8ByteSize_toString_le (by decide) htime
  have hc := utf8ByteSize_toString_le (by decide) hcount
  have hfixed : "upload-".utf8ByteSize = 7 ∧ "-".utf8ByteSize = 1 ∧ ".tmp".utf8ByteSize = 4 := by
    decide
  simp only [nameOf, String.utf8ByteSize_append, hfixed]
  omega

/-- The supply after so many more names. -/
def ahead (n : NameSupply) (asked : Nat) : NameSupply := { n with issued := n.issued + asked }

end NameSupply

/-- Where the temp files of a decoder come from: the folder they are put in,
how large they may become, and the names and the disk at the start. -/
structure Origin where
  folder : String
  limit : Nat
  names : NameSupply
  disk : Disk

namespace Origin

/-- The path of the file with this number. -/
def path (o : Origin) (k : Nat) : FilePath :=
  .inFolder o.folder (o.names.numbered (o.names.issued + k + 1))

/-- Where the file with this number lies, or why it cannot be opened. -/
def place (o : Origin) (k : Nat) : Except IoError Location := o.disk.place (o.path k)

theorem path_inj {o : Origin} {j k : Nat} (h : o.path j = o.path k) : j = k := by
  have hname := NameSupply.numbered_inj (congrArg FilePath.name h)
  omega

/-- A file lies under its own name. -/
theorem place_child {o : Origin} {k : Nat} {l : Location} (h : o.place k = .ok l) :
    ∃ folder : Location, l = folder.child (o.names.numbered (o.names.issued + k + 1)) := by
  obtain ⟨folder, -, -, -, -, -, rfl⟩ := Disk.place_eq_ok_iff.mp h
  exact ⟨folder, rfl⟩

/-- Files with different numbers lie at different locations. -/
theorem place_inj {o : Origin} {j k : Nat} {l : Location} (hj : o.place j = .ok l)
    (hk : o.place k = .ok l) : j = k := by
  obtain ⟨folder, -, hfolder, -, -, -, rfl⟩ := Disk.place_eq_ok_iff.mp hj
  obtain ⟨folder', -, hfolder', -, -, -, hl⟩ := Disk.place_eq_ok_iff.mp hk
  obtain rfl := Except.ok.inj (hfolder.symm.trans hfolder')
  simp only [Location.child, Location.mk.injEq, List.append_cancel_left_eq, List.cons.injEq,
    and_true, true_and] at hl
  have := NameSupply.numbered_inj hl
  omega

/-- Nothing lies yet where the files of the origin will. -/
def Fresh (o : Origin) : Prop := ∀ k l, o.place k = .ok l → o.disk.fileAt? l = none

/-- In two places alike, a file with the same number is opened, or refused for
the same reason, and may become as large. -/
structure Alike (o o' : Origin) : Prop where
  folder : o.folder = o'.folder
  limit : o.limit = o'.limit
  opens : ∀ k, (∃ l l', o.place k = .ok l ∧ o'.place k = .ok l') ∨
    ∃ cause, o.place k = .error cause ∧ o'.place k = .error cause

theorem Alike.refl (o : Origin) : o.Alike o := by
  refine ⟨rfl, rfl, ?_⟩
  intro k
  cases h : o.place k with
  | ok l => exact .inl ⟨l, l, rfl, rfl⟩
  | error cause => exact .inr ⟨cause, rfl, rfl⟩

/-- Processes whose numbers have equally many digits are alike, where no
folder has the name of a temp file. -/
theorem alike_of_process {o : Origin} (process : Nat)
    (hsize : (toString process).utf8ByteSize = (toString o.names.process).utf8ByteSize)
    (hfolders : ∀ l ∈ o.disk.folders, ∀ p time count,
      l.names.getLast? ≠ some (NameSupply.nameOf p time count)) :
    o.Alike { o with names := { o.names with process } } where
  folder := rfl
  limit := rfl
  opens k := Disk.place_alike (NameSupply.nameable_nameOf fun l hl => hfolders l hl _ _ _)
    (NameSupply.nameable_nameOf fun l hl => hfolders l hl _ _ _)
    (by simp only [NameSupply.numbered, NameSupply.nameOf, String.utf8ByteSize_append, hsize])
    (by simp only [NameSupply.numbered, NameSupply.nameOf, String.utf8ByteSize_append, hsize])

end Origin

/-- Where a decoder with these settings that starts on a storage gets its temp
files from. -/
def Settings.origin (settings : Settings) (s : Storage) : Origin :=
  ⟨settings.uploadDir, settings.maxFileSize, s.names, s.disk⟩

/-- Processes that find nothing but a folder for their temp files are alike. -/
theorem Settings.alike_of_processes (settings : Settings) (process process' : Nat)
    (hsize : (toString process').utf8ByteSize = (toString process).utf8ByteSize) :
    (settings.origin ⟨.ofFolders [["tmp"]], ⟨process, 0, 0⟩⟩).Alike
      (settings.origin ⟨.ofFolders [["tmp"]], ⟨process', 0, 0⟩⟩) := by
  refine Origin.alike_of_process process' hsize ?_
  intro l hl p time count hname
  obtain rfl : l = ⟨0, ["tmp"]⟩ := List.mem_singleton.mp hl
  have hfirst := congrArg (fun name => name.bind (·.toList.head?)) hname
  simp [NameSupply.nameOf] at hfirst

end Multipart

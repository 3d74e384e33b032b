import Multipart.Bytes
import Multipart.IoError
import Multipart.OrderedMap
import Multipart.Text.Split
import Multipart.Disk.FilePath
import Multipart.Disk.Location

/-!
# The disk

A disk has folders, and entries that name files. A file and its name are
two things: whoever has a file open keeps it when its name goes, and may
write on, though nobody finds it any more. So an entry leads from a
location to a `FileId`, and the contents are kept by `FileId`. They are
kept last byte first, so that a write costs no more than it adds;
`contentsOf` is the view, and `contentsOf_append` says what a write does
to it.

A path is followed one name at a time (`Disk.step`), and the first name
that leads nowhere decides the error. The start folder and the folders
above it are always there; above it, paths find only what they created.
-/

namespace Multipart

/-- What an open file is known by, whether or not it still has a name. -/
abbrev FileId := Nat

/-- Folders, named files, and the contents of all files ever created,
each with its last byte first. No entry leads to a file that was never
created. -/
structure Disk where
  folders : List Location
  entries : OrderedMap Location FileId
  reversed : List Bytes
  entries_lt : ∀ e ∈ entries.entries, e.2 < reversed.length

namespace Disk

/-- The disk with these folders, below the start folder, and no file. -/
def ofFolders (folders : List (List String)) : Disk :=
  ⟨folders.map (Location.mk 0), ∅, [], by simp⟩

instance : Inhabited Disk := ⟨ofFolders []⟩

def isFolder (d : Disk) (l : Location) : Bool := l.isOutermost || d.folders.contains l

def contentsOf (d : Disk) (file : FileId) : Bytes := (d.reversed.getD file []).reverse

/-! ## Following a path -/

def maxNameBytes : Nat := 255

def maxPathBytes : Nat := 4095

/-- Takes one step. An empty name and a single dot stay, two dots go up,
and any other name goes down. -/
def step (d : Disk) (l : Location) (name : String) : Except IoError Location :=
  if name = "" ∨ name = "." then .ok l
  else if name = ".." then .ok l.parent
  else if name.utf8ByteSize > maxNameBytes then .error .nameTooLong
  else if d.isFolder (l.child name) then .ok (l.child name)
  else if (d.entries.get? (l.child name)).isSome then .error .notADirectory
  else .error .notFound

/-- The names in the text of a folder. -/
def names (folder : String) : List String := (Text.splitOn '/' folder.toList).map String.ofList

def resolve (d : Disk) (folder : String) : Except IoError Location :=
  (names folder).foldlM d.step .start

/-- What no path may be, wherever it leads. -/
def checkText (path : String) : Except IoError Unit :=
  if '\x00' ∈ path.toList then .error .nulInPath
  else if path = "" then .error .notFound
  else if path.utf8ByteSize > maxPathBytes then .error .nameTooLong
  else .ok ()

/-- Whether a name can be that of a file. -/
def isFileName (name : String) : Bool := name != "" && name != "." && name != ".."

/-- Where a file of this path lies or would lie. -/
def place (d : Disk) (path : FilePath) : Except IoError Location := do
  checkText path.text
  let folder ← d.resolve path.folder
  if !isFileName path.name then .error .isADirectory
  else if path.name.utf8ByteSize > maxNameBytes then .error .nameTooLong
  else if d.isFolder (folder.child path.name) then .error .isADirectory
  else .ok (folder.child path.name)

def lookup? (d : Disk) (path : FilePath) : Option FileId :=
  match d.place path with
  | .ok l => d.entries.get? l
  | .error _ => none

/-! ## Files -/

def truncate (d : Disk) (file : FileId) : Disk :=
  { d with
    reversed := d.reversed.set file []
    entries_lt := by simpa using d.entries_lt }

def addFile (d : Disk) (l : Location) : Disk :=
  { d with
    entries := d.entries.insert l d.reversed.length
    reversed := d.reversed ++ [[]]
    entries_lt := by
      intro e he
      rw [List.length_append]
      rcases OrderedMap.mem_insertIn he with rfl | hold
      · exact Nat.lt_succ_self _
      · exact Nat.lt_succ_of_lt (d.entries_lt e hold) }

/-- Opens a file for writing. A file that is there is emptied; else a new
one is created. -/
def create (d : Disk) (path : FilePath) : Except IoError (FileId × Disk) := do
  let l ← d.place path
  match d.entries.get? l with
  | some file => .ok (file, d.truncate file)
  | none => .ok (d.reversed.length, d.addFile l)

/-- Writes at the end of an open file. -/
def append (d : Disk) (file : FileId) (bytes : Bytes) : Disk :=
  { d with
    reversed := d.reversed.modify file (bytes.reverse ++ ·)
    entries_lt := by simpa using d.entries_lt }

/-- A write adds its bytes to the file it goes to and to no other. -/
theorem contentsOf_append (d : Disk) {file : FileId} (bytes : Bytes) (other : FileId)
    (h : file < d.reversed.length) :
    (d.append file bytes).contentsOf other =
      if other = file then d.contentsOf file ++ bytes else d.contentsOf other := by
  by_cases same : other = file
  · subst same
    simp [contentsOf, append, List.getElem?_eq_getElem h]
  · have same' : file ≠ other := fun e => same e.symm
    simp [contentsOf, append, same, same']

def write (d : Disk) (path : FilePath) (bytes : Bytes) : Disk :=
  match d.create path with
  | .ok (file, d) => d.append file bytes
  | .error _ => d

def read? (d : Disk) (path : FilePath) : Option Bytes := (d.lookup? path).map d.contentsOf

/-- Takes the name of a file away. A path that names no file changes
nothing. -/
def remove (d : Disk) (path : FilePath) : Disk :=
  match d.place path with
  | .ok l =>
    { d with
      entries := d.entries.erase l
      entries_lt := fun e he => d.entries_lt e (List.mem_filter.mp he).1 }
  | .error _ => d

end Disk

end Multipart

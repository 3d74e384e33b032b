import Multipart.UploadError
import Multipart.Disk.Storage

/-!
# Temp files

A temp file takes the data of one file part. It has a fresh name, grows
only at its end and never beyond its ceiling: an append that would cross
the ceiling writes nothing. Whoever has one either finishes it, which
keeps it on disk, or discards it, which removes it.
-/

namespace Multipart

/-- A temp file that is being filled. The handle is gone once the file is
closed. -/
structure TempFile where
  path : FilePath
  handle : Option FileId
  size : Nat
  limit : Nat
  deriving DecidableEq, Repr

namespace TempFile

/-- Creates a file with a fresh name in a folder. A name is used up even
if that fails. -/
def create (folder : String) (limit : Nat) (s : Storage) : Except UploadError TempFile × Storage :=
  let path := FilePath.inFolder folder s.names.upcoming
  match s.disk.create path with
  | .ok (file, disk) => (.ok ⟨path, some file, 0, limit⟩, ⟨disk, s.names.issue⟩)
  | .error cause =>
    (.error (.resource (.openFile path.text folder) cause), { s with names := s.names.issue })

/-- Writes bytes at the end. The ceiling is checked first; a closed file
takes nothing but the empty string. -/
def append (t : TempFile) (bytes : Bytes) (s : Storage) :
    Except UploadError (TempFile × Storage) :=
  if t.size + bytes.length > t.limit then .error (.limitExceeded t.limit)
  else if bytes.isEmpty then .ok (t, s)
  else
    match t.handle with
    | none => .error (.resource (.writeFile t.path.text) .alreadyClosed)
    | some file =>
      .ok ({ t with size := t.size + bytes.length }, s.onDisk (·.append file bytes))

/-- Gives up the handle. Doing so again changes nothing. -/
def close (t : TempFile) : TempFile := { t with handle := none }

/-- Ends a file that is kept: its path and its size. -/
def finish (t : TempFile) : FilePath × Nat := (t.close.path, t.close.size)

/-- Ends a file that is not kept, by removing it. -/
def discard (t : TempFile) (s : Storage) : Storage := s.onDisk (·.remove t.path)

end TempFile

end Multipart

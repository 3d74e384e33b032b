/-!
# File paths

A path names a file by the text of its folder, up to and including the
last slash, and the file's name. The text is never normalised: a path is
shown exactly as it was put together.
-/

namespace Multipart

/-- A path to a file: the folder's text with its last slash, then the name. -/
structure FilePath where
  folder : String
  name : String
  deriving DecidableEq, Repr

namespace FilePath

def text (path : FilePath) : String := path.folder ++ path.name

/-- The text of a folder with a slash at its end. The empty text stands
for the current folder and gets none. -/
def withSlash (folder : String) : String :=
  match folder.toList.getLast? with
  | none => folder
  | some c => if c = '/' then folder else folder ++ "/"

def inFolder (folder name : String) : FilePath := ⟨withSlash folder, name⟩

end FilePath

end Multipart

/-!
# Settings

Where temp files go and how large things may become. Settings are made
from the standard ones by a list of changes (`Settings.ofChanges`). Two rules
hold whatever the changes are: an empty folder stands for the system's
temp folder, and a read asks for at least one byte.
-/

namespace Multipart

/-- The settings of a decoder. All sizes are in bytes. -/
structure Settings where
  uploadDir : String
  maxFileSize : Nat
  maxFieldSize : Nat
  /-- The longest boundary or header line, without its line feed. -/
  maxLineLength : Nat
  readChunkSize : Nat
  readChunkSize_pos : 0 < readChunkSize := by decide

namespace Settings

/-- The folder that the system keeps for temp files. -/
def systemTempDir : String := "tmp"

/-- Files up to 200 MiB, fields up to 64 KiB, lines and reads of 8 KiB,
and the system's temp folder. -/
def standard : Settings where
  uploadDir := systemTempDir
  maxFileSize := 200 * 1024 * 1024
  maxFieldSize := 64 * 1024
  maxLineLength := 8 * 1024
  readChunkSize := 8 * 1024

instance : Inhabited Settings := ⟨standard⟩

/-- One change of the settings. -/
inductive Change where
  | uploadDir (folder : String)
  | maxFileSize (size : Nat)
  | maxFieldSize (size : Nat)
  | maxLineLength (length : Nat)
  | readChunkSize (size : Nat)
  | complete
  deriving DecidableEq, Repr

def change (s : Settings) : Change → Settings
  | .uploadDir folder => { s with uploadDir := if folder = "" then systemTempDir else folder }
  | .maxFileSize size => { s with maxFileSize := size }
  | .maxFieldSize size => { s with maxFieldSize := size }
  | .maxLineLength length => { s with maxLineLength := length }
  | .readChunkSize size =>
    { s with readChunkSize := max size 1, readChunkSize_pos := by omega }
  | .complete => s

/-- The standard settings after a list of changes, the last of which wins. -/
def ofChanges (changes : List Change) : Settings := changes.foldl change standard

end Settings

end Multipart

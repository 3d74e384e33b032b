import Multipart.OrderedMap
import Multipart.Disk.FilePath

/-!
# Forms

What an upload leaves for the program behind it: text variables by name,
and stored files by the name of their field, both in the order of first
publication.
-/

namespace Multipart

/-- A file part that was written to disk. -/
structure StoredFile where
  clientName : String
  path : FilePath
  contentType : Option String
  size : Nat
  deriving DecidableEq, Repr

abbrev Variables := OrderedMap String String

structure Form where
  vars : Variables
  files : OrderedMap String StoredFile
  deriving DecidableEq

namespace Form

def empty : Form := ⟨∅, ∅⟩

instance : Inhabited Form := ⟨empty⟩

end Form

end Multipart

/-!
# Locations

Where a folder or a file lies, seen from the start folder, in which every
path begins. Two dots lead up, also out of the start folder, and names
lead down. No path comes back down the way it went up: what the start
folder is called outside is not known here, and neither are the names of
the folders above it. So a location is a number of steps up and the names
on the way down from there, and different locations lie in different
places.
-/

namespace Multipart

/-- So many folders up from the start folder, then down by these names. -/
structure Location where
  above : Nat
  names : List String
  deriving DecidableEq, Repr

namespace Location

def start : Location := ⟨0, []⟩

/-- What lies here under a name. -/
def child (l : Location) (name : String) : Location := ⟨l.above, l.names ++ [name]⟩

def parent (l : Location) : Location :=
  if l.names = [] then ⟨l.above + 1, []⟩ else ⟨l.above, l.names.dropLast⟩

/-- Whether this is the start folder or lies above it. -/
def isOutermost (l : Location) : Bool := l.names.isEmpty

end Location

end Multipart

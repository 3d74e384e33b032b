import Multipart.Disk.Basic

/-!
# Storage

What decoders share: the disk, and the supply of names for temp files. A
name is made of the process, a time and a count. The count goes up with
every name that is asked for, so no two names are the same, whatever the
clock shows.
-/

namespace Multipart

/-- The time at which each name is asked for, by the count in the name. -/
structure Clock where
  timeOf : Nat → Nat

/-- A number stands for the clock that always shows it. -/
instance (n : Nat) : OfNat Clock n := ⟨⟨fun _ => n⟩⟩

structure NameSupply where
  process : Nat
  clock : Clock
  issued : Nat

namespace NameSupply

/-- The name with number `count` of a process at a time. -/
def nameOf (process clock count : Nat) : String :=
  "upload-" ++ toString process ++ "-" ++ toString clock ++ "-" ++ toString count ++ ".tmp"

def numbered (s : NameSupply) (count : Nat) : String :=
  nameOf s.process (s.clock.timeOf count) count

def upcoming (s : NameSupply) : String := s.numbered (s.issued + 1)

def issue (s : NameSupply) : NameSupply := { s with issued := s.issued + 1 }

end NameSupply

/-- The disk and the names that decoders take for their files. -/
structure Storage where
  disk : Disk
  names : NameSupply

namespace Storage

instance : Inhabited Storage := ⟨default, ⟨0, 0, 0⟩⟩

def onDisk (s : Storage) (f : Disk → Disk) : Storage := { s with disk := f s.disk }

@[simp] theorem disk_onDisk (s : Storage) (f : Disk → Disk) : (s.onDisk f).disk = f s.disk := rfl

@[simp] theorem names_onDisk (s : Storage) (f : Disk → Disk) : (s.onDisk f).names = s.names := rfl

end Storage

end Multipart

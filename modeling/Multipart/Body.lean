import Multipart.Decoder.Run

/-!
# Decoding a whole body

A body is read piece by piece. How much one read yields is up to the
sender and the network, so a reader says for each offset how much a read
that starts there yields at most, and at which offset reads begin to
fail. `decodeBody` feeds a decoder with what it reads until the closing
boundary is seen, the body ends, or something fails; a decoder that is
given up takes its files along.
-/

namespace Multipart

/-- The way reads of a body fail: with an error, once this many bytes were
read. -/
structure ReadFailure where
  after : Nat
  error : IoError
  deriving DecidableEq, Repr

structure BodyReader where
  unread : Bytes
  taken : Nat
  /-- The most bytes that a read at an offset yields, if there is such a
  bound. -/
  burst : Nat → Option Nat
  failure : Option ReadFailure

namespace BodyReader

/-- A reader at the start of a body, with the same bound for all reads. -/
def ofBytes (body : Bytes) (burst : Option Nat) (failure : Option ReadFailure) : BodyReader :=
  ⟨body, 0, fun _ => burst, failure⟩

/-- The error of a read that starts here. -/
def error? (r : BodyReader) : Option IoError :=
  match r.failure with
  | some f => if f.after ≤ r.taken then some f.error else none
  | none => none

/-- How many bytes a read for at most `wanted` bytes yields. -/
def yield (r : BodyReader) (wanted : Nat) : Nat :=
  min ((r.burst r.taken).getD wanted) (min wanted r.unread.length)

def piece (r : BodyReader) (wanted : Nat) : Bytes := r.unread.take (r.yield wanted)

def after (r : BodyReader) (wanted : Nat) : BodyReader :=
  { r with unread := r.unread.drop (r.yield wanted), taken := r.taken + r.yield wanted }

theorem yield_le (r : BodyReader) (wanted : Nat) : r.yield wanted ≤ r.unread.length := by
  rw [yield]
  omega

end BodyReader

structure Decoded where
  result : Except UploadError Form
  reader : BodyReader
  storage : Storage

namespace Decoder

/-- Reads a body to the closing boundary. A read that yields nothing is
the end of the body. Bytes after the closing boundary are left alone,
apart from those that came in the same read. -/
def decodeFrom (d : Decoder) (s : Storage) (buffer : InputBuffer) (r : BodyReader) : Decoded :=
  match r.error? with
  | some cause => ⟨.error (.resource .readBody cause), r, d.release s⟩
  | none =>
    if r.yield d.settings.readChunkSize = 0 then
      let o := d.finish s buffer
      match o.result with
      | .ok form => ⟨.ok form, r, o.storage⟩
      | .error e => ⟨.error e, r, o.decoder.release o.storage⟩
    else
      let o := d.feed s buffer (r.piece d.settings.readChunkSize)
      let r' := r.after d.settings.readChunkSize
      match o.result with
      | .error e => ⟨.error e, r', o.decoder.release o.storage⟩
      | .ok .complete =>
        let (result, storage) := o.decoder.intoForm o.storage
        ⟨result, r', storage⟩
      | .ok .needsMore => o.decoder.decodeFrom o.storage o.buffer r'
termination_by r.unread.length
decreasing_by
  have := r.yield_le d.settings.readChunkSize
  simp only [BodyReader.after, List.length_drop]
  omega

/-- Decodes a body with an input buffer of its own. -/
def decodeBody (d : Decoder) (s : Storage) (r : BodyReader) : Decoded :=
  d.decodeFrom s .empty r

end Decoder

end Multipart

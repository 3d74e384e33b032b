import Multipart.Bytes

/-!
# The input buffer

Bytes wait here until the decoder has used them. They come in at the end
and are used up from the front; `compact` then lets go of what was used.
The view is `unread`: each operation has one lemma that says what it
does to it.

Bytes are counted in 64-bit words, and a buffer may be asked for room
that no memory has, or to use up bytes that it does not hold. Such a
request is refused with its `Fault` and changes nothing; `consume_eq_ok_iff`
says that bytes are used up exactly when they are there. That a sum which
is no word is refused too (`Fault.countOverflow`) takes a build with
overflow checks, and `consume` is that of such a build; `WordBuffer.consume`
is that of either. The decoder never asks for more than is unread and has
`advance` for that, so it does the same in both.
-/

namespace Multipart

/-- Held bytes, of which those before the cursor are used up. -/
structure InputBuffer where
  held : Bytes
  cursor : Nat
  cursor_le : cursor ≤ held.length := by simp

namespace InputBuffer

def empty : InputBuffer := ⟨[], 0, Nat.le_refl _⟩

instance : Inhabited InputBuffer := ⟨empty⟩

/-- The bytes that wait to be used. -/
def unread (b : InputBuffer) : Bytes := b.held.drop b.cursor

def used (b : InputBuffer) : Nat := b.held.length

def push (b : InputBuffer) (bytes : Bytes) : InputBuffer :=
  ⟨b.held ++ bytes, b.cursor, by have := b.cursor_le; simp only [List.length_append]; omega⟩

/-- Uses up bytes that are there. -/
def advance (b : InputBuffer) (amount : Nat) (h : amount ≤ b.unread.length) : InputBuffer :=
  ⟨b.held, b.cursor + amount, by
    have := b.cursor_le
    rw [unread, List.length_drop] at h
    omega⟩

/-! ## Requests that may be refused -/

/-- Why a request is refused. -/
inductive Fault where
  | capacityOverflow
  | countOverflow
  | overrun
  deriving DecidableEq, Repr

/-- What a refused request is answered with. -/
def Fault.message : Fault → String
  | .capacityOverflow => "capacity overflow"
  | .countOverflow => "attempt to add with overflow"
  | .overrun => "consumed past the end of the buffer"

/-- The most room that can be asked for: the lower half of all counts. -/
def maxCapacity : Nat := UInt64.size / 2 - 1

/-- An empty buffer with room for so many bytes. It grows when it needs
more, so the room is not seen. -/
def withCapacity (capacity : Nat) : Except Fault InputBuffer :=
  if capacity ≤ maxCapacity then .ok empty else .error .capacityOverflow

/-- Why a consumption that asks for too much is refused. The sum with the
cursor comes first: with overflow checks it has to be a word. -/
def refusal (b : InputBuffer) (amount : Nat) : Fault :=
  if b.cursor + amount < UInt64.size then .overrun else .countOverflow

/-- Uses up bytes on request, with overflow checks. -/
def consume (b : InputBuffer) (amount : Nat) : Except Fault InputBuffer :=
  if h : amount ≤ b.unread.length then .ok (b.advance amount h) else .error (b.refusal amount)

/-! ## Upkeep -/

/-- Lets go of the bytes that were used up. -/
def compact (b : InputBuffer) : InputBuffer := ⟨b.unread, 0, Nat.zero_le _⟩

def summary (b : InputBuffer) : String :=
  "RingBuffer \x7b start: " ++ toString b.cursor ++ ", len: " ++ toString b.unread.length ++ " \x7d"

@[simp] theorem unread_empty : empty.unread = [] := rfl

@[simp] theorem unread_push (b : InputBuffer) (bytes : Bytes) :
    (b.push bytes).unread = b.unread ++ bytes := by
  simp [unread, push, List.drop_append_of_le_length b.cursor_le]

@[simp] theorem unread_advance (b : InputBuffer) (amount : Nat) (h : amount ≤ b.unread.length) :
    (b.advance amount h).unread = b.unread.drop amount := by
  simp [unread, advance, List.drop_drop]

/-- Bytes are used up exactly when they are there, and then from the
front. -/
theorem consume_eq_ok_iff {b c : InputBuffer} {amount : Nat} :
    b.consume amount = .ok c ↔ ∃ h : amount ≤ b.unread.length, c = b.advance amount h := by
  unfold consume
  split
  · next h => exact ⟨fun e => ⟨h, (Except.ok.inj e).symm⟩, fun ⟨_, e⟩ => e ▸ rfl⟩
  · next h => exact ⟨nofun, fun ⟨h', _⟩ => absurd h' h⟩

@[simp] theorem unread_compact (b : InputBuffer) : b.compact.unread = b.unread := by
  simp [unread, compact]

@[simp] theorem used_compact (b : InputBuffer) : b.compact.used = b.unread.length := rfl

end InputBuffer

end Multipart

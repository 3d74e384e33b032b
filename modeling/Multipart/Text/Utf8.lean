import Multipart.Bytes

/-!
# UTF-8

`encode` writes text as UTF-8. `decode` reads any byte string: where the
bytes are no UTF-8, each longest start of a character that is cut short,
and each byte that starts none, reads as one U+FFFD.

A character is read by its first byte (`lead?`): that fixes which bytes
may come second, the only place where the choice is narrower than
`0x80`-`0xBF`, and how many continuation bytes come after the second.
-/

namespace Multipart

namespace Text

def encode (text : List Char) : Bytes := text.flatMap String.utf8EncodeChar

/-- The character that stands for bytes that are no UTF-8. -/
def replacement : Char := '\uFFFD'

/-- What the first byte of a longer character announces: its payload
bits, the bounds of the second byte, and how many bytes follow the
second. -/
structure Lead where
  payload : Nat
  least : UInt8
  most : UInt8
  further : Nat
  deriving DecidableEq, Repr

/-- Reads a first byte above `0x7F`. Bytes that no character starts with
give `none`. -/
def lead? (b : UInt8) : Option Lead :=
  if b < 0xC2 then none
  else if b < 0xE0 then some ⟨b.toNat - 0xC0, 0x80, 0xBF, 0⟩
  else if b = 0xE0 then some ⟨0, 0xA0, 0xBF, 1⟩
  else if b = 0xED then some ⟨0xD, 0x80, 0x9F, 1⟩
  else if b < 0xF0 then some ⟨b.toNat - 0xE0, 0x80, 0xBF, 1⟩
  else if b = 0xF0 then some ⟨0, 0x90, 0xBF, 2⟩
  else if b < 0xF4 then some ⟨b.toNat - 0xF0, 0x80, 0xBF, 2⟩
  else if b = 0xF4 then some ⟨4, 0x80, 0x8F, 2⟩
  else none

def isContinuation (b : UInt8) : Bool := 0x80 ≤ b && b ≤ 0xBF

/-- Reads `further` continuation bytes after `used` bytes of a character
whose bits so far are `code`. Gives the character, or the replacement if
one is missing, and how many bytes it takes up. -/
def readFurther (code used : Nat) : Nat → Bytes → Char × Nat
  | 0, _ => (Char.ofNat code, used)
  | _ + 1, [] => (replacement, used)
  | further + 1, b :: rest =>
    if isContinuation b then
      readFurther (code * 64 + (b.toNat - 0x80)) (used + 1) further rest
    else (replacement, used)

/-- The character that starts with `b`, and how many of the bytes `rest`
after `b` it takes up. -/
def readChar (b : UInt8) (rest : Bytes) : Char × Nat :=
  if b < 0x80 then (Char.ofNat b.toNat, 0)
  else
    match lead? b, rest with
    | some lead, second :: rest =>
      if lead.least ≤ second && second ≤ lead.most then
        readFurther (lead.payload * 64 + (second.toNat - 0x80)) 1 lead.further rest
      else (replacement, 0)
    | _, _ => (replacement, 0)

/-- Reads bytes as UTF-8 after the first `skip` of them, which belong to a
character that was read already. -/
def decodeAfter : Nat → Bytes → List Char
  | _, [] => []
  | skip + 1, _ :: rest => decodeAfter skip rest
  | 0, b :: rest => (readChar b rest).1 :: decodeAfter (readChar b rest).2 rest

/-- Reads bytes as UTF-8, with a replacement for whatever is not. -/
def decode (bytes : Bytes) : List Char := decodeAfter 0 bytes

theorem decodeAfter_eq (skip : Nat) (bytes : Bytes) :
    decodeAfter skip bytes = decode (bytes.drop skip) := by
  induction bytes generalizing skip with
  | nil => simp [decode, decodeAfter]
  | cons b rest ih =>
    cases skip with
    | zero => rfl
    | succ skip => exact ih skip

@[simp] theorem decode_nil : decode [] = [] := rfl

/-- Reading goes on behind the character that was read. -/
theorem decode_cons (b : UInt8) (rest : Bytes) :
    decode (b :: rest) = (readChar b rest).1 :: decode (rest.drop (readChar b rest).2) := by
  rw [← decodeAfter_eq]
  rfl

def ofBytes (bytes : Bytes) : String := String.ofList (decode bytes)

def toBytes (text : String) : Bytes := encode text.toList

end Text

end Multipart

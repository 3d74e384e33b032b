import Multipart.Text.Utf8

/-!
# UTF-8, there and back

Text that was written as UTF-8 is read back as it was
(`Text.decode_encode`), and a byte below `0x80` is in it only as the
character it stands for (`Text.mem_of_mem_encode`).
-/

namespace Multipart

namespace Text

/-! ## One character -/

theorem lead?_two : ∀ n < 32, 2 ≤ n →
    lead? (UInt8.ofNat (n + 0xC0)) = some ⟨n, 0x80, 0xBF, 0⟩ := by decide

theorem lead?_three : ∀ n < 16, lead? (UInt8.ofNat (n + 0xE0)) =
    some ⟨n, if n = 0 then 0xA0 else 0x80, if n = 13 then 0x9F else 0xBF, 1⟩ := by decide

theorem lead?_four : ∀ n < 5, lead? (UInt8.ofNat (n + 0xF0)) =
    some ⟨n, if n = 0 then 0x90 else 0x80, if n = 4 then 0x8F else 0xBF, 2⟩ := by decide

theorem toNat_continuation (bits : Nat) :
    (UInt8.ofNat (bits % 64 + 0x80)).toNat = bits % 64 + 0x80 := by
  rw [UInt8.toNat_ofNat']
  exact Nat.mod_eq_of_lt (by omega)

theorem readFurther_continuation (code used further bits : Nat) (rest : Bytes) :
    readFurther code used (further + 1) (UInt8.ofNat (bits % 64 + 0x80) :: rest) =
      readFurther (code * 64 + bits % 64) (used + 1) further rest := by
  have hcont : isContinuation (UInt8.ofNat (bits % 64 + 0x80)) = true := by
    simp only [isContinuation, Bool.and_eq_true, decide_eq_true_eq, UInt8.le_iff_toNat_le,
      toNat_continuation]
    exact ⟨by simp, by simp; omega⟩
  rw [readFurther, if_pos hcont, toNat_continuation, Nat.add_sub_cancel]

theorem readChar_of_lead {b : UInt8} {lead : Lead} (hb : lead? b = some lead) {bits : Nat}
    (hleast : lead.least.toNat ≤ bits % 64 + 0x80) (hmost : bits % 64 + 0x80 ≤ lead.most.toNat)
    (rest : Bytes) :
    readChar b (UInt8.ofNat (bits % 64 + 0x80) :: rest) =
      readFurther (lead.payload * 64 + bits % 64) 1 lead.further rest := by
  have hlong : ¬b < 0x80 := by
    intro hshort
    have hnone : lead? b = none := by
      rw [lead?, if_pos (UInt8.lt_trans hshort (by decide))]
    rw [hnone] at hb
    cases hb
  unfold readChar
  rw [if_neg hlong]
  simp only [hb, UInt8.le_iff_toNat_le, toNat_continuation, hleast, hmost, decide_true,
    Bool.and_self, if_true, Nat.add_sub_cancel]

theorem readChar_one {v : Nat} (h : v ≤ 0x7F) (rest : Bytes) :
    readChar (UInt8.ofNat v) rest = (Char.ofNat v, 0) := by
  have hv : (UInt8.ofNat v).toNat = v := by
    rw [UInt8.toNat_ofNat']
    exact Nat.mod_eq_of_lt (by omega)
  have hshort : UInt8.ofNat v < 0x80 := by
    rw [UInt8.lt_iff_toNat_lt, hv]
    simp
    omega
  unfold readChar
  rw [if_pos hshort, hv]

theorem readChar_two {v : Nat} (hlow : 0x7F < v) (hhigh : v ≤ 0x7FF) (rest : Bytes) :
    readChar (UInt8.ofNat (v / 64 % 32 + 0xC0)) (UInt8.ofNat (v % 64 + 0x80) :: rest) =
      (Char.ofNat v, 1) := by
  have hlead := lead?_two (v / 64 % 32) (by omega) (by omega)
  have hcode : v / 64 % 32 * 64 + v % 64 = v := by omega
  rw [readChar_of_lead hlead (by simp) (by simp; omega), readFurther, hcode]

theorem readChar_three {v : Nat} (hlow : 0x7FF < v) (hhigh : v ≤ 0xFFFF)
    (hvalid : v < 0xD800 ∨ 0xDFFF < v) (rest : Bytes) :
    readChar (UInt8.ofNat (v / 4096 % 16 + 0xE0))
      (UInt8.ofNat (v / 64 % 64 + 0x80) :: UInt8.ofNat (v % 64 + 0x80) :: rest) =
        (Char.ofNat v, 2) := by
  have hlead := lead?_three (v / 4096 % 16) (by omega)
  have hcode : (v / 4096 % 16 * 64 + v / 64 % 64) * 64 + v % 64 = v := by omega
  have hleast : (if v / 4096 % 16 = 0 then 0xA0 else 0x80 : UInt8).toNat ≤
      v / 64 % 64 + 0x80 := by
    split
    · simp
      omega
    · simp
  -- no character lies between 0xD800 and 0xDFFF
  have hmost : v / 64 % 64 + 0x80 ≤ (if v / 4096 % 16 = 13 then 0x9F else 0xBF : UInt8).toNat := by
    split
    · simp
      omega
    · simp
      omega
  rw [readChar_of_lead hlead hleast hmost, readFurther_continuation, readFurther, hcode]

theorem readChar_four {v : Nat} (hlow : 0xFFFF < v) (hhigh : v < 0x110000) (rest : Bytes) :
    readChar (UInt8.ofNat (v / 262144 % 8 + 0xF0))
      (UInt8.ofNat (v / 4096 % 64 + 0x80) :: UInt8.ofNat (v / 64 % 64 + 0x80) ::
        UInt8.ofNat (v % 64 + 0x80) :: rest) = (Char.ofNat v, 3) := by
  have hlead := lead?_four (v / 262144 % 8) (by omega)
  have hcode : ((v / 262144 % 8 * 64 + v / 4096 % 64) * 64 + v / 64 % 64) * 64 + v % 64 = v := by
    omega
  have hleast : (if v / 262144 % 8 = 0 then 0x90 else 0x80 : UInt8).toNat ≤
      v / 4096 % 64 + 0x80 := by
    split
    · simp
      omega
    · simp
  have hmost : v / 4096 % 64 + 0x80 ≤
      (if v / 262144 % 8 = 4 then 0x8F else 0xBF : UInt8).toNat := by
    split
    · simp
      omega
    · simp
      omega
  rw [readChar_of_lead hlead hleast hmost, readFurther_continuation, readFurther_continuation,
    readFurther, hcode]

/-- A character is read from its bytes, whatever comes behind them. -/
theorem readChar_utf8EncodeChar (c : Char) : ∃ b tail, String.utf8EncodeChar c = b :: tail ∧
    ∀ rest, readChar b (tail ++ rest) = (c, tail.length) := by
  have hvalid : c.toNat < 0xD800 ∨ 0xDFFF < c.toNat ∧ c.toNat < 0x110000 := c.valid
  have hback : Char.ofNat c.toNat = c := Char.ofNat_toNat c
  have hsize : c.val.toNat = c.toNat := rfl
  simp only [String.utf8EncodeChar, hsize]
  generalize c.toNat = v at hvalid hback ⊢
  subst hback
  split
  · next hone => exact ⟨_, _, rfl, readChar_one hone⟩
  · split
    · next hone htwo => exact ⟨_, _, rfl, readChar_two (by omega) htwo⟩
    · split
      · next htwo hthree => exact ⟨_, _, rfl, readChar_three (by omega) hthree (by omega)⟩
      · exact ⟨_, _, rfl, readChar_four (by omega) (by omega)⟩

/-- A byte below `0x80` stands for its character and for nothing else. -/
theorem toNat_eq_of_mem {c : Char} {b : UInt8} (hb : b < 0x80) (h : b ∈ String.utf8EncodeChar c) :
    c.toNat = b.toNat := by
  have hhigh {bits base : Nat} (hbase : 0x80 ≤ base) (hbits : bits + base < 256) :
      b ≠ UInt8.ofNat (bits + base) := by
    rintro rfl
    rw [UInt8.lt_iff_toNat_lt, UInt8.toNat_ofNat', Nat.mod_eq_of_lt hbits] at hb
    exact absurd hb (by simp; omega)
  have hsize : c.val.toNat = c.toNat := rfl
  simp only [String.utf8EncodeChar, hsize] at h
  split at h
  · obtain rfl := List.mem_singleton.mp h
    rw [UInt8.toNat_ofNat']
    exact (Nat.mod_eq_of_lt (by omega)).symm
  · exfalso
    split at h
    · simp only [List.mem_cons, List.not_mem_nil, or_false] at h
      rcases h with h | h <;> exact hhigh (by omega) (by omega) h
    · split at h
      · simp only [List.mem_cons, List.not_mem_nil, or_false] at h
        rcases h with h | h | h <;> exact hhigh (by omega) (by omega) h
      · simp only [List.mem_cons, List.not_mem_nil, or_false] at h
        rcases h with h | h | h | h <;> exact hhigh (by omega) (by omega) h

/-! ## Texts -/

theorem encode_append (a b : List Char) : encode (a ++ b) = encode a ++ encode b :=
  List.flatMap_append

/-- Text is read back as it was written. -/
theorem decode_encode (text : List Char) : decode (encode text) = text := by
  induction text with
  | nil => rfl
  | cons c text ih =>
    obtain ⟨b, tail, hbytes, hread⟩ := readChar_utf8EncodeChar c
    rw [encode, List.flatMap_cons, ← encode, hbytes, List.cons_append, decode_cons, hread,
      List.drop_left, ih]

/-- A byte below `0x80` is in a text only as its character. -/
theorem mem_of_mem_encode {text : List Char} {b : UInt8} {c : Char} (hb : b < 0x80)
    (hc : c.toNat = b.toNat) (h : b ∈ encode text) : c ∈ text := by
  obtain ⟨x, hx, hbytes⟩ := List.mem_flatMap.mp h
  rwa [← Char.toNat_inj.mp ((toNat_eq_of_mem hb hbytes).trans hc.symm)]

theorem getLast?_of_suffix_encode {text : List Char} {b : UInt8} {c : Char} (hb : b < 0x80)
    (hc : c.toNat = b.toNat) (h : [b] <:+ encode text) : text.getLast? = some c := by
  rcases List.eq_nil_or_concat text with rfl | ⟨init, x, rfl⟩
  · exact absurd (List.suffix_nil.mp h) (by simp)
  · have hne : encode [x] ≠ [] := by simp [encode, String.utf8EncodeChar_ne_nil]
    rw [List.concat_eq_append, encode_append] at h
    have hlast : [b] <:+ encode [x] :=
      List.suffix_of_suffix_length_le h (List.suffix_append ..) (List.length_pos_iff.mpr hne)
    have hx := mem_of_mem_encode hb hc (hlast.subset (List.mem_singleton_self b))
    rw [List.concat_eq_append, List.getLast?_concat, List.mem_singleton.mp hx]

end Text

end Multipart

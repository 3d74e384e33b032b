import Mathlib.Data.List.Basic
import Multipart.InputBuffer
import Multipart.PartHeader
import Multipart.Proofs.HeaderText
import Multipart.Proofs.Reading
import Multipart.Proofs.Search
import Multipart.Proofs.Utf8

/-!
# Slices that are in range

Lines, delimiters and attributes can be looked for by place: a byte is searched, and
what lies in front of it is sliced off. Here every such slice and every difference
of lengths is checked, and one that is out of range is a `Fault`. None is: lines
(`Checked.line_eq`), the delimiter (`Checked.find_eq`) and header lines
(`Checked.header_eq`) come to what they are without places.
-/

namespace Multipart

/-- Why a request that counts bytes cannot be met. -/
inductive Fault where
  /-- A slice reaches beyond its bytes, or into the middle of a character. -/
  | range
  /-- A difference is negative. -/
  | difference
  | buffer (fault : InputBuffer.Fault)
  deriving DecidableEq, Repr

namespace Checked

/-- The bytes from one place up to another. -/
def slice (bytes : Bytes) (start stop : Nat) : Except Fault Bytes :=
  if start ≤ stop ∧ stop ≤ bytes.length then .ok ((bytes.take stop).drop start)
  else .error .range

def minus (a b : Nat) : Except Fault Nat := if b ≤ a then .ok (a - b) else .error .difference

theorem slice_of_le {bytes : Bytes} {start stop : Nat} (hstart : start ≤ stop)
    (hstop : stop ≤ bytes.length) : slice bytes start stop = .ok ((bytes.take stop).drop start) :=
  if_pos ⟨hstart, hstop⟩

theorem minus_of_le {a b : Nat} (h : b ≤ a) : minus a b = .ok (a - b) := if_pos h

/-! ## Lines -/

/-- Cuts a line off at its line feed. -/
def line (maxLength : Nat) (atEnd : Bool) (window : Bytes) : Except Fault Line :=
  match window.idxOf? Bytes.lf with
  | some place => do
    let content ← slice window 0 place
    if content.length > maxLength then .ok .tooLong
    else .ok (.whole (Bytes.dropCr content) (place + 1))
  | none =>
    if atEnd && !window.isEmpty then
      if window.length > maxLength then .ok .tooLong
      else .ok (.whole (Bytes.dropCr window) window.length)
    else if window.length > maxLength then .ok .tooLong
    else .ok .incomplete

/-- A byte that was found has itself behind it and not in front of it. -/
theorem split_of_idxOf? {b : UInt8} {bytes : Bytes} {place : Nat}
    (h : bytes.idxOf? b = some place) :
    place < bytes.length ∧ bytes = bytes.take place ++ b :: bytes.drop (place + 1) ∧
      b ∉ bytes.take place := by
  obtain ⟨hlt, hat, hfirst⟩ := List.idxOf?_eq_some_iff.mp h
  refine ⟨hlt, ?_, ?_⟩
  · rw [← hat, ← List.drop_eq_getElem_cons hlt, List.take_append_drop]
  · intro hmem
    obtain ⟨j, hj, hb⟩ := List.mem_iff_getElem.mp hmem
    rw [List.getElem_take] at hb
    rw [List.length_take] at hj
    exact hfirst j (by omega) hb

theorem line_eq (maxLength : Nat) (atEnd : Bool) (window : Bytes) :
    line maxLength atEnd window = .ok (Line.next maxLength atEnd window) := by
  rw [line, Line.next]
  cases hfound : window.idxOf? Bytes.lf with
  | some place =>
    obtain ⟨hlt, hsplit, hfree⟩ := split_of_idxOf? hfound
    have hbody : Line.body window = window.take place := by
      rw [hsplit, Line.body_append_lf hfree, ← hsplit]
    have hend : Line.isTerminated window = true := by
      rw [hsplit]
      exact Line.isTerminated_append_lf hfree _
    have hlength : (window.take place).length = place := by
      rw [List.length_take]
      omega
    simp only [slice_of_le (Nat.zero_le _) (Nat.le_of_lt hlt), bind, Except.bind, List.drop_zero,
      hbody, hend, hlength, if_true]
    split <;> rfl
  | none =>
    have hfree := List.idxOf?_eq_none_iff.mp hfound
    have hend := Line.isTerminated_of_not_mem hfree
    rw [Line.body_eq_self hend, hend]
    dsimp only
    split
    · split <;> rfl
    · split <;> rfl

/-! ## Delimiters -/

/-- Looks for the marker from `pos` on, at places in front of `stop` only. Places
where its first byte does not stand are passed over. -/
def scan (first : UInt8) (marker window : Bytes) (stop pos : Nat) : Except Fault (Option Nat) :=
  if pos < stop then
    match slice window pos stop with
    | .error fault => .error fault
    | .ok ahead =>
      match ahead.idxOf? first with
      | none => .ok none
      | some offset =>
        match slice window (pos + offset) (pos + offset + marker.length) with
        | .error fault => .error fault
        | .ok candidate =>
          if candidate = marker then .ok (some (pos + offset))
          else scan first marker window stop (pos + offset + 1)
  else .ok none
termination_by stop - pos
decreasing_by omega

/-- The leftmost place where the marker stands. -/
def find (window marker : Bytes) : Except Fault (Option Nat) :=
  match marker with
  | [] => .ok none
  | first :: _ =>
    if window.length < marker.length then .ok none
    else do
      let last ← minus window.length marker.length
      scan first marker window (last + 1) 0

theorem head_of_occursAt {first : UInt8} {tail window : Bytes} {place : Nat}
    (h : Delimiter.OccursAt (first :: tail) window place) : window[place]? = some first := by
  obtain ⟨rest, hrest⟩ := h
  rw [← List.head?_drop, ← hrest]
  rfl

theorem slice_eq_iff {marker window : Bytes} {place : Nat} :
    (window.take (place + marker.length)).drop place = marker ↔
      Delimiter.OccursAt marker window place := by
  rw [List.drop_take, Nat.add_sub_cancel_left, Delimiter.OccursAt, List.prefix_iff_eq_take]
  exact eq_comm

/-- Where the first byte was not found, no marker stands either. -/
theorem not_occursAt_of_passed {first : UInt8} {tail window ahead : Bytes} {stop pos n : Nat}
    (hahead : (window.take stop).drop pos = ahead) (hfree : first ∉ ahead.take n)
    (hn : pos + n ≤ stop)
    (hpassed : ∀ place < pos, ¬Delimiter.OccursAt (first :: tail) window place) :
    ∀ place < pos + n, ¬Delimiter.OccursAt (first :: tail) window place := by
  intro place hplace hocc
  rcases Nat.lt_or_ge place pos with hbefore | hpos
  · exact hpassed place hbefore hocc
  · refine hfree (List.mem_iff_getElem?.mpr ⟨place - pos, ?_⟩)
    rw [List.getElem?_take_of_lt (by omega), ← hahead, List.getElem?_drop,
      Nat.add_sub_cancel' hpos, List.getElem?_take_of_lt (by omega)]
    exact head_of_occursAt hocc

theorem scan_eq {first : UInt8} {tail window : Bytes} {stop pos : Nat}
    (hstop : stop + (first :: tail).length = window.length + 1)
    (hpassed : ∀ place < pos, ¬Delimiter.OccursAt (first :: tail) window place) :
    scan first (first :: tail) window stop pos =
      .ok (Delimiter.find? window (first :: tail)) := by
  have hpos : 0 < (first :: tail).length := Nat.succ_pos _
  have hnowhere (h : ∀ place < stop, ¬Delimiter.OccursAt (first :: tail) window place) :
      Delimiter.find? window (first :: tail) = none := by
    refine Delimiter.find?_eq_none_iff.mpr (.inr fun place hocc => h place ?_ hocc)
    have hfit := hocc.add_length_le nofun
    omega
  have hahead {pos : Nat} {result : Except Fault Bytes} (hlt : pos < stop)
      (h : slice window pos stop = result) : result = .ok ((window.take stop).drop pos) :=
    h.symm.trans (slice_of_le (Nat.le_of_lt hlt) (by omega))
  have hlength (pos : Nat) : ((window.take stop).drop pos).length = stop - pos := by
    rw [List.length_drop, List.length_take]
    omega
  fun_induction scan first (first :: tail) window stop pos with
  | case1 pos hlt fault hslice => cases hahead hlt hslice
  | case2 pos hlt ahead hslice hnone =>
    obtain rfl := Except.ok.inj (hahead hlt hslice)
    rw [hnowhere fun place hplace => ?_]
    refine not_occursAt_of_passed rfl ?_ (Nat.le_of_eq (Nat.add_sub_cancel' (Nat.le_of_lt hlt)))
      hpassed place (by omega)
    exact fun hmem => List.idxOf?_eq_none_iff.mp hnone (List.mem_of_mem_take hmem)
  | case3 pos hlt ahead hslice offset hfound fault hcandidate =>
    obtain rfl := Except.ok.inj (hahead hlt hslice)
    have hoffset := (split_of_idxOf? hfound).1
    rw [hlength] at hoffset
    rw [slice_of_le (Nat.le_add_right ..) (by omega)] at hcandidate
    cases hcandidate
  | case4 pos hlt ahead hslice offset hfound hcandidate =>
    obtain rfl := Except.ok.inj (hahead hlt hslice)
    obtain ⟨hoffset, -, hfree⟩ := split_of_idxOf? hfound
    rw [hlength] at hoffset
    rw [slice_of_le (Nat.le_add_right ..) (by omega)] at hcandidate
    have hocc := slice_eq_iff.mp (Except.ok.inj hcandidate)
    have hfirst := not_occursAt_of_passed rfl hfree (by omega) hpassed
    rw [Delimiter.find?_eq_some_iff.mpr ⟨List.cons_ne_nil _ _, hocc, hfirst⟩]
  | case5 pos hlt ahead hslice offset hfound candidate hcandidate hne ih =>
    obtain rfl := Except.ok.inj (hahead hlt hslice)
    obtain ⟨hoffset, -, hfree⟩ := split_of_idxOf? hfound
    rw [hlength] at hoffset
    rw [slice_of_le (Nat.le_add_right ..) (by omega)] at hcandidate
    refine ih fun place hplace => ?_
    rcases Nat.lt_or_eq_of_le (Nat.le_of_lt_succ hplace) with hbefore | rfl
    · exact not_occursAt_of_passed rfl hfree (by omega) hpassed place hbefore
    · intro hocc
      exact hne ((Except.ok.inj hcandidate).symm.trans (slice_eq_iff.mpr hocc))
  | case6 pos hge => rw [hnowhere fun place hplace => hpassed place (by omega)]

theorem find_eq (window marker : Bytes) :
    find window marker = .ok (Delimiter.find? window marker) := by
  cases marker with
  | nil => rfl
  | cons first tail =>
    rw [find]
    split
    · next hshort =>
      have hnone : Delimiter.find? window (first :: tail) = none := by
        refine Delimiter.find?_eq_none_iff.mpr (.inr fun place hocc => ?_)
        have hfit := hocc.add_length_le nofun
        omega
      rw [hnone]
    · next hlong =>
      have hle := Nat.le_of_not_lt hlong
      simp only [minus_of_le hle, bind, Except.bind]
      exact scan_eq (by omega) nofun

/-! ## Attributes -/

def quote : UInt8 := 34

def semicolon : UInt8 := 59

/-- How many bytes stand in front of the first semicolon outside quotes. `inQuotes`
says whether the text starts inside. -/
def attributeEnd (inQuotes : Bool) : Bytes → Nat
  | [] => 0
  | b :: rest =>
    if b = quote then attributeEnd (!inQuotes) rest + 1
    else if b = semicolon ∧ inQuotes = false then 0
    else attributeEnd inQuotes rest + 1

/-- Cuts a text behind so many bytes. -/
def cutText : Nat → List Char → Except Fault (List Char × List Char)
  | 0, text => .ok ([], text)
  | _ + 1, [] => .error .range
  | n + 1, c :: text =>
    if (String.utf8EncodeChar c).length ≤ n + 1 then do
      let (front, back) ← cutText (n + 1 - (String.utf8EncodeChar c).length) text
      .ok (c :: front, back)
    else .error .range

theorem append_of_cutText {n : Nat} {text front back : List Char}
    (h : cutText n text = .ok (front, back)) : front ++ back = text := by
  fun_induction cutText n text generalizing front with
  | case1 text =>
    cases h
    rfl
  | case2 => cases h
  | case3 n c text hfits ih =>
    cases hrest : cutText (n + 1 - (String.utf8EncodeChar c).length) text with
    | error fault =>
      rw [hrest] at h
      cases h
    | ok cut =>
      rw [hrest] at h
      cases h
      exact congrArg (c :: ·) (ih hrest)
  | case4 => cases h

theorem cutText_append (front back : List Char) :
    cutText (Text.encode front).length (front ++ back) = .ok (front, back) := by
  induction front with
  | nil => rw [Text.encode, List.flatMap_nil, List.length_nil, cutText, List.nil_append]
  | cons c front ih =>
    have hlength : (Text.encode (c :: front)).length =
        (String.utf8EncodeChar c).length + (Text.encode front).length := by
      rw [Text.encode, List.flatMap_cons, List.length_append]
      rfl
    have hpos := List.length_pos_iff.mpr (String.utf8EncodeChar_ne_nil (c := c))
    obtain ⟨n, hn⟩ : ∃ n, (Text.encode (c :: front)).length = n + 1 :=
      Nat.exists_eq_succ_of_ne_zero (by omega)
    rw [hn, List.cons_append, cutText, if_pos (by omega),
      show n + 1 - (String.utf8EncodeChar c).length = (Text.encode front).length by omega, ih]
    rfl

/-- Reads a list of attributes from the front, each up to its end. -/
def attributes (text : List Char) : Except Fault (List Attribute) :=
  if text.isEmpty then .ok []
  else
    match _cut : cutText (attributeEnd false (Text.encode text)) text with
    | .error fault => .error fault
    | .ok (piece, rest) => do
      let later ← attributes (rest.drop 1)
      .ok ((Attribute.ofPiece? piece).toList ++ later)
termination_by text.length
decreasing_by
  have hlength := congrArg List.length (append_of_cutText _cut)
  have hne : 0 < text.length := List.length_pos_iff.mpr (by simp_all)
  rw [List.length_append] at hlength
  rw [List.length_drop]
  omega

theorem attributeEnd_append {bytes : Bytes} {inQuotes : Bool}
    (h : ∀ b ∈ bytes, b ≠ quote ∧ ¬(b = semicolon ∧ inQuotes = false)) (rest : Bytes) :
    attributeEnd inQuotes (bytes ++ rest) = bytes.length + attributeEnd inQuotes rest := by
  induction bytes with
  | nil => exact (Nat.zero_add _).symm
  | cons b bytes ih =>
    obtain ⟨hb, hbytes⟩ := List.forall_mem_cons.mp h
    rw [List.cons_append, attributeEnd, if_neg hb.1, if_neg hb.2, ih hbytes, List.length_cons]
    omega

/-- The end of an attribute lies between two characters, in front of a semicolon or at
the end of the text. -/
theorem exists_piece (inQuotes : Bool) (text : List Char) :
    ∃ piece rest, text = piece ++ rest ∧
      attributeEnd inQuotes (Text.encode text) = (Text.encode piece).length ∧
      Attribute.pieces inQuotes text =
        piece :: match rest with | [] => [] | _ :: later => Attribute.pieces false later := by
  induction text generalizing inQuotes with
  | nil => exact ⟨[], [], rfl, rfl, rfl⟩
  | cons c text ih =>
    have hencode (piece : List Char) :
        Text.encode (c :: piece) = String.utf8EncodeChar c ++ Text.encode piece := rfl
    by_cases hend : c = ';' ∧ inQuotes = false
    · obtain ⟨rfl, rfl⟩ := hend
      exact ⟨[], ';' :: text, rfl, rfl, rfl⟩
    · obtain ⟨piece, rest, rfl, hlength, hpieces⟩ := ih (if c = '"' then !inQuotes else inQuotes)
      refine ⟨c :: piece, rest, rfl, ?_, Attribute.pieces_cons hend hpieces⟩
      rw [hencode, hencode, List.length_append, ← hlength]
      by_cases hquote : c = '"'
      · subst hquote
        rw [if_pos rfl]
        exact Nat.add_comm ..
      · rw [if_neg hquote]
        refine attributeEnd_append (fun b hb => ⟨?_, ?_⟩) _
        · rintro rfl
          exact hquote (Char.toNat_inj.mp (Text.toNat_eq_of_mem (by decide) hb))
        · rintro ⟨rfl, hfalse⟩
          exact hend ⟨Char.toNat_inj.mp (Text.toNat_eq_of_mem (by decide) hb), hfalse⟩

theorem attributes_eq (text : List Char) : attributes text = .ok (Attribute.parseAll text) := by
  fun_induction attributes text with
  | case1 text hempty =>
    rw [List.isEmpty_iff.mp hempty]
    rfl
  | case2 text hne fault hcut =>
    obtain ⟨piece, rest, rfl, hend, -⟩ := exists_piece false text
    rw [hend, cutText_append] at hcut
    cases hcut
  | case3 text hne piece rest hcut ih =>
    obtain ⟨piece', rest', rfl, hend, hpieces⟩ := exists_piece false text
    rw [hend, cutText_append] at hcut
    cases hcut
    have hall : Attribute.parseAll (piece ++ rest) =
        (Attribute.ofPiece? piece).toList ++ Attribute.parseAll (rest.drop 1) := by
      rw [Attribute.parseAll, hpieces, List.filterMap_cons]
      cases rest <;> cases Attribute.ofPiece? piece <;> rfl
    rw [ih, hall]
    rfl

/-- Reads a header line. -/
def header (line : List Char) : Except Fault PartHeader :=
  match Text.cutAt? ':' line with
  | none => .ok .other
  | some (name, value) =>
    if Text.sameLetters (Text.trim name) PartHeader.dispositionName then do
      let attributes ← attributes (Text.trim value)
      .ok (.disposition attributes)
    else if Text.sameLetters (Text.trim name) PartHeader.contentTypeName then
      .ok (.contentType (Text.trim value))
    else .ok .other

theorem header_eq (line : List Char) : header line = .ok (PartHeader.parse line) := by
  rw [header, PartHeader.parse]
  cases Text.cutAt? ':' line with
  | none => rfl
  | some cut =>
    simp only [attributes_eq, bind, Except.bind]
    split
    · rfl
    · split <;> rfl

end Checked

end Multipart

import Multipart.Proofs.Slices

/-!
# Looking for a delimiter by its first byte

A delimiter is looked for by its first byte: a search for one byte finds the next place
where it stands, and only there the whole delimiter is compared. The search for a byte can
be any that gives the first place of the byte, if there is one (`ByteSearch.IsExact`). The
loop around it ends, slices nothing out of range, and gives the least place at which the
delimiter stands, if there is one, also if a delimiter overlaps with itself or ends where
the window does.

The main statement is `Checked.findWith_leftmost`.
-/

namespace Multipart

/-- A way to look for a byte. -/
abbrev ByteSearch := UInt8 → Bytes → Option Nat

namespace ByteSearch

/-- The first place of the byte is found, if it stands anywhere. -/
def IsExact (search : ByteSearch) : Prop :=
  ∀ b bytes,
    match search b bytes with
    | some place => bytes[place]? = some b ∧ ∀ earlier < place, bytes[earlier]? ≠ some b
    | none => b ∉ bytes

/-- All ways to find the first place are the same. -/
theorem IsExact.eq_idxOf? {search : ByteSearch} (h : search.IsExact) :
    search = fun b bytes => bytes.idxOf? b := by
  funext b bytes
  have hexact := h b bytes
  split at hexact
  · next place hplace =>
    obtain ⟨hat, hfirst⟩ := hexact
    obtain ⟨hlt, hb⟩ := List.getElem?_eq_some_iff.mp hat
    rw [hplace, eq_comm, List.idxOf?_eq_some_iff]
    refine ⟨hlt, hb, fun earlier hearlier heq => hfirst earlier hearlier ?_⟩
    rw [List.getElem?_eq_getElem (Nat.lt_trans hearlier hlt), heq]
  · next hnone => rw [hnone, List.idxOf?_eq_none_iff.mpr hexact]

theorem isExact_idxOf? : IsExact fun b bytes => bytes.idxOf? b := by
  intro b bytes
  dsimp only
  split
  · next place hplace =>
    obtain ⟨hlt, hat, hfirst⟩ := List.idxOf?_eq_some_iff.mp hplace
    refine ⟨List.getElem?_eq_some_iff.mpr ⟨hlt, hat⟩, fun earlier hearlier heq => ?_⟩
    obtain ⟨_, hb⟩ := List.getElem?_eq_some_iff.mp heq
    exact hfirst earlier hearlier hb
  · next hnone => exact List.idxOf?_eq_none_iff.mp hnone

end ByteSearch

namespace Checked

variable (search : ByteSearch)

/-- Looks for the marker from `pos` on, at places in front of `stop` only. The search for
its first byte says which place to compare next. -/
def scanWith (first : UInt8) (marker window : Bytes) (stop pos : Nat) :
    Except Fault (Option Nat) :=
  if pos < stop then
    match slice window pos stop with
    | .error fault => .error fault
    | .ok ahead =>
      match search first ahead with
      | none => .ok none
      | some offset =>
        match slice window (pos + offset) (pos + offset + marker.length) with
        | .error fault => .error fault
        | .ok candidate =>
          if candidate = marker then .ok (some (pos + offset))
          else scanWith first marker window stop (pos + offset + 1)
  else .ok none
termination_by stop - pos
decreasing_by omega

/-- The leftmost place where the marker stands. -/
def findWith (window marker : Bytes) : Except Fault (Option Nat) :=
  match marker with
  | [] => .ok none
  | first :: _ =>
    if window.length < marker.length then .ok none
    else do
      let last ← minus window.length marker.length
      scanWith search first marker window (last + 1) 0

theorem scanWith_idxOf? (first : UInt8) (marker window : Bytes) (stop pos : Nat) :
    scanWith (fun b bytes => bytes.idxOf? b) first marker window stop pos =
      scan first marker window stop pos := by
  fun_induction scan first marker window stop pos with
  | case1 pos hlt fault hslice =>
    rw [scanWith, if_pos hlt]
    simp only [hslice]
  | case2 pos hlt ahead hslice hnone =>
    rw [scanWith, if_pos hlt]
    simp only [hslice, hnone]
  | case3 pos hlt ahead hslice offset hfound fault hcandidate =>
    rw [scanWith, if_pos hlt]
    simp only [hslice, hfound, hcandidate]
  | case4 pos hlt ahead hslice offset hfound hcandidate =>
    rw [scanWith, if_pos hlt]
    simp only [hslice, hfound, hcandidate, if_true]
  | case5 pos hlt ahead hslice offset hfound candidate hcandidate hne ih =>
    rw [scanWith, if_pos hlt]
    simp only [hslice, hfound, hcandidate, if_neg hne, ih]
  | case6 pos hge => rw [scanWith, if_neg hge]

variable {search : ByteSearch}

/-- However the first byte is looked for, the same delimiter is found. -/
theorem findWith_eq (h : search.IsExact) (window marker : Bytes) :
    findWith search window marker = .ok (Delimiter.find? window marker) := by
  rw [← find_eq, h.eq_idxOf?]
  cases marker with
  | nil => rfl
  | cons first tail => simp only [findWith, find, scanWith_idxOf?]

/-- A slice is the marker where the marker stands, and is in range there. -/
theorem slice_eq_ok_iff {marker window : Bytes} (hm : marker ≠ []) {place : Nat} :
    slice window place (place + marker.length) = .ok marker ↔
      Delimiter.OccursAt marker window place := by
  constructor
  · intro h
    rw [slice] at h
    split at h
    · exact slice_eq_iff.mp (Except.ok.inj h)
    · cases h
  · intro hocc
    rw [slice_of_le (Nat.le_add_right ..) (hocc.add_length_le hm), slice_eq_iff.mpr hocc]

/-- The search for a delimiter by its first byte. With any search that finds the first place
of a byte, it stays in range and comes to an end. It gives a place exactly when the marker is
not empty and the bytes from there on are the marker, as at no earlier place; and it gives
none exactly when the marker is empty or stands nowhere. This is the search of the decoder. -/
theorem findWith_leftmost (h : search.IsExact) (window marker : Bytes) :
    (∀ place, findWith search window marker = .ok (some place) ↔
      marker ≠ [] ∧ slice window place (place + marker.length) = .ok marker ∧
        ∀ earlier < place, slice window earlier (earlier + marker.length) ≠ .ok marker) ∧
    (findWith search window marker = .ok none ↔
      marker = [] ∨ ∀ place, slice window place (place + marker.length) ≠ .ok marker) ∧
    findWith search window marker = .ok (Delimiter.find? window marker) := by
  have hfind := findWith_eq h window marker
  refine ⟨fun place => ?_, ?_, hfind⟩
  · rw [hfind, Except.ok.injEq, Delimiter.find?_eq_some_iff, Delimiter.Leftmost]
    refine and_congr_right fun hm => ?_
    simp only [Ne, slice_eq_ok_iff hm]
  · rw [hfind, Except.ok.injEq, Delimiter.find?_eq_none_iff]
    refine or_congr_right' fun hm => ?_
    simp only [Ne, slice_eq_ok_iff hm]

/-- A delimiter at the end of a window, behind a hyphen with which another could start; and
a window in which all bytes but the last one match. -/
theorem findWith_leftmost_of_hyphens :
    let search : ByteSearch := fun b bytes => bytes.idxOf? b
    let marker := Text.toBytes "----X"
    search.IsExact ∧ findWith search (Text.toBytes "-----X") marker = .ok (some 1) ∧
      findWith search (Text.toBytes "-----Y") marker = .ok none := by
  intro search marker
  have hexact : search.IsExact := ByteSearch.isExact_idxOf?
  obtain ⟨hplace, -, -⟩ := findWith_leftmost hexact (Text.toBytes "-----X") marker
  obtain ⟨-, -, hfind⟩ := findWith_leftmost hexact (Text.toBytes "-----Y") marker
  refine ⟨hexact, (hplace 1).mpr ⟨by decide +kernel, by decide +kernel, ?_⟩, ?_⟩
  · decide +kernel
  · rw [hfind]
    decide +kernel

end Checked

end Multipart

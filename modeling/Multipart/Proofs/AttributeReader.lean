import Multipart.Proofs.Separators
import Multipart.Proofs.Slices

/-!
# Attributes one by one

A reader of attributes is asked for one after the other and keeps what is left of the text.
It looks for the end of the next one by bytes, without a memory of the quotes in front of the
last cut, slices the text there and goes on behind the semicolon. A slice that ends out of
range, or in the middle of a character, is a `Fault`; behind such a place nothing is left to
read.

No fault is met. One request takes the first attribute and leaves the others
(`Checked.nextAttribute_eq`), so the requests together come to the attributes between the
separators of the text, and then to nothing more (`Checked.nthAttribute_eq`).
-/

namespace Multipart

open Attribute (betweenSeparators induction_on_separators ofPiece? parseAll pieces separators)

namespace Checked

/-! ## Places in a text -/

/-- A place, in bytes from the start, between two characters or at an end. -/
def IsBoundary (text : List Char) (place : Nat) : Prop :=
  ∃ front, front <+: text ∧ (Text.encode front).length = place

theorem length_of_cutText {n : Nat} {text front back : List Char}
    (h : cutText n text = .ok (front, back)) : (Text.encode front).length = n := by
  fun_induction cutText n text generalizing front with
  | case1 text =>
    cases h
    rfl
  | case2 => cases h
  | case3 n c text hfits ih =>
    cases hrest : cutText (n + 1 - (String.utf8EncodeChar c).length) text with
    | error fault =>
      rw [hrest] at h
      cases h
    | ok cut =>
      rw [hrest] at h
      cases h
      have hlength := ih hrest
      rw [Text.encode, List.flatMap_cons, List.length_append, ← Text.encode, hlength]
      omega
  | case4 => cases h

/-- A text can be cut at its boundaries. -/
theorem cutText_eq_ok_iff {n : Nat} {text front back : List Char} :
    cutText n text = .ok (front, back) ↔ text = front ++ back ∧ (Text.encode front).length = n := by
  constructor
  · exact fun h => ⟨(append_of_cutText h).symm, length_of_cutText h⟩
  · rintro ⟨rfl, rfl⟩
    exact cutText_append front back

/-- What stands behind so many bytes, if a character ends there. -/
def behind? (n : Nat) (text : List Char) : Option (List Char) :=
  (cutText n text).toOption.map Prod.snd

theorem behind?_eq_some_iff {n : Nat} {text back : List Char} :
    behind? n text = some back ↔ ∃ front, text = front ++ back ∧ (Text.encode front).length = n := by
  simp only [← cutText_eq_ok_iff, behind?]
  cases cutText n text with
  | error fault => simp [Except.toOption]
  | ok cut => simp [Except.toOption, Prod.ext_iff]

/-! ## The reader -/

/-- What stands behind the first cut of a text, if there is one. -/
def afterCut? (text : List Char) : Option (List Char) :=
  behind? (attributeEnd false (Text.encode text) + 1) text

theorem length_lt_of_afterCut? {text later : List Char} (h : afterCut? text = some later) :
    later.length < text.length := by
  obtain ⟨front, rfl, hlength⟩ := behind?_eq_some_iff.mp h
  have hne : front ≠ [] := by
    rintro rfl
    cases hlength
  have hpos := List.length_pos_iff.mpr hne
  rw [List.length_append]
  omega

theorem length_afterCut?_getD_lt {text : List Char} (hne : text ≠ []) :
    ((afterCut? text).getD []).length < text.length := by
  cases h : afterCut? text with
  | none => exact List.length_pos_iff.mpr hne
  | some later => exact length_lt_of_afterCut? h

/-- Reads an attribute off the front of a text, and gives what is left. Pieces that are no
attributes are passed over. -/
def nextAttribute (text : List Char) : Except Fault (Option Attribute × List Char) :=
  if _hempty : text = [] then .ok (none, [])
  else
    match cutText (attributeEnd false (Text.encode text)) text with
    | .error fault => .error fault
    | .ok (piece, _) =>
      match ofPiece? piece with
      | none => nextAttribute ((afterCut? text).getD [])
      | some a => .ok (some a, (afterCut? text).getD [])
termination_by text.length
decreasing_by exact length_afterCut?_getD_lt _hempty

/-- The answer to a request for an attribute after so many others. -/
def nthAttribute : Nat → List Char → Except Fault (Option Attribute)
  | 0, text => do
    let (answer, _) ← nextAttribute text
    .ok answer
  | n + 1, text => do
    let (_, rest) ← nextAttribute text
    nthAttribute n rest

/-- The places where a reader cuts a text, in bytes from its start. It goes on behind each of
them, and reads no further when there is none. -/
def cuts (text : List Char) : List Nat :=
  match _h : afterCut? text with
  | none => []
  | some later =>
    attributeEnd false (Text.encode text) ::
      (cuts later).map (attributeEnd false (Text.encode text) + 1 + ·)
termination_by text.length
decreasing_by exact length_lt_of_afterCut? _h

/-! ## Where it cuts -/

theorem attributeEnd_of_pieces {text piece : List Char} {later : List (List Char)}
    (h : pieces false text = piece :: later) :
    attributeEnd false (Text.encode text) = (Text.encode piece).length := by
  obtain ⟨front, rest, rfl, hend, hpieces⟩ := exists_piece false text
  rw [hpieces] at h
  cases h
  exact hend

theorem afterCut?_of_whole {text : List Char} (h : pieces false text = [text]) :
    afterCut? text = none := by
  rw [afterCut?, attributeEnd_of_pieces h, Option.eq_none_iff_forall_ne_some]
  intro back hback
  obtain ⟨front, hsplit, hlength⟩ := behind?_eq_some_iff.mp hback
  have hfront := congrArg (List.length ∘ Text.encode) hsplit
  simp only [Function.comp_apply, Text.encode_append, List.length_append] at hfront
  omega

theorem afterCut?_of_cut {front later : List Char} {rest : List (List Char)}
    (h : pieces false (front ++ ';' :: later) = front :: rest) :
    afterCut? (front ++ ';' :: later) = some later := by
  rw [afterCut?, attributeEnd_of_pieces h, behind?_eq_some_iff]
  refine ⟨front ++ [';'], by simp, ?_⟩
  rw [Text.encode_append, List.length_append]
  rfl

/-- The cuts are at the separators. -/
theorem cuts_eq (text : List Char) :
    cuts text = (separators text).map fun place => (Text.encode (text.take place)).length := by
  induction text using induction_on_separators with
  | last text hseparators hpieces =>
    rw [cuts, hseparators]
    split
    · rfl
    · next later hafter =>
      rw [afterCut?_of_whole hpieces] at hafter
      cases hafter
  | cut front later hseparators hpieces ih =>
    rw [cuts, hseparators]
    split
    · next hafter =>
      rw [afterCut?_of_cut hpieces] at hafter
      cases hafter
    · next rest hafter =>
      rw [afterCut?_of_cut hpieces] at hafter
      cases hafter
      -- the semicolon is one byte, as it is one character
      have hshift (place : Nat) :
          (Text.encode ((front ++ ';' :: later).take (front.length + 1 + place))).length =
            (Text.encode front).length + 1 + (Text.encode (later.take place)).length := by
        rw [Nat.add_assoc, List.take_length_add_append, Nat.add_comm 1, List.take_succ_cons,
          Text.encode_append, List.length_append, Nat.add_assoc, Nat.add_comm 1]
        rfl
      rw [attributeEnd_of_pieces hpieces, List.map_cons, List.take_left, ih, List.map_map,
        List.map_map]
      simp only [Function.comp_def, hshift]

/-- In front of a separator and behind it, there is a boundary. -/
theorem isBoundary_of_separator {text : List Char} {place : Nat}
    (h : Attribute.IsSeparator text place) :
    let cut := (Text.encode (text.take place)).length
    IsBoundary text cut ∧ IsBoundary text (cut + 1) := by
  intro cut
  refine ⟨⟨_, List.take_prefix .., rfl⟩, text.take (place + 1), List.take_prefix .., ?_⟩
  rw [List.take_add_one, h.1, Text.encode_append, List.length_append]
  rfl

/-! ## What it reads -/

theorem nextAttribute_of_cutText {text piece back : List Char} (hne : text ≠ [])
    (h : cutText (attributeEnd false (Text.encode text)) text = .ok (piece, back)) :
    nextAttribute text =
      match ofPiece? piece with
      | none => nextAttribute ((afterCut? text).getD [])
      | some a => .ok (some a, (afterCut? text).getD []) := by
  rw [nextAttribute, dif_neg hne, h]

/-- One request takes the first of the attributes, if there is one, and leaves the others. -/
theorem nextAttribute_eq (text : List Char) :
    ∃ rest, nextAttribute text = .ok ((parseAll text).head?, rest) ∧
      parseAll rest = (parseAll text).tail := by
  have hnil : nextAttribute [] = .ok (none, []) := by rw [nextAttribute, dif_pos rfl]
  induction text using induction_on_separators with
  | last text hseparators hpieces =>
    by_cases hne : text = []
    · subst hne
      exact ⟨[], hnil, rfl⟩
    · have hcut : cutText (attributeEnd false (Text.encode text)) text = .ok (text, []) := by
        rw [attributeEnd_of_pieces hpieces, cutText_eq_ok_iff]
        exact ⟨(List.append_nil text).symm, rfl⟩
      rw [nextAttribute_of_cutText hne hcut, afterCut?_of_whole hpieces, parseAll, hpieces,
        List.filterMap_cons, List.filterMap_nil]
      cases ofPiece? text with
      | none => exact ⟨[], hnil, rfl⟩
      | some a => exact ⟨[], rfl, rfl⟩
  | cut front later hseparators hpieces ih =>
    have hne : front ++ ';' :: later ≠ [] := by simp
    have hcut : cutText (attributeEnd false (Text.encode (front ++ ';' :: later)))
        (front ++ ';' :: later) = .ok (front, ';' :: later) := by
      rw [attributeEnd_of_pieces hpieces, cutText_append]
    rw [nextAttribute_of_cutText hne hcut, afterCut?_of_cut hpieces, parseAll, hpieces,
      List.filterMap_cons]
    -- a piece that is no attribute leaves the answer to what stands behind it
    cases ofPiece? front with
    | none => exact ih
    | some a => exact ⟨later, rfl, rfl⟩

theorem nthAttribute_eq (n : Nat) (text : List Char) :
    nthAttribute n text = .ok (parseAll text)[n]? := by
  induction n generalizing text with
  | zero =>
    obtain ⟨rest, hnext, -⟩ := nextAttribute_eq text
    rw [nthAttribute, hnext, List.head?_eq_getElem?]
    rfl
  | succ n ih =>
    obtain ⟨rest, hnext, hrest⟩ := nextAttribute_eq text
    rw [nthAttribute, hnext, ← List.getElem?_tail, ← hrest]
    exact ih rest

/-- The attributes of any text are the ones between its separators, the semicolons with an
even number of quotes in front of them. A reader that is asked for them one by one gets them
in order, and nothing from then on; no request meets a fault. It cuts the text at the
separators only and at all of them, and each cut has a boundary in front of it and one behind it. -/
theorem attributes_between_separators (text : List Char) :
    (∀ n, nthAttribute n text = .ok (betweenSeparators text)[n]?) ∧
    parseAll text = betweenSeparators text ∧
    (cuts text = (separators text).map fun place => (Text.encode (text.take place)).length) ∧
    ∀ place ∈ cuts text, IsBoundary text place ∧ IsBoundary text (place + 1) := by
  have hall := Attribute.parseAll_eq_betweenSeparators text
  refine ⟨fun n => ?_, hall, cuts_eq text, fun cut hcut => ?_⟩
  · rw [nthAttribute_eq, hall]
  · rw [cuts_eq] at hcut
    obtain ⟨place, hplace, rfl⟩ := List.mem_map.mp hcut
    exact isBoundary_of_separator (of_decide_eq_true (List.mem_filter.mp hplace).2)

/-- A character of two bytes, an attribute without a token, and a quote that is never closed. -/
theorem attributes_between_separators_of_open_quote :
    let text := "é=\"a;b\"; =c; d\"; e;".toList
    nthAttribute 0 text = .ok (some ⟨['é'], ['a', ';', 'b']⟩) ∧
      nthAttribute 1 text = .ok (some ⟨[], ['c']⟩) ∧
      nthAttribute 2 text = .ok (some ⟨"d\"; e;".toList, []⟩) ∧ nthAttribute 3 text = .ok none ∧
      cuts text = [8, 12] ∧ 8 ∈ cuts text ∧ IsBoundary text 8 ∧ IsBoundary text 9 := by
  intro text
  have hlist : betweenSeparators text =
      [⟨['é'], ['a', ';', 'b']⟩, ⟨[], ['c']⟩, ⟨"d\"; e;".toList, []⟩] := by decide +kernel
  have hplaces : separators text = [7, 11] := by decide +kernel
  obtain ⟨hread, -, hcuts, hboundary⟩ := attributes_between_separators text
  rw [hlist] at hread
  have hbytes : cuts text = [8, 12] := by
    rw [hcuts, hplaces]
    decide +kernel
  have hfirst : 8 ∈ cuts text := by
    rw [hbytes]
    exact List.mem_cons_self ..
  exact ⟨hread 0, hread 1, hread 2, hread 3, hbytes, hfirst, hboundary 8 hfirst⟩

end Checked

end Multipart

import Multipart.Delimiter

/-!
# Searching for a delimiter

`Delimiter.find?` gives the least place at which the marker stands
(`find?_eq_some_iff`), and nothing exactly when it stands nowhere
(`find?_eq_none_iff`). From this follows what more bytes change: a place
that was found stays (`find?_append_of_some`), and where nothing was
found, a later place ends behind the bytes that were searched
(`lt_of_find?_append`). So the bytes in front of the last
`Delimiter.holdback` can be taken off, and the search in the rest gives
the same place (`find?_drop_append`), at least two bytes behind the cut
(`cut_add_two_le`): the CRLF in front of it is still there, and the data
comes out the same (`trimCrlf_take_append`).
-/

namespace Multipart

namespace Delimiter

/-- The marker stands in the window at this place. -/
def OccursAt (marker window : Bytes) (place : Nat) : Prop := marker <+: window.drop place

/-- The marker stands at this place and at none before it. -/
def Leftmost (marker window : Bytes) (place : Nat) : Prop :=
  OccursAt marker window place ∧ ∀ earlier < place, ¬OccursAt marker window earlier

/-! ## Where a marker stands -/

theorem OccursAt.add_length_le {marker window : Bytes} {place : Nat}
    (h : OccursAt marker window place) (hm : marker ≠ []) :
    place + marker.length ≤ window.length := by
  have hle := h.length_le
  have hpos := List.length_pos_iff.mpr hm
  rw [List.length_drop] at hle
  omega

/-- Bytes behind the marker say nothing about where it stands. -/
theorem occursAt_append_iff {marker a b : Bytes} {place : Nat}
    (h : place + marker.length ≤ a.length) :
    OccursAt marker (a ++ b) place ↔ OccursAt marker a place := by
  rw [OccursAt, OccursAt, List.drop_append_of_le_length (by omega)]
  refine ⟨?_, fun hp => hp.trans (List.prefix_append _ _)⟩
  intro hp
  exact List.prefix_of_prefix_length_le hp (List.prefix_append _ _)
    (by rw [List.length_drop]; omega)

/-- Bytes in front of the marker only shift it. -/
theorem occursAt_append_right {marker a b : Bytes} {place : Nat} :
    OccursAt marker (a ++ b) (a.length + place) ↔ OccursAt marker b place := by
  rw [OccursAt, OccursAt, List.drop_length_add_append]

theorem leftmost_append_iff {marker a b : Bytes} {place : Nat}
    (h : place + marker.length ≤ a.length) :
    Leftmost marker (a ++ b) place ↔ Leftmost marker a place := by
  have hsame {p : Nat} (hp : p ≤ place) : OccursAt marker (a ++ b) p ↔ OccursAt marker a p :=
    occursAt_append_iff (by omega)
  refine and_congr (hsame (Nat.le_refl _)) (forall_congr' fun p => ?_)
  exact forall_congr' fun hp => not_congr (hsame (Nat.le_of_lt hp))

/-- There is at most one leftmost place. -/
theorem Leftmost.unique {marker window : Bytes} {place place' : Nat}
    (h : Leftmost marker window place) (h' : Leftmost marker window place') : place = place' :=
  Nat.le_antisymm (Nat.le_of_not_lt fun hlt => h.2 _ hlt h'.1)
    (Nat.le_of_not_lt fun hlt => h'.2 _ hlt h.1)

/-! ## What the search gives -/

/-- The search counts from its index and stops at the first place. -/
theorem findFrom_eq_some_iff {marker : Bytes} (hm : marker ≠ []) {index place : Nat}
    {window : Bytes} :
    findFrom marker index window = some place ↔
      index ≤ place ∧ Leftmost marker window (place - index) := by
  fun_induction findFrom marker index window with
  | case1 index =>
    constructor
    · intro h
      cases h
    · rintro ⟨-, hocc, -⟩
      exact absurd (List.prefix_nil.mp (by simpa [OccursAt] using hocc)) hm
  | case2 index b rest hhead =>
    have hzero : OccursAt marker (b :: rest) 0 := List.isPrefixOf_iff_prefix.mp hhead
    constructor
    · intro h
      obtain rfl := Option.some.inj h
      refine ⟨Nat.le_refl _, ?_, fun earlier hlt => by omega⟩
      rwa [Nat.sub_self]
    · rintro ⟨hle, -, hmin⟩
      rcases Nat.eq_or_lt_of_le hle with heq | hlt
      · rw [heq]
      · exact absurd hzero (hmin 0 (by omega))
  | case3 index b rest hhead ih =>
    have hzero : ¬OccursAt marker (b :: rest) 0 := fun h =>
      hhead (List.isPrefixOf_iff_prefix.mpr h)
    have hsucc (p : Nat) : OccursAt marker (b :: rest) (p + 1) ↔ OccursAt marker rest p := by
      rw [OccursAt, OccursAt, List.drop_succ_cons]
    rw [ih]
    constructor
    · rintro ⟨hle, hocc, hmin⟩
      refine ⟨by omega, ?_, ?_⟩
      · rw [show place - index = (place - (index + 1)) + 1 by omega, hsucc]
        exact hocc
      · intro earlier hlt
        cases earlier with
        | zero => exact hzero
        | succ p =>
          rw [hsucc]
          exact hmin p (by omega)
    · rintro ⟨hle, hocc, hmin⟩
      have hne : place ≠ index := by
        rintro rfl
        rw [Nat.sub_self] at hocc
        exact hzero hocc
      rw [show place - index = (place - (index + 1)) + 1 by omega] at hocc hmin
      refine ⟨by omega, (hsucc _).mp hocc, ?_⟩
      intro earlier hlt h
      exact hmin (earlier + 1) (by omega) ((hsucc _).mpr h)

/-- A marker is found at the least place where it stands. -/
theorem find?_eq_some_iff {window marker : Bytes} {place : Nat} :
    find? window marker = some place ↔ marker ≠ [] ∧ Leftmost marker window place := by
  rw [find?]
  split
  · next hempty => simp_all
  · next hne =>
    have hm : marker ≠ [] := by simpa using hne
    rw [findFrom_eq_some_iff hm]
    simp [hm]

/-- A marker is found nowhere exactly when it is empty or stands nowhere. -/
theorem find?_eq_none_iff {window marker : Bytes} :
    find? window marker = none ↔ marker = [] ∨ ∀ place, ¬OccursAt marker window place := by
  rw [Option.eq_none_iff_forall_ne_some]
  constructor
  · intro h
    rcases Classical.em (marker = []) with hempty | hm
    · exact .inl hempty
    · refine .inr ?_
      intro place
      -- the least place where it stands would have been found
      induction place using Nat.strongRecOn with
      | ind place ih => exact fun hocc => h place (find?_eq_some_iff.mpr ⟨hm, hocc, ih⟩)
  · rintro h place hfound
    obtain ⟨hm, hocc, -⟩ := find?_eq_some_iff.mp hfound
    rcases h with hempty | hnone
    · exact hm hempty
    · exact hnone place hocc

/-! The delimiter of a token is never empty, so it is found wherever it stands. -/

theorem ofToken_ne_nil (token : String) : ofToken token ≠ [] := by simp [ofToken]

theorem find?_ofToken_eq_some_iff {window : Bytes} {token : String} {place : Nat} :
    find? window (ofToken token) = some place ↔ Leftmost (ofToken token) window place :=
  find?_eq_some_iff.trans (and_iff_right (ofToken_ne_nil token))

theorem find?_ofToken_eq_none_iff {window : Bytes} {token : String} :
    find? window (ofToken token) = none ↔ ∀ place, ¬OccursAt (ofToken token) window place :=
  find?_eq_none_iff.trans (or_iff_right (ofToken_ne_nil token))

/-! ## What more bytes change -/

theorem add_length_le_of_find? {window marker : Bytes} {place : Nat}
    (h : find? window marker = some place) : place + marker.length ≤ window.length := by
  obtain ⟨hm, hocc, -⟩ := find?_eq_some_iff.mp h
  exact hocc.add_length_le hm

/-- Bytes behind the window leave a place that was found where it is. -/
theorem find?_append_of_some {a marker : Bytes} {place : Nat} (h : find? a marker = some place)
    (b : Bytes) : find? (a ++ b) marker = some place := by
  obtain ⟨hm, hleft⟩ := find?_eq_some_iff.mp h
  exact find?_eq_some_iff.mpr ⟨hm, (leftmost_append_iff (hleft.1.add_length_le hm)).mpr hleft⟩

/-- Bytes behind the marker are not needed to find it. -/
theorem find?_of_append {a b marker : Bytes} {place : Nat} (h : find? (a ++ b) marker = some place)
    (hfit : place + marker.length ≤ a.length) : find? a marker = some place := by
  obtain ⟨hm, hleft⟩ := find?_eq_some_iff.mp h
  exact find?_eq_some_iff.mpr ⟨hm, (leftmost_append_iff hfit).mp hleft⟩

/-- A marker that more bytes bring ends behind the bytes without it. -/
theorem lt_of_find?_append {a b marker : Bytes} {place : Nat} (hnone : find? a marker = none)
    (h : find? (a ++ b) marker = some place) : a.length < place + marker.length := by
  obtain ⟨hm, hocc, -⟩ := find?_eq_some_iff.mp h
  apply Nat.lt_of_not_le
  intro hfit
  rcases find?_eq_none_iff.mp hnone with hempty | hnowhere
  · exact hm hempty
  · exact hnowhere place ((occursAt_append_iff hfit).mp hocc)

/-- Where the marker does not start, bytes can be taken off the front. -/
theorem find?_append {a b marker : Bytes}
    (h : ∀ place < a.length, ¬OccursAt marker (a ++ b) place) :
    find? (a ++ b) marker = (find? b marker).map (a.length + ·) := by
  cases hb : find? b marker with
  | some place =>
    obtain ⟨hm, hocc, hmin⟩ := find?_eq_some_iff.mp hb
    refine find?_eq_some_iff.mpr ⟨hm, occursAt_append_right.mpr hocc, ?_⟩
    intro earlier (hlt : earlier < a.length + place) hocc'
    rcases Nat.lt_or_ge earlier a.length with hfront | hback
    · exact h earlier hfront hocc'
    · obtain ⟨p, rfl⟩ := Nat.exists_eq_add_of_le hback
      exact hmin p (by omega) (occursAt_append_right.mp hocc')
  | none =>
    refine find?_eq_none_iff.mpr ((find?_eq_none_iff.mp hb).imp_right fun hnone place hocc => ?_)
    rcases Nat.lt_or_ge place a.length with hfront | hback
    · exact h place hfront hocc
    · obtain ⟨p, rfl⟩ := Nat.exists_eq_add_of_le hback
      exact hnone p (occursAt_append_right.mp hocc)

/-! ## The bytes that are held back -/

/-- The place of a marker that more bytes bring lies two bytes or more
behind the bytes that need not be held back. -/
theorem cut_add_two_le {a b marker : Bytes} {place cut : Nat} (hnone : find? a marker = none)
    (hcut : cut + holdback marker ≤ a.length) (h : find? (a ++ b) marker = some place) :
    cut + 2 ≤ place := by
  have hlt := lt_of_find?_append hnone h
  rw [holdback] at hcut
  omega

/-- The search goes on in the bytes that were held back as if none had
been taken off. -/
theorem find?_drop_append {a b marker : Bytes} {cut : Nat} (hnone : find? a marker = none)
    (hcut : cut + holdback marker ≤ a.length) :
    find? (a ++ b) marker = (find? (a.drop cut ++ b) marker).map (cut + ·) := by
  have hlen : (a.take cut).length = cut := by
    rw [List.length_take]
    omega
  have hsplit : a ++ b = a.take cut ++ (a.drop cut ++ b) := by
    rw [← List.append_assoc, List.take_append_drop]
  rcases find?_eq_none_iff.mp hnone with rfl | hnowhere
  · rfl
  · conv => lhs; rw [hsplit]
    rw [find?_append, hlen]
    intro place hlt hocc
    rw [← hsplit] at hocc
    refine hnowhere place ((occursAt_append_iff ?_).mp hocc)
    rw [holdback] at hcut
    omega

theorem find?_drop_of_none {a marker : Bytes} (cut : Nat) (hnone : find? a marker = none) :
    find? (a.drop cut) marker = none := by
  refine find?_eq_none_iff.mpr ((find?_eq_none_iff.mp hnone).imp_right ?_)
  intro hnowhere place hocc
  refine hnowhere (cut + place) ?_
  rwa [OccursAt, ← List.drop_drop]

end Delimiter

namespace Bytes

theorem dropTail_append_of_le {tail b : Bytes} (a : Bytes) (h : tail.length ≤ b.length) :
    dropTail tail (a ++ b) = a ++ dropTail tail b := by
  have hsuffix : tail <:+ a ++ b ↔ tail <:+ b :=
    ⟨fun hs => List.suffix_of_suffix_length_le hs (List.suffix_append _ _) h,
      fun hs => hs.trans (List.suffix_append _ _)⟩
  by_cases hs : tail <:+ b
  · obtain ⟨front, rfl⟩ := hs
    rw [← List.append_assoc, dropTail_append, dropTail_append]
  · rw [dropTail_of_not_suffix hs, dropTail_of_not_suffix (fun h => hs (hsuffix.mp h))]

/-- The CRLF in front of a delimiter is looked for in the last two bytes. -/
theorem trimCrlf_append {b : Bytes} (a : Bytes) (h : 2 ≤ b.length) :
    trimCrlf (a ++ b) = a ++ trimCrlf b :=
  dropTail_append_of_le a h

/-- Bytes up to behind a cut are those in front of it and those from it on. -/
theorem take_add_append {a : Bytes} {cut : Nat} (h : cut ≤ a.length) (b : Bytes) (n : Nat) :
    (a ++ b).take (cut + n) = a.take cut ++ (a.drop cut ++ b).take n := by
  have hlen : (a.take cut).length = cut := by
    rw [List.length_take]
    exact Nat.min_eq_left h
  have htake : (a.take cut ++ (a.drop cut ++ b)).take ((a.take cut).length + n) =
      a.take cut ++ (a.drop cut ++ b).take n := List.take_length_add_append n
  rwa [hlen, ← List.append_assoc, List.take_append_drop] at htake

end Bytes

namespace Delimiter

/-- The data in front of a marker that more bytes bring: what need not be held back, and
what stands in front of the marker in the rest. The CRLF is looked for in the rest. -/
theorem trimCrlf_take_append {a b marker : Bytes} {cut place : Nat}
    (hnone : find? a marker = none) (hcut : cut + holdback marker ≤ a.length)
    (h : find? (a ++ b) marker = some (cut + place)) :
    Bytes.trimCrlf ((a ++ b).take (cut + place)) =
      a.take cut ++ Bytes.trimCrlf ((a.drop cut ++ b).take place) := by
  have hplace := cut_add_two_le hnone hcut h
  have hfit := add_length_le_of_find? h
  rw [List.length_append] at hfit
  rw [Bytes.take_add_append (by omega), Bytes.trimCrlf_append]
  rw [List.length_take, List.length_append, List.length_drop]
  omega

end Delimiter

end Multipart

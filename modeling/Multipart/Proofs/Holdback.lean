import Multipart.Proofs.Search

/-!
# How much to hold back

Where a window has no delimiter in it, its end may be the start of one, so not all of it can
go out as data. If `Delimiter.holdback` many bytes are kept, or more, then whatever follows,
nothing is lost (`Arrives.resumes`): a delimiter that is still to come lies two bytes or more
behind what went out, it is found at the same place in what was kept, and the data in front
of it, without its CRLF, begins with what went out. If fewer are kept, it can happen that what
went out is no data: a window that ends with a CRLF and all but the last byte of a delimiter
loses its carriage return (`exists_arrives_of_lt`).

The main statement is `Delimiter.holdback_exact`.
-/

namespace Multipart

namespace Delimiter

/-- The bytes that go out if so many are kept. -/
def flushed (kept : Nat) (window : Bytes) : Bytes := window.take (window.length - kept)

/-- The bytes that are kept. -/
def heldBack (kept : Nat) (window : Bytes) : Bytes := window.drop (window.length - kept)

/-- A delimiter comes: it is nowhere in the window, which is longer than what is kept of it,
and with more bytes behind the window this is where it stands first. -/
structure Arrives (marker : Bytes) (kept : Nat) (window more : Bytes) (place : Nat) : Prop where
  nowhere : ∀ p, ¬OccursAt marker window p
  long : kept < window.length
  leftmost : Leftmost marker (window ++ more) place

/-- What went out makes no difference: the delimiter stands two bytes or more behind it, is
the first one in the rest too, and the data in front of it is what went out and then the
data in front of it in the rest. -/
structure Resumes (marker : Bytes) (kept : Nat) (window more : Bytes) (place : Nat) : Prop where
  behind : window.length - kept + 2 ≤ place
  leftmost : Leftmost marker (heldBack kept window ++ more) (place - (window.length - kept))
  data : Bytes.trimCrlf ((window ++ more).take place) =
    flushed kept window ++
      Bytes.trimCrlf ((heldBack kept window ++ more).take (place - (window.length - kept)))

variable {marker window more : Bytes} {kept place : Nat}

/-- To keep as many bytes as are to be held back, or more, is enough. -/
theorem Arrives.resumes (h : Arrives marker kept window more place)
    (hkept : holdback marker ≤ kept) : Resumes marker kept window more place := by
  have hm : marker ≠ [] := by
    rintro rfl
    exact h.nowhere 0 List.nil_prefix
  have hnone : find? window marker = none := find?_eq_none_iff.mpr (.inr h.nowhere)
  have hfound : find? (window ++ more) marker = some place :=
    find?_eq_some_iff.mpr ⟨hm, h.leftmost⟩
  have hcut : window.length - kept + holdback marker ≤ window.length := by
    have hlong := h.long
    omega
  have hbehind := cut_add_two_le hnone hcut hfound
  obtain ⟨rest, rfl⟩ := Nat.exists_eq_add_of_le (Nat.le_of_add_right_le hbehind)
  refine ⟨hbehind, ?_, ?_⟩
  · have hsame := find?_drop_append (b := more) hnone hcut
    rw [hfound, eq_comm, Option.map_eq_some_iff] at hsame
    obtain ⟨rest', hrest, heq⟩ := hsame
    rw [Nat.add_sub_cancel_left, ← Nat.add_left_cancel heq]
    exact (find?_eq_some_iff.mp hrest).2
  · rw [Nat.add_sub_cancel_left]
    exact trimCrlf_take_append hnone hcut hfound

/-- What begins with a hyphen stands in no CRLF. -/
theorem not_occursAt_crlf (hhead : marker.head? = some Bytes.hyphen) (more : Bytes) :
    ∀ p < 2, ¬OccursAt marker (Bytes.crlf ++ more) p := by
  intro p hp hocc
  obtain ⟨tail, rfl⟩ := List.head?_eq_some_iff.mp hhead
  have hcases : p = 0 ∨ p = 1 := by omega
  rcases hcases with rfl | rfl
  · exact absurd (List.cons_prefix_cons.mp hocc).1 (by decide)
  · exact absurd (List.cons_prefix_cons.mp hocc).1 (by decide)

/-- A marker arrives behind a CRLF, with its last byte still to come. -/
theorem arrives_crlf {front : Bytes} {last : UInt8}
    (hhead : (front ++ [last]).head? = some Bytes.hyphen) (hkept : kept < front.length + 2) :
    Arrives (front ++ [last]) kept (Bytes.crlf ++ front) [last] 2 := by
  have hwhole : Bytes.crlf ++ front ++ [last] = Bytes.crlf ++ (front ++ [last]) :=
    List.append_assoc ..
  refine ⟨fun p hocc => ?_, ?_, ?_, ?_⟩
  · have hfit := hocc.add_length_le (by simp)
    have hp : p < 2 := by
      simp only [Bytes.crlf, List.length_append, List.length_cons, List.length_nil] at hfit
      omega
    refine not_occursAt_crlf hhead (front ++ [last]) p hp ?_
    rw [← hwhole]
    exact (occursAt_append_iff hfit).mpr hocc
  · simp only [Bytes.crlf, List.length_append, List.length_cons, List.length_nil]
    omega
  · rw [hwhole]
    exact List.prefix_refl (front ++ [last])
  · rw [hwhole]
    exact not_occursAt_crlf hhead (front ++ [last])

/-- To keep fewer bytes is not enough: what goes out can be part of the CRLF. -/
theorem exists_arrives_of_lt (hhead : marker.head? = some Bytes.hyphen)
    (hkept : kept < holdback marker) :
    ∃ window more place, Arrives marker kept window more place ∧
      ¬flushed kept window <+: Bytes.trimCrlf ((window ++ more).take place) := by
  rcases List.eq_nil_or_concat marker with rfl | ⟨front, last, rfl⟩
  · cases hhead
  · rw [List.concat_eq_append] at hhead hkept ⊢
    have hshort : kept < front.length + 2 := by
      rwa [holdback, List.length_append, List.length_singleton] at hkept
    have harrives := arrives_crlf hhead hshort
    refine ⟨_, _, _, harrives, fun hprefix => ?_⟩
    -- the data is the CRLF alone, of which nothing is left
    have hnone : flushed kept (Bytes.crlf ++ front) = [] := List.prefix_nil.mp hprefix
    have hlength := congrArg List.length hnone
    have hlong := harrives.long
    rw [flushed, List.length_take, List.length_nil] at hlength
    omega

/-- To hold back as many bytes as are held back is enough, and for a marker that begins with
a hyphen it is the least that is: what goes out can be no data if fewer are kept. -/
theorem holdback_exact (marker : Bytes) :
    (∀ kept, holdback marker ≤ kept → ∀ window more place,
      Arrives marker kept window more place → Resumes marker kept window more place) ∧
    (marker.head? = some Bytes.hyphen → ∀ kept < holdback marker,
      ∃ window more place, Arrives marker kept window more place ∧
        ¬flushed kept window <+: Bytes.trimCrlf ((window ++ more).take place)) := by
  constructor
  · intro kept hkept window more place h
    exact h.resumes hkept
  · intro hhead kept hkept
    exact exists_arrives_of_lt hhead hkept

/-- One byte goes out of a window that ends within a CRLF and a delimiter. -/
theorem holdback_exact_of_split :
    let marker := Text.toBytes "--B"
    let window := Text.toBytes "ab\r\n-"
    let more := Text.toBytes "-B"
    Arrives marker (holdback marker) window more 4 ∧
      flushed (holdback marker) window = Text.toBytes "a" ∧
      Leftmost marker (heldBack (holdback marker) window ++ more) 3 ∧
      flushed (holdback marker) window <+: Bytes.trimCrlf ((window ++ more).take 4) := by
  intro marker window more
  have hnone : find? window marker = none := by decide +kernel
  have hfound : find? (window ++ more) marker = some 4 := by decide +kernel
  have harrives : Arrives marker (holdback marker) window more 4 :=
    ⟨(find?_eq_none_iff.mp hnone).resolve_left (by decide +kernel), by decide +kernel,
      (find?_eq_some_iff.mp hfound).2⟩
  obtain ⟨hresumes, -⟩ := holdback_exact marker
  obtain ⟨-, hleftmost, hdata⟩ := hresumes _ (Nat.le_refl _) window more 4 harrives
  have hcut : window.length - holdback marker = 1 := by decide +kernel
  refine ⟨harrives, by decide +kernel, ?_, ?_⟩
  · rwa [hcut] at hleftmost
  · rw [hdata]
    exact List.prefix_append _ _

end Delimiter

end Multipart

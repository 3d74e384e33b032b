import Multipart.Proofs.Grammar

/-!
# A body is framed in one way

The parts of a framed body are determined by its bytes, and mostly by the
front of it: if a body is cut off and what is left is framed as well, the
parts are the same, and the hyphens of the closing line are still there
(`Framed.of_cut`). The other way round, a framed body can be cut off
anywhere behind these hyphens (`Framed.cut`).

There is one exception. An opening line may begin like the closing line,
and then looks like it where it is cut off; `RawPart.LooksClosing` says so.
-/

namespace Multipart

/-! ## Closing lines -/

namespace Line.StartsWith

variable {maxLength : Nat} {content body : Bytes}

theorem lf_not_mem (h : StartsWith maxLength content body) : Bytes.lf ∉ content := by
  obtain ⟨line, hfits, rfl, -⟩ := h
  exact fun hlf => hfits.1 ((Bytes.dropTail_prefix ..).subset hlf)

theorem content_prefix (h : StartsWith maxLength content body) : content <+: body := by
  obtain ⟨line, -, rfl, rfl | ⟨rest, rfl⟩⟩ := h
  · exact Bytes.dropTail_prefix ..
  · exact (Bytes.dropTail_prefix ..).trans (List.prefix_append ..)

/-- The content is that of the first line. -/
theorem dropCr_eq {line rest : Bytes} (h : StartsWith maxLength content (line ++ Bytes.lf :: rest))
    (hline : Bytes.lf ∉ line) : Bytes.dropCr line = content := by
  obtain ⟨line', hfits, rfl, hbody | ⟨rest', hbody⟩⟩ := h
  · exact absurd (by simp [← hbody]) hfits.1
  · rw [(Line.eq_of_append_lf hline hfits.1 hbody).1]

/-- A line can be cut off behind its content. -/
theorem cut {kept lost : Bytes} (h : StartsWith maxLength content (kept ++ lost))
    (hcontent : Bytes.dropCr content = content) (hlength : content.length ≤ kept.length) :
    StartsWith maxLength content kept := by
  obtain ⟨line, hfits, rfl, hbody⟩ := h
  have hcut : kept <+: line ∨ ∃ rest', kept = line ++ Bytes.lf :: rest' := by
    rcases hbody with hbody | ⟨rest', hbody⟩
    · exact .inl ⟨lost, hbody⟩
    · rcases List.append_eq_append_iff.mp hbody with ⟨more, hline, -⟩ | ⟨more, hfront, hrest⟩
      · exact .inl ⟨more, hline.symm⟩
      · cases more with
        | nil => exact .inl (by simp [hfront])
        | cons b more =>
          obtain rfl : b = Bytes.lf := (List.cons_eq_cons.mp hrest).1.symm
          exact .inr ⟨more, hfront⟩
  rcases hcut with hstart | hwhole
  · have hfits' : Fits maxLength kept :=
      ⟨fun hlf => hfits.1 (hstart.subset hlf), hstart.length_le.trans hfits.2⟩
    refine ⟨kept, hfits', ?_, .inl rfl⟩
    -- Behind the content of the line there is a carriage return at most.
    have hshort (hstart : kept <+: Bytes.dropCr line) :
        Bytes.dropCr kept = Bytes.dropCr line := by
      rw [hstart.eq_of_length_le hlength, hcontent]
    rcases Bytes.dropTail_cases [Bytes.cr] line with hline | hline
    · rw [hline] at hstart
      exact hshort hstart
    · rw [hline, List.prefix_concat_iff, ← hline] at hstart
      exact hstart.elim (congrArg Bytes.dropCr) hshort
  · exact ⟨line, hfits, rfl, .inr hwhole⟩

end Line.StartsWith

/-! ## Parts -/

/-- Lines that an empty one ends are determined by the bytes they are in front of. -/
theorem joinLines_inj {lines lines' : List Bytes} {blank blank' rest rest' : Bytes}
    (hlf : ∀ line ∈ lines ++ [blank], Bytes.lf ∉ line)
    (hlf' : ∀ line ∈ lines' ++ [blank'], Bytes.lf ∉ line)
    (hcontents : ∀ content ∈ lines.map Bytes.dropCr, content ≠ [])
    (hcontents' : ∀ content ∈ lines'.map Bytes.dropCr, content ≠ [])
    (hblank : Bytes.dropCr blank = []) (hblank' : Bytes.dropCr blank' = [])
    (heq : joinLines lines ++ (blank ++ Bytes.lf :: rest) =
      joinLines lines' ++ (blank' ++ Bytes.lf :: rest')) :
    lines = lines' ∧ blank = blank' ∧ rest = rest' := by
  induction lines generalizing lines' with
  | nil =>
    have hfirst : Bytes.lf ∉ blank := hlf blank (by simp)
    cases lines' with
    | nil => exact ⟨rfl, Line.eq_of_append_lf hfirst (hlf' blank' (by simp)) heq⟩
    | cons line' lines' =>
      rw [joinLines_cons_append] at heq
      obtain ⟨rfl, -⟩ := Line.eq_of_append_lf hfirst (hlf' line' (by simp)) heq
      exact absurd hblank (hcontents' _ (by simp))
  | cons line lines ih =>
    rw [List.cons_append, List.forall_mem_cons] at hlf
    rw [List.map_cons, List.forall_mem_cons] at hcontents
    rw [joinLines_cons_append] at heq
    cases lines' with
    | nil =>
      obtain ⟨rfl, -⟩ := Line.eq_of_append_lf hlf.1 (hlf' blank' (by simp)) heq
      exact absurd hblank' hcontents.1
    | cons line' lines' =>
      rw [List.cons_append, List.forall_mem_cons] at hlf'
      rw [List.map_cons, List.forall_mem_cons] at hcontents'
      rw [joinLines_cons_append] at heq
      obtain ⟨rfl, hrest⟩ := Line.eq_of_append_lf hlf.1 hlf'.1 heq
      obtain ⟨rfl, hblanks⟩ := ih hlf.2 hlf'.2 hcontents.2 hcontents'.2 hrest
      exact ⟨rfl, hblanks⟩

namespace RawPart

variable {settings : Settings} {marker : Bytes} {p p' : RawPart}

/-- The opening line begins like the closing line. -/
def LooksClosing (marker : Bytes) (p : RawPart) : Prop :=
  marker ++ [Bytes.hyphen, Bytes.hyphen] <+: p.opening

theorem WellFormed.opening_unbroken (h : p.WellFormed settings marker) :
    Bytes.lf ∉ p.opening := (h.fits p.opening (by simp)).1

/-- A part is determined by the bytes it is in front of. -/
theorem WellFormed.eq_of_append {rest rest' : Bytes} (h : p.WellFormed settings marker)
    (h' : p'.WellFormed settings marker)
    (hleft : Delimiter.Leftmost marker (p.data ++ rest) p.data.length)
    (hleft' : Delimiter.Leftmost marker (p'.data ++ rest') p'.data.length)
    (heq : p.bytes ++ rest = p'.bytes ++ rest') : p = p' ∧ rest = rest' := by
  rw [bytes_append, bytes_append] at heq
  obtain ⟨hopening, heq⟩ := Line.eq_of_append_lf h.opening_unbroken h'.opening_unbroken heq
  obtain ⟨hheaders, hblank, heq⟩ := joinLines_inj (fun l hl => (h.fits l (by simp_all)).1)
    (fun l hl => (h'.fits l (by simp_all)).1) h.headers h'.headers h.blank h'.blank heq
  rw [heq] at hleft
  obtain ⟨hdata, hrest⟩ := List.append_inj heq (hleft.unique hleft')
  refine ⟨?_, hrest⟩
  cases p
  cases p'
  congr

/-- No part stands where the closing line does. -/
theorem WellFormed.not_closing {rest : Bytes} (h : p.WellFormed settings marker) :
    ¬Line.StartsWith settings.maxLineLength (marker ++ [Bytes.hyphen, Bytes.hyphen])
      (p.bytes ++ rest) := by
  intro hclosing
  rw [bytes_append] at hclosing
  exact h.notClosing (hclosing.dropCr_eq h.opening_unbroken)

end RawPart

/-! ## Bodies -/

namespace Framed

variable {settings : Settings} {marker body kept lost : Bytes} {parts parts' : List RawPart}

/-- Behind the parts there is the closing line. -/
theorem closing (h : Framed settings marker parts body) :
    Line.StartsWith settings.maxLineLength (marker ++ [Bytes.hyphen, Bytes.hyphen])
      (body.drop (parts.flatMap RawPart.bytes).length) := by
  induction parts generalizing body with
  | nil => exact h
  | cons p parts ih =>
    obtain ⟨-, rest, rfl, -, hrest⟩ := h
    rw [List.flatMap_cons, List.length_append, ← List.drop_drop, List.drop_left]
    exact ih hrest

/-- A body can be cut off behind the hyphens of its closing line. -/
theorem cut (h : Framed settings marker parts (kept ++ lost))
    (hlength : (parts.flatMap RawPart.bytes).length + (marker.length + 2) ≤ kept.length) :
    Framed settings marker parts kept := by
  induction parts generalizing kept with
  | nil =>
    refine Line.StartsWith.cut h (Bytes.dropTail_of_not_suffix ?_) (by simpa using hlength)
    rintro ⟨start, hends⟩
    have hlast := congrArg List.getLast? hends
    simp [Bytes.cr, Bytes.hyphen] at hlast
  | cons p parts ih =>
    obtain ⟨hp, rest, heq, hleft, hrest⟩ := h
    rw [List.flatMap_cons, List.length_append] at hlength
    obtain ⟨kept', rfl⟩ : p.bytes <+: kept :=
      List.prefix_of_prefix_length_le ⟨_, heq.symm⟩ (List.prefix_append ..) (by omega)
    rw [List.append_assoc, List.append_cancel_left_eq] at heq
    subst heq
    rw [List.length_append] at hlength
    refine ⟨hp, kept', rfl, ?_, ih hrest (by omega)⟩
    rw [← List.append_assoc] at hleft
    exact (Delimiter.leftmost_append_iff (by rw [List.length_append]; omega)).mp hleft

/-- If what is left of a body that was cut off is framed, its parts are those of the whole
body, and it ends behind the hyphens of the closing line. -/
theorem of_cut (hm : marker ≠ []) (h : Framed settings marker parts (kept ++ lost))
    (hlooks : ∀ p ∈ parts, ¬p.LooksClosing marker) (h' : Framed settings marker parts' kept) :
    parts' = parts ∧ (parts.flatMap RawPart.bytes).length + (marker.length + 2) ≤ kept.length := by
  induction parts' generalizing parts kept with
  | nil =>
    have hclosing : marker ++ [Bytes.hyphen, Bytes.hyphen] <+: kept :=
      Line.StartsWith.content_prefix h'
    cases parts with
    | nil => exact ⟨rfl, by simpa using hclosing.length_le⟩
    | cons p parts =>
      obtain ⟨-, rest, heq, -⟩ := h
      refine absurd ?_ (hlooks p (by simp))
      have hstarts := hclosing.trans ⟨lost, heq.trans (p.bytes_append rest)⟩
      exact Line.prefix_of_prefix_append_lf hstarts (Line.StartsWith.lf_not_mem h')
  | cons p' parts' ih =>
    obtain ⟨hp', kept', rfl, hleft', hkept'⟩ := h'
    cases parts with
    | nil =>
      rw [List.append_assoc] at h
      exact absurd h hp'.not_closing
    | cons p parts =>
      obtain ⟨hp, rest, heq, hleft, hrest⟩ := h
      have hleft'' : Delimiter.Leftmost marker (p'.data ++ (kept' ++ lost)) p'.data.length := by
        rw [← List.append_assoc]
        exact (Delimiter.leftmost_append_iff (hleft'.1.add_length_le hm)).mpr hleft'
      rw [List.append_assoc] at heq
      obtain ⟨rfl, rfl⟩ := hp'.eq_of_append hp hleft'' hleft heq
      obtain ⟨rfl, hlength⟩ := ih hrest (fun p hp => hlooks p (by simp [hp])) hkept'
      refine ⟨rfl, ?_⟩
      rw [List.flatMap_cons, List.length_append, List.length_append]
      omega

end Framed

end Multipart

import Multipart.Proofs.Excerpts

/-!
# Points of a body

A decoder reaches a point of a body if steps lead there that each use up bytes
from the front (`Decoder.Reaches`); what is left of the body then stands behind
that point. Feeding a body, in whatever pieces, comes to the same as processing
what is left from such a point on (`Decoder.Reaches.feedAll`), and so does
finishing (`Decoder.Reaches.finish`).

The data of a part begins behind the empty line that ends its header lines
(`Decoder.Opens`). A decoder that asks for more in part data has reached such a
point, and has not met the delimiter since (`Decoder.opens_of_run`).
-/

namespace Multipart

/-- A line is only cut off before the end of the body if its line feed is
there. -/
theorem Line.eq_of_next {maxLength used : Nat} {window content : Bytes}
    (h : next maxLength false window = .whole content used) :
    ∃ line, Fits maxLength line ∧ content = Bytes.dropCr line ∧
      window = line ++ Bytes.lf :: window.drop used := by
  obtain ⟨line, hfits, hcontent, hcut | ⟨rfl, -⟩⟩ := fits_of_next h
  · exact ⟨line, hfits, hcontent, hcut⟩
  · rw [next_of_unterminated hfits] at h
    cases h

namespace Decoder

variable {d d₁ d' : Decoder} {s s₁ s' : Storage} {w w₁ rest data : Bytes} {n : Nat} {x : Excerpt}
  {heading : Heading}

/-- A step that is taken while the body arrives is also taken at its end. -/
theorem next_of_advance (h : d.next s w false = .advance n d' s') (atEnd : Bool) :
    d.next s w atEnd = .advance n d' s' := by
  have hmove : d.next s w false ≠ .wait := by
    rw [h]
    exact nofun
  cases hstage : d.stage with
  | boundaryLine =>
    have hsame := next_append_of_line (.inl hstage) hmove [] atEnd
    rw [List.append_nil] at hsame
    exact hsame.trans h
  | headerLines heading =>
    have hsame := next_append_of_line (.inr ⟨heading, hstage⟩) hmove [] atEnd
    rw [List.append_nil] at hsame
    exact hsame.trans h
  | partData name content =>
    rw [next_partData hstage] at h ⊢
    exact h
  | ended =>
    simp only [next, hstage] at h
    cases h
  | failed phase =>
    simp only [next, hstage] at h
    cases h

/-! ## Reaching a point -/

/-- From the first decoder, storage and bytes, steps lead to the second. -/
inductive Reaches : Decoder → Storage → Bytes → Decoder → Storage → Bytes → Prop where
  | refl (d : Decoder) (s : Storage) (w : Bytes) : Reaches d s w d s w
  | step {d d₁ d' : Decoder} {s s₁ s' : Storage} {w rest : Bytes} {n : Nat}
      (hnext : d.next s w false = .advance n d₁ s₁) (h : Reaches d₁ s₁ (w.drop n) d' s' rest) :
      Reaches d s w d' s' rest

namespace Reaches

theorem concat (h : d.Reaches s w d₁ s₁ w₁) (hnext : d₁.next s₁ w₁ false = .advance n d' s') :
    d.Reaches s w d' s' (w₁.drop n) := by
  induction h with
  | refl d s w => exact .step hnext (.refl ..)
  | step hfirst _ ih => exact .step hfirst (ih hnext)

theorem trans (h : d.Reaches s w d₁ s₁ w₁) (h' : d₁.Reaches s₁ w₁ d' s' rest) :
    d.Reaches s w d' s' rest := by
  induction h with
  | refl => exact h'
  | step hnext _ ih => exact .step hnext (ih h')

theorem goesOn (h : d.Reaches s w d' s' rest) (hd : d.stage.hasFailed = false) : d.GoesOn d' := by
  induction h with
  | refl d s w => exact ⟨rfl, rfl, hd⟩
  | step hnext _ ih =>
    have hfirst := goesOn_of_advance hnext
    exact hfirst.trans (ih hfirst.alive)

/-- What the decoder knows of the part that it reads there. -/
theorem knows (h : d.Reaches s w d' s' rest) (hopen : d.Fillable) (hknows : d.Knows s x) :
    d'.Fillable ∧ ∃ x', d'.Knows s' x' := by
  induction h generalizing x with
  | refl d s w => exact ⟨hopen, x, hknows⟩
  | step hnext _ ih => exact ih (fillable_next hopen hnext) (knows_next hopen hknows hnext)

/-- A run that asks for more has reached where it stands. -/
theorem of_run (h : (d.run s w false).result = .ok .needsMore) :
    d.Reaches s w (d.run s w false).decoder (d.run s w false).storage
      (w.drop (d.run s w false).used) := by
  induction d, s, w using run_induction false with
  | step d s w ih =>
    cases hnext : d.next s w false with
    | wait =>
      rw [run_of_wait hnext]
      exact .refl ..
    | finished =>
      rw [run_of_finished hnext] at h
      cases h
    | fail e d' s' =>
      rw [run_of_fail hnext] at h
      cases h
    | advance n d' s' =>
      rw [run_of_advance hnext] at h ⊢
      refine .step hnext ?_
      dsimp only
      rw [← List.drop_drop]
      exact ih n d' s' hnext h

/-- The run on a body goes on from every point that is reached. -/
theorem run_agrees (h : d.Reaches s w d' s' rest) (atEnd : Bool) :
    ∃ n, w.drop n = rest ∧ (d.run s w atEnd).Agrees n (d'.run s' rest atEnd) := by
  induction h with
  | refl d s w => exact ⟨0, rfl, .refl _⟩
  | step hnext _ ih =>
    obtain ⟨m, hdrop, hrest⟩ := ih
    refine ⟨_ + m, ?_, (Run.Agrees.of_step (next_of_advance hnext atEnd) rfl).trans hrest⟩
    rw [← List.drop_drop, hdrop]

theorem pass_agrees {buffer : InputBuffer} (h : d.Reaches s buffer.unread d' s' rest)
    (hd : d.stage.hasFailed = false) (atEnd : Bool) :
    (d.pass s buffer atEnd).Agrees (d'.pass s' (InputBuffer.empty.push rest) atEnd) ∧
      (∀ progress, (d.pass s buffer atEnd).result = .ok progress →
        (d.pass s buffer atEnd).buffer.unread =
          (d'.pass s' (InputBuffer.empty.push rest) atEnd).buffer.unread) := by
  obtain ⟨n, hdrop, hrun⟩ := h.run_agrees atEnd
  have hunread : (InputBuffer.empty.push rest).unread = rest := by simp
  exact Decoder.pass_agrees hd (h.goesOn hd).alive (hdrop.trans hunread.symm) (by rwa [hunread])

/-- A decoder that is fed a body in pieces goes on from every point of it. -/
theorem feedAll {token : String} {settings : Settings} (hnew : new token settings = .ok d)
    {pieces : List Bytes} (h : d.Reaches s pieces.flatten d' s' rest) :
    (d.feedAll s .empty pieces).Agrees (d'.process s' (InputBuffer.empty.push rest)) ∧
      ((d.feedAll s .empty pieces).result = .ok .needsMore →
        (d.feedAll s .empty pieces).buffer.unread =
          (d'.process s' (InputBuffer.empty.push rest)).buffer.unread) := by
  have hwait : d.next s InputBuffer.empty.unread false = .wait := next_new hnew
  have hd := hasFailed_of_next_wait hwait
  obtain ⟨hfed, hunread⟩ := feedAll_agrees_process (hasHandle_new hnew) hwait pieces
  have hstart : (InputBuffer.empty.push pieces.flatten).unread = pieces.flatten := by simp
  obtain ⟨hall, hleft⟩ := pass_agrees (hstart.symm ▸ h) hd false
  refine ⟨hfed.trans hall, fun hmore => (hunread hmore).trans ?_⟩
  exact hleft _ (hfed.result.symm.trans hmore)

/-- A decoder that has been fed some pieces, and is finished on the rest of the
body, goes on from every point of it too. -/
theorem finish {token : String} {settings : Settings} (hnew : new token settings = .ok d)
    {pieces : List Bytes} {last : Bytes} {progress : Progress}
    (hfed : (d.feedAll s .empty pieces).result = .ok progress)
    (h : d.Reaches s (pieces.flatten ++ last) d' s' rest) :
    ((d.feedAll s .empty pieces).decoder.finish (d.feedAll s .empty pieces).storage
      ((d.feedAll s .empty pieces).buffer.push last)).Agrees
      (d'.finish s' (InputBuffer.empty.push rest)) := by
  have hwait : d.next s InputBuffer.empty.unread false = .wait := next_new hnew
  have hd := hasFailed_of_next_wait hwait
  have hsame := finish_push_agrees_feedAll (hasHandle_new hnew) hwait pieces last hfed
  have hstart : (InputBuffer.empty.push (pieces.flatten ++ last)).unread =
      pieces.flatten ++ last := by simp
  exact hsame.symm.trans (finish_agrees_of_pass (pass_agrees (hstart.symm ▸ h) hd true).1)

end Reaches

/-! ## The rest of a body -/

/-- However the rest of a body is cut into pieces, and whether the last of them is
processed or the upload is finished on it, it comes to the same as another body
at another decoder. -/
def Continues (d : Decoder) (s : Storage) (buffer : InputBuffer) (more : Bytes) (d' : Decoder)
    (s' : Storage) (rest : Bytes) : Prop :=
  (∀ cuts : List Bytes, cuts.flatten = more →
    (d.feedAll s buffer cuts).Agrees (d'.process s' (InputBuffer.empty.push rest))) ∧
  ∀ (cuts : List Bytes) (last : Bytes) (progress : Progress), cuts.flatten ++ last = more →
    (d.feedAll s buffer cuts).result = .ok progress →
    ((d.feedAll s buffer cuts).decoder.finish (d.feedAll s buffer cuts).storage
      ((d.feedAll s buffer cuts).buffer.push last)).Agrees
      (d'.finish s' (InputBuffer.empty.push rest))

/-- However the rest of a body is cut into pieces, and whether the last of them is
processed or the upload is finished on it, the decoder fails with this error. -/
def Refuses (d : Decoder) (s : Storage) (buffer : InputBuffer) (more : Bytes) (e : UploadError) :
    Prop :=
  (∀ cuts : List Bytes, cuts.flatten = more → (d.feedAll s buffer cuts).result = .error e) ∧
  ∀ (cuts : List Bytes) (last : Bytes) (progress : Progress), cuts.flatten ++ last = more →
    (d.feedAll s buffer cuts).result = .ok progress →
    ((d.feedAll s buffer cuts).decoder.finish (d.feedAll s buffer cuts).storage
      ((d.feedAll s buffer cuts).buffer.push last)).result = .error e

theorem Reaches.continues {token : String} {settings : Settings} (hnew : new token settings = .ok d)
    {pieces : List Bytes} {more : Bytes}
    (hmore : (d.feedAll s .empty pieces).result = .ok .needsMore)
    (h : d.Reaches s (pieces.flatten ++ more) d' s' rest) :
    (d.feedAll s .empty pieces).decoder.Continues (d.feedAll s .empty pieces).storage
      (d.feedAll s .empty pieces).buffer more d' s' rest := by
  refine ⟨fun cuts hcuts => ?_, fun cuts last progress hcuts hfed => ?_⟩
  · subst hcuts
    rw [← List.flatten_append] at h
    rw [← feedAll_append hmore]
    exact (h.feedAll hnew).1
  · subst hcuts
    rw [← List.append_assoc, ← List.flatten_append] at h
    rw [← feedAll_append hmore] at hfed ⊢
    exact h.finish hnew hfed

theorem Reaches.continues_new {token : String} {settings : Settings}
    (hnew : new token settings = .ok d) (h : d.Reaches s w d' s' rest) :
    d.Continues s .empty w d' s' rest := by
  have hbody : d.Reaches s (([] : List Bytes).flatten ++ w) d' s' rest := h
  exact hbody.continues hnew rfl

theorem Continues.refuses {buffer : InputBuffer} {more : Bytes} {e : UploadError}
    (h : d.Continues s buffer more d' s' rest) (halive : d'.stage.hasFailed = false)
    (hfail : ∀ atEnd, ∃ d₁ s₁, d'.next s' rest atEnd = .fail e d₁ s₁) :
    d.Refuses s buffer more e := by
  have hpass (atEnd : Bool) :
      (d'.pass s' (InputBuffer.empty.push rest) atEnd).result = .error e := by
    obtain ⟨d₁, s₁, hnext⟩ := hfail atEnd
    rw [result_pass halive, InputBuffer.unread_push, InputBuffer.unread_empty, List.nil_append,
      run_of_fail hnext]
  refine ⟨fun cuts hcuts => ?_, fun cuts last progress hcuts hfed => ?_⟩
  · exact (h.1 cuts hcuts).result.trans (hpass false)
  · rw [(h.2 cuts last progress hcuts hfed).result, finish_of_error (hpass true)]

/-- A body that leads to a step that fails is refused. -/
theorem Reaches.refuses {token : String} {settings : Settings} (hnew : new token settings = .ok d)
    (h : d.Reaches s w d' s' rest) {e : UploadError}
    (hfail : ∀ atEnd, ∃ d₁ s₁, d'.next s' rest atEnd = .fail e d₁ s₁) :
    d.Refuses s .empty w e := by
  have hd := hasFailed_of_next_wait (next_new (s := s) hnew)
  exact (h.continues_new hnew).refuses (h.goesOn hd).alive hfail

/-- A decoder that has reached some header lines reaches them with more bytes
behind, too: whatever parts came before were whole. -/
theorem Reaches.append (h : d.Reaches s w d' s' rest)
    (hstage : ∃ heading, d'.stage = .headerLines heading) (more : Bytes) :
    d.Reaches s (w ++ more) d' s' (rest ++ more) := by
  induction h with
  | refl d s w => exact .refl ..
  | @step d d₁ d' s s₁ s' w rest n hnext hrest ih =>
    have hmove : d.next s w false ≠ .wait := by
      rw [hnext]
      exact nofun
    have hstep (hsame : d.next s (w ++ more) false = d.next s w false) :
        d.Reaches s (w ++ more) d' s' (rest ++ more) := by
      refine .step (hsame.trans hnext) ?_
      rw [List.drop_append_of_le_length (next_advance hnext).1]
      exact ih hstage
    cases hd : d.stage with
    | boundaryLine => exact hstep (next_append_of_line (.inl hd) hmove more false)
    | headerLines heading => exact hstep (next_append_of_line (.inr ⟨heading, hd⟩) hmove more false)
    | partData name content =>
      rw [next_partData hd] at hnext hmove
      rcases partData_cases hmove with ⟨place, hfound⟩ | ⟨cut, hnone, hpos, hcut⟩
      · refine hstep ?_
        rw [next_partData hd, next_partData hd, partData_append_of_found hfound]
      · -- data that was only copied is waited for, and nothing is reached behind it
        cases hwrite : content.write d.settings.maxFieldSize (w.take cut) s with
        | error e =>
          rw [partData_of_flush_error hnone hcut hpos hwrite] at hnext
          cases hnext
        | ok out =>
          rw [partData_of_flush hnone hcut hpos hwrite] at hnext
          cases hnext
          obtain ⟨heading, hstage⟩ := hstage
          cases hrest with
          | refl => cases hstage
          | step hagain =>
            rw [next_of_heldBack hnone hcut] at hagain
            cases hagain
    | ended =>
      simp only [next, hd] at hnext
      cases hnext
    | failed phase =>
      simp only [next, hd] at hnext
      cases hnext

/-! ## Where part data begins -/

/-- The body leads to the header lines of a part, and `data` stands behind the
empty line that ends them. -/
def Opens (d : Decoder) (s : Storage) (body : Bytes) (heading : Heading) (d' : Decoder)
    (s' : Storage) (data : Bytes) : Prop :=
  ∃ d₁ blank, d.Reaches s body d₁ s' (blank ++ Bytes.lf :: data) ∧
    d₁.stage = .headerLines (some heading) ∧ Line.Fits d₁.settings.maxLineLength blank ∧
    Bytes.dropCr blank = [] ∧
    d' = { d₁ with stage := .partData heading.name (.ofHeading heading) }

theorem Opens.reaches (h : d.Opens s w heading d' s' data) : d.Reaches s w d' s' data := by
  obtain ⟨d₁, blank, hreaches, hstage, hfits, hblank, rfl⟩ := h
  have hnext : d₁.next s' (blank ++ Bytes.lf :: data) false =
      .advance (blank.length + 1)
        { d₁ with stage := .partData heading.name (.ofHeading heading) } s' := by
    rw [next_headerLines hstage (Line.next_of_fits hfits data false)]
    simp only [headerLine, hblank, List.isEmpty_nil, if_true]
  have hafter := hreaches.concat hnext
  rwa [← List.drop_drop, List.drop_left] at hafter

theorem Opens.stage_eq (h : d.Opens s w heading d' s' data) :
    d'.stage = .partData heading.name (.ofHeading heading) := by
  obtain ⟨d₁, blank, -, -, -, -, rfl⟩ := h
  rfl

theorem Opens.alive (h : d.Opens s w heading d' s' data) : d'.stage.hasFailed = false := by
  rw [h.stage_eq]
  rfl

theorem Opens.of_step (hnext : d.next s w false = .advance n d₁ s₁)
    (h : d₁.Opens s₁ (w.drop n) heading d' s' data) : d.Opens s w heading d' s' data := by
  obtain ⟨d₂, blank, hreaches, hrest⟩ := h
  exact ⟨d₂, blank, .step hnext hreaches, hrest⟩

/-- The data goes on with the body. -/
theorem Opens.append (h : d.Opens s w heading d' s' data) (more : Bytes) :
    d.Opens s (w ++ more) heading d' s' (data ++ more) := by
  obtain ⟨d₁, blank, hreaches, hstage, hrest⟩ := h
  refine ⟨d₁, blank, ?_, hstage, hrest⟩
  have hmore := hreaches.append ⟨some heading, hstage⟩ more
  rwa [List.append_assoc, List.cons_append] at hmore

/-- The content of a part takes its first byte there. -/
theorem Opens.holds {token : String} {settings : Settings} (hnew : new token settings = .ok d)
    (h : d.Opens s w heading d' s' data) :
    FilePart.All d'.settings.Fillable (Content.ofHeading heading).file? ∧
      (Content.ofHeading heading).Holds [] s' := by
  have hknows : d.Knows s .empty := by
    rw [eq_of_new hnew]
    trivial
  obtain ⟨d₁, blank, hreaches, hstage, -, -, rfl⟩ := h
  obtain ⟨hopen, x, hafter⟩ := hreaches.knows (fillable_new hnew) hknows
  rw [Fillable, hstage] at hopen
  rw [Knows, hstage] at hafter
  exact ⟨Content.all_ofHeading hopen, Content.holds_ofHeading hafter.2.2⟩

/-- A step into part data is the one at an empty line. -/
theorem opens_of_next {name : String} {content : Content}
    (hnext : d.next s w false = .advance n d₁ s₁) (hstage₁ : d₁.stage = .partData name content)
    (hstage : ∀ name content, d.stage ≠ .partData name content) :
    ∃ heading, d.Opens s w heading d₁ s₁ (w.drop n) := by
  cases hd : d.stage with
  | boundaryLine =>
    simp only [next, hd] at hnext
    split at hnext
    · cases hnext
    · cases hnext
    · rw [boundaryLine] at hnext
      split at hnext <;> cases hnext <;> cases hstage₁
  | headerLines heading? =>
    simp only [next, hd] at hnext
    split at hnext
    · cases hnext
    · cases hnext
    · next hline =>
      obtain ⟨line, hfits, rfl, hcut⟩ := Line.eq_of_next hline
      obtain rfl := headerLine_advance hnext
      unfold headerLine at hnext
      split at hnext
      · next hempty =>
        cases heading? with
        | none => cases hnext
        | some heading =>
          cases hnext
          exact ⟨heading, d, line, hcut ▸ .refl .., hd, hfits, List.isEmpty_iff.mp hempty, rfl⟩
      · dsimp only at hnext
        split at hnext <;> cases hnext
        cases hstage₁
  | partData name content => exact absurd hd (hstage name content)
  | ended =>
    simp only [next, hd] at hnext
    cases hnext
  | failed phase =>
    simp only [next, hd] at hnext
    cases hnext

/-- A run that asks for more in part data was there from the start, or has
reached the beginning of the data. It has not met the delimiter since. -/
theorem opens_of_run {name : String} {content : Content}
    (h : (d.run s w false).result = .ok .needsMore)
    (hstage : (d.run s w false).decoder.stage = .partData name content) :
    (∃ name₀ content₀, d.stage = .partData name₀ content₀ ∧
      Delimiter.find? w d.delimiter = none) ∨
    ∃ heading d' s' data, d.Opens s w heading d' s' data ∧
      Delimiter.find? data d.delimiter = none := by
  induction d, s, w using run_induction false with
  | step d s w ih =>
    cases hnext : d.next s w false with
    | wait =>
      rw [run_of_wait hnext] at hstage
      rw [next_partData hstage] at hnext
      refine .inl ⟨name, content, hstage, ?_⟩
      rw [partData] at hnext
      split at hnext
      · split at hnext <;> cases hnext
      · assumption
    | finished =>
      rw [run_of_finished hnext] at h
      cases h
    | fail e d' s' =>
      rw [run_of_fail hnext] at h
      cases h
    | advance n d₁ s₁ =>
      rw [run_of_advance hnext] at h hstage
      have hgoes := goesOn_of_advance hnext
      rcases ih n d₁ s₁ hnext h hstage with ⟨name₁, content₁, hstage₁, hnone⟩ |
        ⟨heading, d', s', data, hopens, hnone⟩
      · rw [hgoes.delimiter] at hnone
        by_cases hd : ∃ name₀ content₀, d.stage = .partData name₀ content₀
        · obtain ⟨name₀, content₀, hd⟩ := hd
          refine .inl ⟨name₀, content₀, hd, ?_⟩
          -- a delimiter in front would have ended the data
          rw [next_partData hd, partData] at hnext
          split at hnext
          · split at hnext <;> cases hnext
            cases hstage₁
          · assumption
        · have hd' : ∀ name content, d.stage ≠ .partData name content :=
            fun name content hsame => hd ⟨name, content, hsame⟩
          obtain ⟨heading, hopens⟩ := opens_of_next hnext hstage₁ hd'
          exact .inr ⟨heading, d₁, s₁, _, hopens, hnone⟩
      · rw [hgoes.delimiter] at hnone
        exact .inr ⟨heading, d', s', data, .of_step hnext hopens, hnone⟩

end Decoder

end Multipart

import Multipart.Proofs.Finality
import Multipart.Proofs.Framing
import Multipart.Proofs.ServerVariables

/-!
# Bodies that are cut off

What is left of a body that is cut off is accepted exactly if the hyphens of the closing
line are still there, and gives the same form (`Decoder.truncated_refused`). That
follows from the grammar: what is accepted is framed, a body is framed in one way
(`Framed.of_cut`, `Framed.cut`), and on bodies with the same parts a decoder does the
same (`Decoder.run_of_framed_alike`). Wherever it is cut off before, the decoder gives
an error and leaves no file.
-/

namespace Multipart

namespace Decoder

variable {d : Decoder} {s : Storage} {settings : Settings} {delimiter : Bytes} {form : Form}
  {token : String} {parts : List RawPart} {body body' : Bytes}

/-! ## Bodies with the same parts -/

/-- A decoder that gets through a body gets through every body with the same parts,
and comes to the same. -/
theorem run_of_framed_alike (hm : delimiter ≠ []) (hbody : Framed settings delimiter parts body)
    (hbody' : Framed settings delimiter parts body')
    (hrun : (run ⟨settings, delimiter, .boundaryLine, form⟩ s body true).result =
      .ok .complete) :
    ∃ used, run ⟨settings, delimiter, .boundaryLine, form⟩ s body' true =
      { run ⟨settings, delimiter, .boundaryLine, form⟩ s body true with used } := by
  induction parts generalizing body body' form s with
  | nil =>
    obtain ⟨used, hclosed⟩ : ∃ used, run ⟨settings, delimiter, .boundaryLine, form⟩ s body true =
        ⟨.ok .complete, ⟨settings, delimiter, .ended, form⟩, s, used⟩ := run_of_closing hbody
    obtain ⟨used', hclosed'⟩ : ∃ used, run ⟨settings, delimiter, .boundaryLine, form⟩ s body' true =
        ⟨.ok .complete, ⟨settings, delimiter, .ended, form⟩, s, used⟩ := run_of_closing hbody'
    exact ⟨used', by rw [hclosed, hclosed']⟩
  | cons p parts ih =>
    obtain ⟨hp, rest, rfl, hleft, hrest⟩ := hbody
    obtain ⟨-, rest', rfl, hleft', hrest'⟩ := hbody'
    obtain ⟨published, s', -, hleads⟩ := leads_part_of_complete hm hp hleft hrun
    obtain ⟨used, hfirst⟩ := hleads rest hleft
    obtain ⟨used', hfirst'⟩ := hleads rest' hleft'
    obtain ⟨later, hlater⟩ := ih hrest hrest' ((hleads rest hleft).complete hrun)
    exact ⟨used', by rw [hfirst, hfirst', hlater]⟩

/-- A new decoder that accepts a body has got through it. -/
theorem run_of_finish (hnew : new token settings = .ok d)
    (h : (d.finish s (InputBuffer.empty.push body)).result = .ok form) :
    (d.run s body true).result = .ok .complete ∧ (d.run s body true).decoder.form = form := by
  have hd := hasFailed_of_next_wait (next_new (s := s) hnew)
  have hpass := result_pass_of_finish h
  have hrun := (result_pass hd).symm.trans hpass
  rw [finish_of_complete hpass, (pass_of_ok hd hrun).2.1] at h
  rw [show (InputBuffer.empty.push body).unread = body by simp] at hrun h
  exact ⟨hrun, Except.ok.inj h⟩

/-- What a new decoder accepts is framed. -/
theorem framed_of_finish (hnew : new token settings = .ok d)
    (h : (d.finish s (InputBuffer.empty.push body)).result = .ok form) :
    ∃ parts, Framed settings (Delimiter.ofToken token) parts body := by
  have hrun := (run_of_finish hnew h).1
  obtain rfl := eq_of_new hnew
  exact framedFrom_of_complete (Delimiter.ofToken_ne_nil token) hrun

/-- Bodies with the same parts are accepted alike, with the same form and the same files. -/
theorem finish_of_framed_alike (hnew : new token settings = .ok d)
    (hbody : Framed settings (Delimiter.ofToken token) parts body)
    (hbody' : Framed settings (Delimiter.ofToken token) parts body')
    (h : (d.finish s (InputBuffer.empty.push body)).result = .ok form) :
    (d.finish s (InputBuffer.empty.push body')).result = .ok form ∧
      (d.finish s (InputBuffer.empty.push body')).storage =
        (d.finish s (InputBuffer.empty.push body)).storage := by
  obtain ⟨hrun, hform⟩ := run_of_finish hnew h
  have hd := hasFailed_of_next_wait (next_new (s := s) hnew)
  obtain rfl := eq_of_new hnew
  obtain ⟨used, halike⟩ := run_of_framed_alike (Delimiter.ofToken_ne_nil token) hbody hbody' hrun
  rw [← show (InputBuffer.empty.push body').unread = body' by simp] at halike
  rw [← show (InputBuffer.empty.push body).unread = body by simp] at hrun halike hform
  obtain ⟨hres, -, hsto, -⟩ := pass_of_ok hd hrun
  obtain ⟨hres', hdec', hsto', -⟩ := pass_of_ok hd ((congrArg Run.result halike).trans hrun)
  rw [finish_of_complete hres, finish_of_complete hres', hdec', hsto, hsto', halike]
  exact ⟨congrArg Except.ok hform, rfl⟩

/-! ## Bodies that are refused -/

/-- Where pieces do not lead to a form, one of them or the end is answered with an error,
and no file is left. -/
theorem refused_of_feedAll (hnew : new token settings = .ok d) (pieces : List Bytes)
    (h : let fed := d.feedAll s .empty pieces
      ∀ form, (fed.decoder.finish fed.storage fed.buffer).result ≠ .ok form) :
    let fed := d.feedAll s .empty pieces
    let done := fed.decoder.finish fed.storage fed.buffer
    (∃ e, fed.result = .error e ∧ fed.storage.Cleared (settings.origin s)) ∨
      fed.result = .ok .needsMore ∧
        ∃ e, done.result = .error e ∧ done.storage.Cleared (settings.origin s) := by
  intro fed done
  have hfed : Session.Tidy (settings.origin s) ⟨some fed.decoder, fed.storage, []⟩ :=
    (Session.tidy_new hnew s).feedAll .empty pieces
  cases hres : fed.result with
  | error e =>
    obtain ⟨d₀, hfail⟩ := decoder_of_feedAll_error (hasHandle_new hnew) (next_new hnew) pieces hres
    refine .inl ⟨e, rfl, hfed.cleared_of_failed ?_⟩
    rw [show fed.decoder = d₀.fail from hfail]
    rfl
  | ok progress =>
    cases progress with
    | complete =>
      exact absurd (finish_of_ended (stage_of_feedAll hres) _ _).1 (h _)
    | needsMore =>
      cases hdone : done.result with
      | ok form => exact absurd hdone (h form)
      | error e =>
        have htidy := hfed.step (.finish fed.buffer)
        rw [show Session.step ⟨some fed.decoder, fed.storage, []⟩ (.finish fed.buffer) =
          ⟨some done.decoder, done.storage, done.result.toOption.toList⟩ from rfl, hdone] at htidy
        refine .inr ⟨rfl, e, rfl, htidy.cleared_of_failed ?_⟩
        exact (gaveUp_finish (hfed.failed _ rfl) hdone).1

/-! ## The cut -/

/-- A body that is cut off is refused. Whatever a new decoder accepts has parts and, behind
them, a closing line. If no opening line looks like that, the front of the body is accepted
exactly if it ends behind the hyphens of the closing line, with the same form, in whatever
pieces it comes. From any other front comes an error, and no file is left. -/
theorem truncated_refused (hnew : new token settings = .ok d)
    (haccepted : (d.finish s (InputBuffer.empty.push body)).result = .ok form) :
    let marker := Delimiter.ofToken token
    (∃ parts, Framed settings marker parts body) ∧
    ∀ parts, Framed settings marker parts body → (∀ p ∈ parts, ¬p.LooksClosing marker) →
      let closing := (parts.flatMap RawPart.bytes).length
      Line.StartsWith settings.maxLineLength (marker ++ [Bytes.hyphen, Bytes.hyphen])
        (body.drop closing) ∧
      ∀ k ≤ body.length, ∀ pieces : List Bytes, pieces.flatten = body.take k →
        let fed := d.feedAll s .empty pieces
        let done := fed.decoder.finish fed.storage fed.buffer
        ((∃ form', done.result = .ok form') ↔ closing + marker.length + 2 ≤ k) ∧
        (∀ form', done.result = .ok form' → form' = form) ∧
        (k < closing + marker.length + 2 →
          (∃ e, fed.result = .error e ∧ fed.storage.Cleared (settings.origin s)) ∨
            fed.result = .ok .needsMore ∧
              ∃ e, done.result = .error e ∧ done.storage.Cleared (settings.origin s)) := by
  intro marker
  have hopen := hasHandle_new hnew
  have hwait : d.next s InputBuffer.empty.unread false = .wait := next_new hnew
  refine ⟨framed_of_finish hnew haccepted, fun parts hbody hlooks => ?_⟩
  intro closing
  refine ⟨hbody.closing, fun k hk pieces hpieces => ?_⟩
  intro fed done
  have hlength : (body.take k).length = k := List.length_take_of_le hk
  have hcut : Framed settings marker parts (body.take k ++ body.drop k) := by
    rwa [List.take_append_drop]
  have hdone {form' : Form} : done.result = .ok form' ↔
      (d.finish s (InputBuffer.empty.push (body.take k))).result = .ok form' := by
    rw [← hpieces]
    exact finish_feedAll_eq_ok_iff hopen hwait pieces
  -- With the hyphens the parts are the same, so the form is.
  have haccepts (hreaches : closing + marker.length + 2 ≤ k) : done.result = .ok form :=
    hdone.mpr (finish_of_framed_alike hnew hbody (hcut.cut (by rw [hlength]; omega)) haccepted).1
  have hreaches {form' : Form} (hform' : done.result = .ok form') :
      closing + marker.length + 2 ≤ k := by
    obtain ⟨parts', hparts'⟩ := framed_of_finish hnew (hdone.mp hform')
    have hle := (hcut.of_cut (Delimiter.ofToken_ne_nil token) hlooks hparts').2
    rw [hlength] at hle
    omega
  refine ⟨⟨fun ⟨form', hform'⟩ => hreaches hform', fun h => ⟨form, haccepts h⟩⟩, ?_, ?_⟩
  · intro form' hform'
    exact Except.ok.inj (hform'.symm.trans (haccepts (hreaches hform')))
  · intro hshort
    refine refused_of_feedAll hnew pieces fun form' hform' => ?_
    exact absurd (hreaches hform') (Nat.not_le.mpr hshort)

/-- A body with a file, cut off behind the closing hyphens and one byte before. -/
theorem truncated_refused_of_file :
    let s : Storage := ⟨.ofFolders [["tmp"]], ⟨1, 0, 0⟩⟩
    let body := Text.toBytes
      "--B\nContent-Disposition: x; name=a; filename=f\n\nx\r\n--B--\r\n"
    ∃ d form, new "B" .standard = .ok d ∧
      (d.finish s (InputBuffer.empty.push body)).result = .ok form ∧
      (let fed := d.feedAll s .empty [body.take 20, (body.take 56).drop 20]
      (fed.decoder.finish fed.storage fed.buffer).result = .ok form) ∧
      (let fed := d.feedAll s .empty [body.take 20, (body.take 55).drop 20]
      ¬∃ form', (fed.decoder.finish fed.storage fed.buffer).result = .ok form') := by
  intro s body
  have hnew := new_of_ne .standard (show "B" ≠ "" by decide)
  let file : RawPart :=
    ⟨Text.toBytes "--B", [Text.toBytes "Content-Disposition: x; name=a; filename=f"], [],
      Text.toBytes "x\r\n"⟩
  have hfile : file.WellFormed .standard (Delimiter.ofToken "B") :=
    RawPart.wellFormed_of_label ⟨"a", some ("f", none)⟩ (by simp only [Line.Fits]; decide +kernel)
      (by decide +kernel) (by decide +kernel) (by decide +kernel) (by decide +kernel)
      (by decide +kernel) (by decide +kernel)
  have hbody : Framed .standard (Delimiter.ofToken "B") [file] body := by
    refine ⟨hfile, Text.toBytes "--B--\r\n", by decide +kernel, ?_, ?_⟩
    · exact (Delimiter.find?_eq_some_iff.mp (by decide +kernel)).2
    · exact ⟨Text.toBytes "--B--\r", ⟨by decide +kernel, by decide +kernel⟩, by decide +kernel,
        .inr ⟨[], by decide +kernel⟩⟩
  have haccepts : (Settings.standard.origin s).Accepts
      (Label.filenames ([file].flatMap RawPart.contents)) :=
    Origin.accepts_of_isOk (by decide +kernel)
  obtain ⟨-, honce, -⟩ := finish_of_framed hnew hbody haccepts
  have hlooks : ∀ p ∈ [file], ¬p.LooksClosing (Delimiter.ofToken "B") := by
    simp only [RawPart.LooksClosing]
    decide +kernel
  obtain ⟨-, hcuts⟩ := truncated_refused hnew honce
  obtain ⟨-, hcuts⟩ := hcuts [file] hbody hlooks
  have hclosing : ([file].flatMap RawPart.bytes).length + (Delimiter.ofToken "B").length + 2 =
      56 := by
    decide +kernel
  rw [hclosing] at hcuts
  obtain ⟨haccepted, hsame, -⟩ := hcuts 56 (by decide +kernel)
    [body.take 20, (body.take 56).drop 20] (by decide +kernel)
  obtain ⟨hrefused, -⟩ := hcuts 55 (by decide +kernel)
    [body.take 20, (body.take 55).drop 20] (by decide +kernel)
  obtain ⟨form', hform'⟩ := haccepted.mpr (Nat.le_refl _)
  exact ⟨_, _, hnew, honce, hsame form' hform' ▸ hform', mt hrefused.mp (by decide)⟩

end Decoder

end Multipart

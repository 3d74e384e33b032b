import Multipart.Proofs.Accepting
import Multipart.Proofs.Publication

/-!
# What the server's variables say

Whatever form a decoder hands over, the parts of the body were published
in it one by one (`Decoder.published_of_complete`). So the variables of the
server say what the server wrote, unless the body has a plain field of
that name behind it (`Decoder.serverVariables_of_handedOver`).

The parts are those of the grammar, but the argument runs from the end:
the decoder has got through the body, so each step did what it was to do.
-/

namespace Multipart

/-- What a part is published as. The path of its file is the server's to
choose. -/
inductive RawPart.PublishedAs (p : RawPart) : Publication → Prop where
  | plain {name : String} (h : p.label? = some ⟨name, none⟩) :
      PublishedAs p (.plain name (Bytes.trimCrlf p.data))
  | file {name clientName : String} {contentType : Option String}
      (h : p.label? = some ⟨name, some (clientName, contentType)⟩) (path : FilePath) :
      PublishedAs p
        (.file name ⟨clientName, path, contentType, (Bytes.trimCrlf p.data).length⟩)

namespace Decoder

variable {d d' : Decoder} {s s' : Storage} {w w' : Bytes} {settings : Settings}
  {delimiter : Bytes} {form : Form}

theorem Leads.complete (h : d.Leads s w d' s' w')
    (hrun : (d.run s w true).result = .ok .complete) :
    (d'.run s' w' true).result = .ok .complete := by
  obtain ⟨used, hused⟩ := h
  rwa [hused] at hrun

theorem Leads.form_eq (h : d.Leads s w d' s' w') :
    (d.run s w true).decoder.form = (d'.run s' w' true).decoder.form := by
  obtain ⟨used, hused⟩ := h
  rw [hused]

/-- Header lines that a decoder has got through lead to the data, with a file
that is still empty. What stands behind them makes no difference to that. -/
theorem leads_headerLines_of_complete (lines : List Bytes) {blank : Bytes} (rest : Bytes)
    (hfits : ∀ line ∈ lines ++ [blank], Line.Fits settings.maxLineLength line)
    (hcontents : ∀ content ∈ lines.map Bytes.dropCr, content ≠ [])
    (hblank : Bytes.dropCr blank = []) {heading : Option Heading} {label : Label}
    (hlabel : (lines.map Bytes.dropCr).foldlM Label.readLine (heading.map Heading.label) =
      some (some label))
    (hempty : FilePart.All (fun t => t.size = 0) (Heading.part? heading))
    (hrun : (run ⟨settings, delimiter, .headerLines heading, form⟩ s
      (joinLines lines ++ (blank ++ Bytes.lf :: rest)) true).result = .ok .complete) :
    ∃ (heading' : Heading) (s' : Storage),
      (∀ rest, Leads ⟨settings, delimiter, .headerLines heading, form⟩ s
        (joinLines lines ++ (blank ++ Bytes.lf :: rest))
        ⟨settings, delimiter, .partData heading'.name (.ofHeading heading'), form⟩ s' rest) ∧
      heading'.label = label ∧ FilePart.All (fun t => t.size = 0) heading'.file := by
  induction lines generalizing heading s with
  | nil =>
    obtain ⟨heading, rfl, rfl⟩ : ∃ h, heading = some h ∧ h.label = label := by
      cases heading with
      | none => cases hlabel
      | some heading => exact ⟨heading, rfl, Option.some.inj (Option.some.inj hlabel)⟩
    exact ⟨heading, s, leads_blankLine delimiter (hfits blank (by simp)) hblank heading, rfl,
      hempty⟩
  | cons line lines ih =>
    have hline : Line.Fits settings.maxLineLength line := hfits line (by simp)
    have hne : Bytes.dropCr line ≠ [] := hcontents _ (by simp)
    rw [joinLines_cons_append] at hrun
    have herror : (Heading.read settings (Text.decode (Bytes.dropCr line)) heading s).error =
        none := by
      obtain ⟨n, d', s', hnext⟩ := advance_of_complete hrun Stage.noConfusion
      rw [next_headerLines rfl (Line.next_of_fits hline _ true)] at hnext
      simp only [headerLine, List.isEmpty_iff, hne, if_false] at hnext
      split at hnext
      · cases hnext
      · next herror => exact herror
    have hleads (rest : Bytes) := leads_headerLine delimiter form hline hne herror
      (joinLines lines ++ (blank ++ Bytes.lf :: rest))
    rw [List.map_cons, List.foldlM_cons, Heading.label_read herror] at hlabel
    obtain ⟨heading', s', hdata, hrest⟩ := ih (fun l hl => hfits l (by simp_all))
      (fun l hl => hcontents l (by simp_all)) hlabel
      (Heading.all_read (fun _ _ _ hcreate => (TempFile.create_spec hcreate).2.1) hempty)
      ((hleads rest).complete hrun)
    refine ⟨heading', s', fun rest => ?_, hrest⟩
    rw [joinLines_cons_append]
    exact (hleads rest).trans (hdata rest)

/-- Data that a decoder has got through is published, also if something else stands
behind it, as long as it ends at the same place. -/
theorem leads_partData_of_complete {p : RawPart} {rest : Bytes} (hm : delimiter ≠ [])
    (hleft : Delimiter.Leftmost delimiter (p.data ++ rest) p.data.length) {heading : Heading}
    (hlabel : p.label? = some heading.label)
    (hempty : FilePart.All (fun t => t.size = 0) heading.file)
    (hrun : (run ⟨settings, delimiter, .partData heading.name (.ofHeading heading), form⟩ s
      (p.data ++ rest) true).result = .ok .complete) :
    ∃ (published : Publication) (s' : Storage), p.PublishedAs published ∧
      ∀ rest, Delimiter.Leftmost delimiter (p.data ++ rest) p.data.length →
        Leads ⟨settings, delimiter, .partData heading.name (.ofHeading heading), form⟩ s
          (p.data ++ rest)
          ⟨settings, delimiter, .boundaryLine, published.publish form⟩ s' rest := by
  have hfind {rest : Bytes} (hleft : Delimiter.Leftmost delimiter (p.data ++ rest) p.data.length) :
      Delimiter.find? (p.data ++ rest) delimiter = some p.data.length :=
    Delimiter.find?_eq_some_iff.mpr ⟨hm, hleft⟩
  obtain ⟨n, d', s', hnext⟩ := advance_of_complete hrun nofun
  cases hwrite : (Content.ofHeading heading).write settings.maxFieldSize
      (Bytes.trimCrlf ((p.data ++ rest).take p.data.length)) s with
  | error e =>
    rw [next_partData rfl, partData_of_found_error (hfind hleft) hwrite] at hnext
    cases hnext
  | ok result =>
    obtain ⟨content, s₁⟩ := result
    rw [List.take_left] at hwrite
    have hleads (rest : Bytes)
        (hleft : Delimiter.Leftmost delimiter (p.data ++ rest) p.data.length) :
        Leads ⟨settings, delimiter, .partData heading.name (.ofHeading heading), form⟩ s
          (p.data ++ rest) ⟨settings, delimiter, .boundaryLine,
            (form.publishPart heading.name s₁ content).1⟩
          (form.publishPart heading.name s₁ content).2 rest := by
      refine .of_advance ((next_partData rfl).trans (partData_of_found (hfind hleft) ?_))
        (List.drop_left ..)
      rwa [List.take_left]
    obtain ⟨name, _ | part⟩ := heading
    · simp only [Content.ofHeading, Content.write] at hwrite
      split at hwrite <;> cases hwrite
      exact ⟨_, _, .plain hlabel, hleads⟩
    · simp only [Content.ofHeading, Content.write] at hwrite
      split at hwrite <;> cases hwrite
      next t happend =>
      have hsize : t.size = (Bytes.trimCrlf p.data).length := by
        rw [TempFile.append_spec happend, hempty part rfl, Nat.zero_add]
      rw [show (form.publishPart name s₁ (.file { part with target := t })).1 =
        Publication.publish form (.file name
          ⟨part.clientName, t.path, part.contentType, (Bytes.trimCrlf p.data).length⟩) by
          rw [← hsize]
          rfl] at hleads
      exact ⟨_, _, .file hlabel t.path, hleads⟩

/-- A part that a decoder has got through is published, whatever stands behind it. -/
theorem leads_part_of_complete (hm : delimiter ≠ []) {p : RawPart}
    (hp : p.WellFormed settings delimiter) {rest : Bytes}
    (hleft : Delimiter.Leftmost delimiter (p.data ++ rest) p.data.length)
    (hrun : (run ⟨settings, delimiter, .boundaryLine, form⟩ s (p.bytes ++ rest) true).result =
      .ok .complete) :
    ∃ (published : Publication) (s' : Storage), p.PublishedAs published ∧
      ∀ rest, Delimiter.Leftmost delimiter (p.data ++ rest) p.data.length →
        Leads ⟨settings, delimiter, .boundaryLine, form⟩ s (p.bytes ++ rest)
          ⟨settings, delimiter, .boundaryLine, published.publish form⟩ s' rest := by
  obtain ⟨label, hlabel, -⟩ := hp.label
  have hlabel? : p.label? = some label := by rw [RawPart.label?, hlabel]; rfl
  have hopening (rest : Bytes) := leads_opening hp rest form s
  have hlines : (p.headers.map Bytes.dropCr).foldlM Label.readLine
      ((none : Option Heading).map Heading.label) = some (some label) := hlabel
  obtain ⟨heading, s₁, hheaders, rfl, hempty⟩ := leads_headerLines_of_complete p.headers
    (p.data ++ rest) (fun line hline => hp.fits line (by simp_all)) hp.headers hp.blank hlines
    FilePart.all_none ((hopening rest).complete hrun)
  have hfirst (rest : Bytes) := (hopening rest).trans (hheaders (p.data ++ rest))
  obtain ⟨published, s₂, hpublished, hdata⟩ :=
    leads_partData_of_complete hm hleft hlabel? hempty ((hfirst rest).complete hrun)
  exact ⟨published, s₂, hpublished, fun rest hleft => (hfirst rest).trans (hdata rest hleft)⟩

/-- A decoder that has got through a body has published its parts, one after
the other. -/
theorem published_of_complete (hm : delimiter ≠ []) {parts : List RawPart} {body : Bytes}
    (hbody : Framed settings delimiter parts body)
    (hrun : (run ⟨settings, delimiter, .boundaryLine, form⟩ s body true).result =
      .ok .complete) :
    ∃ published, List.Forall₂ RawPart.PublishedAs parts published ∧
      (run ⟨settings, delimiter, .boundaryLine, form⟩ s body true).decoder.form =
        Publication.publishAll form published := by
  induction parts generalizing body form s with
  | nil =>
    refine ⟨[], .nil, ?_⟩
    obtain ⟨used, hclosed⟩ : ∃ used, run ⟨settings, delimiter, .boundaryLine, form⟩ s body true =
        ⟨.ok .complete, ⟨settings, delimiter, .ended, form⟩, s, used⟩ := run_of_closing hbody
    rw [hclosed]
    rfl
  | cons p parts ih =>
    obtain ⟨hp, rest, rfl, hleft, hrest⟩ := hbody
    obtain ⟨first, s', hfirst, hleads⟩ := leads_part_of_complete hm hp hleft hrun
    have hthis := hleads rest hleft
    obtain ⟨published, hpublished, hform⟩ := ih hrest (hthis.complete hrun)
    exact ⟨first :: published, .cons hfirst hpublished, hthis.form_eq.trans hform⟩

/-! ## Forms that are handed over -/

/-- In whatever form is handed over, the server's variables say what the server
wrote, up to the plain fields of their names behind that. -/
theorem serverVariables_of_handedOver {token : String} (hnew : new token settings = .ok d)
    (s : Storage) (pieces : List Bytes)
    (hform : let fed := d.feedAll s .empty pieces
      (fed.decoder.finish fed.storage fed.buffer).result = .ok form ∨
        (fed.decoder.intoForm fed.storage).1 = .ok form) :
    ∃ parts published, Framed settings (Delimiter.ofToken token) parts pieces.flatten ∧
      List.Forall₂ RawPart.PublishedAs parts published ∧
      form.ServerVariables settings.uploadDir published := by
  have hwait : d.next s InputBuffer.empty.unread false = .wait := next_new hnew
  have honce : (d.finish s (InputBuffer.empty.push pieces.flatten)).result = .ok form := by
    rw [← finish_feedAll_eq_ok_iff (hasHandle_new hnew) hwait]
    exact hform.elim id fun h => finish_of_intoForm h _
  have hcomplete := result_pass_of_finish honce
  rw [finish_of_complete hcomplete] at honce
  have hd := hasFailed_of_next_wait hwait
  rw [result_pass hd] at hcomplete
  rw [(pass_of_ok hd hcomplete).2.1] at honce
  rw [show (InputBuffer.empty.push pieces.flatten).unread = pieces.flatten by simp]
    at hcomplete honce
  have hm : Delimiter.ofToken token ≠ [] := by simp [Delimiter.ofToken]
  obtain rfl := eq_of_new hnew
  obtain ⟨parts, hbody⟩ := framedFrom_of_complete hm hcomplete
  obtain ⟨published, hpublished, hrun⟩ := published_of_complete hm hbody hcomplete
  refine ⟨parts, published, hbody, hpublished, ?_⟩
  rw [← Except.ok.inj honce, hrun]
  exact Form.serverVariables_publishAll settings.uploadDir published

/-- A plain field that is named like the path of a file in front of it. -/
theorem serverVariables_of_forged_path :
    let s : Storage := ⟨.ofFolders [["tmp"]], ⟨1, 0, 0⟩⟩
    let body := Text.toBytes ("--B\nContent-Disposition: x; name=a; filename=f\n\nx\r\n" ++
      "--B\nContent-Disposition: x; name=FILE_FILENAME_a\n\n/etc\r\n--B--\n")
    ∃ d form parts published, new "B" .standard = .ok d ∧
      (let fed := d.feedAll s .empty [body]
      (fed.decoder.finish fed.storage fed.buffer).result = .ok form) ∧
      List.Forall₂ RawPart.PublishedAs parts published ∧
      form.ServerVariables Settings.standard.uploadDir published := by
  intro s body
  have hnew := new_of_ne .standard (show "B" ≠ "" by decide)
  let file : RawPart :=
    ⟨Text.toBytes "--B", [Text.toBytes "Content-Disposition: x; name=a; filename=f"], [],
      Text.toBytes "x\r\n"⟩
  let plain : RawPart :=
    ⟨Text.toBytes "--B", [Text.toBytes "Content-Disposition: x; name=FILE_FILENAME_a"], [],
      Text.toBytes "/etc\r\n"⟩
  have hfile : file.WellFormed .standard (Delimiter.ofToken "B") :=
    RawPart.wellFormed_of_label ⟨"a", some ("f", none)⟩ (by simp only [Line.Fits]; decide +kernel)
      (by decide +kernel) (by decide +kernel) (by decide +kernel) (by decide +kernel)
      (by decide +kernel) (by decide +kernel)
  have hplain : plain.WellFormed .standard (Delimiter.ofToken "B") :=
    RawPart.wellFormed_of_label ⟨"FILE_FILENAME_a", none⟩
      (by simp only [Line.Fits]; decide +kernel) (by decide +kernel) (by decide +kernel)
      (by decide +kernel) (by decide +kernel) (by decide +kernel) (by decide +kernel)
  have hbody : Framed .standard (Delimiter.ofToken "B") [file, plain] [body].flatten := by
    refine ⟨hfile, plain.bytes ++ Text.toBytes "--B--\n", by decide +kernel, ?_, hplain,
      Text.toBytes "--B--\n", rfl, ?_, ?_⟩
    · exact (Delimiter.find?_eq_some_iff.mp (by decide +kernel)).2
    · exact (Delimiter.find?_eq_some_iff.mp (by decide +kernel)).2
    · exact ⟨Text.toBytes "--B--", ⟨by decide +kernel, by decide +kernel⟩, by decide +kernel,
        .inr ⟨[], by decide +kernel⟩⟩
  have haccepts : (Settings.standard.origin s).Accepts
      (Label.filenames ([file, plain].flatMap RawPart.contents)) :=
    Origin.accepts_of_isOk (by decide +kernel)
  obtain ⟨-, honce, -⟩ := finish_of_framed hnew hbody haccepts
  have hform := (finish_feedAll_eq_ok_iff (hasHandle_new hnew) (next_new hnew) [body]).mpr honce
  obtain ⟨parts, published, -, hpublished, hvars⟩ :=
    serverVariables_of_handedOver hnew s [body] (.inl hform)
  exact ⟨_, _, parts, published, hnew, hform, hpublished, hvars⟩

/-- A plain field takes the place of the upload folder. -/
theorem uploadDir_overwritten :
    let s : Storage := ⟨.ofFolders [["tmp"]], ⟨1, 0, 0⟩⟩
    let body := Text.toBytes
      "--B\r\nContent-Disposition: form-data; name=\"UPLOAD_DIR\"\r\n\r\n/etc\r\n--B--\r\n"
    ∃ d form, new "B" .standard = .ok d ∧
      (let fed := d.feedAll s .empty [body]
      (fed.decoder.finish fed.storage fed.buffer).result = .ok form) ∧
      form.vars.get? Form.uploadDirKey = some "/etc" ∧
      form.vars.get? Form.uploadDirKey ≠ some Settings.standard.uploadDir := by
  intro s body
  have hnew := new_of_ne .standard (show "B" ≠ "" by decide)
  let part : RawPart :=
    ⟨Text.toBytes "--B\r", [Text.toBytes "Content-Disposition: form-data; name=\"UPLOAD_DIR\"\r"],
      Text.toBytes "\r", Text.toBytes "/etc\r\n"⟩
  have hpart : part.WellFormed .standard (Delimiter.ofToken "B") :=
    RawPart.wellFormed_of_label ⟨"UPLOAD_DIR", none⟩ (by simp only [Line.Fits]; decide +kernel)
      (by decide +kernel) (by decide +kernel) (by decide +kernel) (by decide +kernel)
      (by decide +kernel) (by decide +kernel)
  have hbody : Framed .standard (Delimiter.ofToken "B") [part] [body].flatten := by
    refine ⟨hpart, Text.toBytes "--B--\r\n", by decide +kernel, ?_, ?_⟩
    · exact (Delimiter.find?_eq_some_iff.mp (by decide +kernel)).2
    · exact ⟨Text.toBytes "--B--\r", ⟨by decide +kernel, by decide +kernel⟩, by decide +kernel,
        .inr ⟨[], by decide +kernel⟩⟩
  have haccepts : (Settings.standard.origin s).Accepts
      (Label.filenames ([part].flatMap RawPart.contents)) :=
    Origin.accepts_of_isOk (by decide +kernel)
  obtain ⟨-, honce, -⟩ := finish_of_framed hnew hbody haccepts
  have hform := (finish_feedAll_eq_ok_iff (hasHandle_new hnew) (next_new hnew) [body]).mpr honce
  exact ⟨_, _, hnew, hform, by decide +kernel, by decide +kernel⟩

end Decoder

end Multipart

import Multipart.Proofs.Delivery
import Multipart.Proofs.Truncation

/-!
# How a body may end

A closing line ends at a line feed, or where the body ends. A decoder that
takes its body from a reader is finished in the second case and turned into
its form in the first, and the form is the same (`Decoder.decodeBody_append_lf`).

Two facts carry that. A line feed at the end of a body leaves its parts as
they are (`Framed.append_lf`, `Framed.of_append_lf`), and behind a line feed
a step does the same whether or not more is to come (`Decoder.next_atEnd`).
-/

namespace Multipart

/-! ## The grammar -/

theorem Line.StartsWith.append_lf {maxLength : Nat} {content body : Bytes}
    (h : StartsWith maxLength content body) :
    StartsWith maxLength content (body ++ [Bytes.lf]) := by
  obtain ⟨line, hfits, hcontent, rfl | ⟨rest, rfl⟩⟩ := h
  · exact ⟨body, hfits, hcontent, .inr ⟨[], rfl⟩⟩
  · exact ⟨line, hfits, hcontent, .inr ⟨rest ++ [Bytes.lf], by simp⟩⟩

namespace Framed

variable {settings : Settings} {marker body : Bytes} {parts : List RawPart}

theorem append_lf (hm : marker ≠ []) (h : Framed settings marker parts body) :
    Framed settings marker parts (body ++ [Bytes.lf]) := by
  induction parts generalizing body with
  | nil => exact Line.StartsWith.append_lf h
  | cons p parts ih =>
    obtain ⟨hp, rest, rfl, hleft, hrest⟩ := h
    refine ⟨hp, rest ++ [Bytes.lf], List.append_assoc .., ?_, ih hrest⟩
    rw [← List.append_assoc]
    exact (Delimiter.leftmost_append_iff (hleft.1.add_length_le hm)).mpr hleft

/-- A line feed at the end is not needed. -/
theorem of_append_lf (h : Framed settings marker parts (body ++ [Bytes.lf])) :
    Framed settings marker parts body := by
  refine h.cut ?_
  have hclosing := h.closing
  -- The hyphens of the closing line stand in front of the line feed.
  have hfront : marker ++ [Bytes.hyphen, Bytes.hyphen] <+:
      body.drop (parts.flatMap RawPart.bytes).length ++ Bytes.lf :: [] := by
    refine hclosing.content_prefix.trans ?_
    rw [List.drop_append, List.prefix_append_right_inj]
    generalize (parts.flatMap RawPart.bytes).length - body.length = past
    cases past <;> simp
  have hbehind := Line.prefix_of_prefix_append_lf hfront hclosing.lf_not_mem
  have hle := hbehind.length_le
  simp only [List.length_append, List.length_cons, List.length_nil, List.length_drop] at hle
  omega

end Framed

/-! ## Behind a line feed -/

/-- All there is are whole lines. -/
def Bytes.EndsLine (window : Bytes) : Prop := ∀ b ∈ window.getLast?, b = lf

theorem Bytes.EndsLine.drop {window : Bytes} (h : EndsLine window) (n : Nat) :
    EndsLine (window.drop n) := by
  intro b hb
  rw [List.getLast?_drop] at hb
  split at hb
  · cases hb
  · exact h b hb

theorem Line.next_atEnd {maxLength : Nat} {window : Bytes} (h : window.EndsLine) :
    next maxLength false window = next maxLength true window := by
  rcases List.eq_nil_or_concat window with rfl | ⟨front, b, rfl⟩
  · rfl
  · obtain rfl : b = Bytes.lf := h b (by simp)
    have hend : isTerminated (front.concat Bytes.lf) = true := by simp [isTerminated]
    simp only [next, hend, if_true]

/-! ## Whole bodies -/

/-- A reader that does not fail delivers no error. -/
theorem BodyReader.error?_deliver {r : BodyReader} (h : r.failure = none) (wanted : Nat) :
    (r.deliver wanted).error? = none := by
  fun_induction deliver r wanted with
  | case1 r cause herror =>
    rw [error?, h] at herror
    cases herror
  | case2 => rfl
  | case3 r _ _ later ih => exact ih h

namespace Decoder

variable {d : Decoder} {s s' : Storage} {token : String} {settings : Settings} {w body : Bytes}
  {form : Form}

/-- Where a line has just ended, it makes no difference whether more is to come. -/
theorem next_atEnd (h : w.EndsLine) : d.next s w false = d.next s w true := by
  rw [next, next, Line.next_atEnd h]

theorem run_atEnd (h : w.EndsLine) : d.run s w false = d.run s w true := by
  induction d, s, w using run_induction false with
  | step d s w ih =>
    have hsame : d.next s w true = d.next s w false := (next_atEnd h).symm
    cases hnext : d.next s w false with
    | wait => rw [run_of_wait hnext, run_of_wait (hsame.trans hnext)]
    | finished => rw [run_of_finished hnext, run_of_finished (hsame.trans hnext)]
    | fail e d' s' => rw [run_of_fail hnext, run_of_fail (hsame.trans hnext)]
    | advance n d' s' =>
      rw [run_of_advance hnext, run_of_advance (hsame.trans hnext), ih n d' s' hnext (h.drop n)]

/-- What a new decoder accepts is complete before the body ends if it ends with a line feed. -/
theorem feedAll_of_finish (hnew : new token settings = .ok d) (hend : body.EndsLine)
    (h : (d.finish s (InputBuffer.empty.push body)).result = .ok form) {pieces : List Bytes}
    (hpieces : pieces.flatten = body) : (d.feedAll s .empty pieces).result = .ok .complete := by
  have hd := hasFailed_of_next_wait (next_new (s := s) hnew)
  have hrun := (run_of_finish hnew h).1
  rw [← run_atEnd hend, ← show (InputBuffer.empty.push body).unread = body by simp] at hrun
  obtain ⟨hsame, -⟩ := feedAll_agrees_process (hasHandle_new hnew)
    (show d.next s InputBuffer.empty.unread false = .wait from next_new hnew) pieces
  rw [hpieces] at hsame
  exact hsame.result.trans ((result_pass hd).trans hrun)

/-- Whatever its pieces are, a body that is there to the end comes to what finishing with
it at once comes to. -/
theorem decoded_eq_finish (hnew : new token settings = .ok d) {pieces : List Bytes}
    (hpieces : pieces.flatten = body) :
    let decoded := (d.feedAll s .empty pieces).decoded none
    let once := d.finish s (InputBuffer.empty.push body)
    decoded.1 = once.result ∧ ∀ form, once.result = .ok form → decoded.2 = once.storage := by
  intro decoded once
  have hopen := hasHandle_new hnew
  have hwait : d.next s InputBuffer.empty.unread false = .wait := next_new hnew
  cases hres : (d.feedAll s .empty pieces).result with
  | error e =>
    have hrefused := finish_of_feedAll_error hopen hwait pieces hres
    rw [hpieces] at hrefused
    have hdecoded : decoded.1 = .error e := congrArg Prod.fst (Outcome.decoded_of_error hres none)
    refine ⟨hdecoded.trans hrefused.symm, fun form hform => ?_⟩
    rw [show once.result = .error e from hrefused] at hform
    cases hform
  | ok progress =>
    have hagrees := finish_agrees_feedAll hopen hwait pieces hres
    rw [hpieces] at hagrees
    cases progress with
    | complete =>
      have hstage := stage_of_feedAll hres
      have hall : decoded = (d.feedAll s .empty pieces).decoder.intoForm _ :=
        Outcome.decoded_of_complete hres none
      rw [intoForm_of_ended hstage] at hall
      obtain ⟨hdone, hkept⟩ := finish_of_ended hstage (d.feedAll s .empty pieces).storage
        (d.feedAll s .empty pieces).buffer
      rw [hall]
      exact ⟨hdone.symm.trans hagrees.result.symm,
        fun form hform => hkept.symm.trans (hagrees.storage form hform).symm⟩
    | needsMore =>
      obtain ⟨hdone, hkept⟩ := Outcome.decoded_of_end hres
      refine ⟨hdone.trans hagrees.result.symm, fun form hform => ?_⟩
      exact (hkept form (hagrees.result.symm.trans hform)).trans (hagrees.storage form hform).symm

/-- Decoding a body that is there to the end is finishing with it at once. -/
theorem decodeBody_of_steady (hnew : new token settings = .ok d) {r : BodyReader}
    (hsteady : r.Steady) (hwhole : r.failure = none) :
    let once := d.finish s (InputBuffer.empty.push r.unread)
    (d.decodeBody s r).result = once.result ∧
      ∀ form, once.result = .ok form → (d.decodeBody s r).storage = once.storage := by
  intro once
  have herror := r.error?_deliver hwhole settings.readChunkSize
  have hbytes := r.bytes_deliver_of_steady hsteady settings.readChunkSize_pos herror
  have hpieces : [r.unread].flatten = (r.deliver settings.readChunkSize).bytes := by
    rw [hbytes, List.flatten_singleton]
  obtain ⟨hresult, hstorage⟩ := decodeBody_eq (s := s) hnew hpieces
  rw [herror] at hresult hstorage
  obtain ⟨hdecoded, hkept⟩ :=
    decoded_eq_finish (s := s) hnew (show [r.unread].flatten = r.unread by simp)
  have hsame : (d.decodeBody s r).result = once.result := hresult.trans hdecoded
  exact ⟨hsame, fun form hform => (hstorage form (hsame.trans hform)).trans (hkept form hform)⟩

/-- A new decoder finishes alike on two storages that are alike. -/
theorem finish_twin (hnew : new token settings = .ok d) (hfresh : (settings.origin s).Fresh)
    (hfresh' : (settings.origin s').Fresh)
    (halike : (settings.origin s).Alike (settings.origin s')) (buffer : InputBuffer) :
    let o := settings.origin s
    let o' := settings.origin s'
    Answer.Twin o o' (Form.Twin o o') (d.finish s buffer).result (d.finish s' buffer).result ∧
      (d.finish s buffer).storage.disk.Twin o o' (d.finish s' buffer).storage.disk := by
  intro o o'
  obtain ⟨c, hresult, hkeeps, hkeeps'⟩ :=
    finish_parallel halike (parallel_new hnew hfresh hfresh') (rfl : buffer.unread = buffer.unread)
  exact ⟨hresult, hkeeps.disk_twin hkeeps' hfresh hfresh'⟩

/-- A line feed at the end of what is accepted changes nothing. -/
theorem finish_append_lf (hnew : new token settings = .ok d) :
    let once := d.finish s (InputBuffer.empty.push body)
    let once' := d.finish s (InputBuffer.empty.push (body ++ [Bytes.lf]))
    (once.result = .ok form ↔ once'.result = .ok form) ∧
      (once.result = .ok form → once'.storage = once.storage) := by
  intro once once'
  have hm := Delimiter.ofToken_ne_nil token
  refine ⟨⟨fun h => ?_, fun h => ?_⟩, fun h => ?_⟩
  · obtain ⟨parts, hparts⟩ := framed_of_finish hnew h
    exact (finish_of_framed_alike hnew hparts (hparts.append_lf hm) h).1
  · obtain ⟨parts, hparts⟩ := framed_of_finish hnew h
    exact (finish_of_framed_alike hnew hparts hparts.of_append_lf h).1
  · obtain ⟨parts, hparts⟩ := framed_of_finish hnew h
    exact (finish_of_framed_alike hnew hparts (hparts.append_lf hm) h).2

/-- A body is decoded like the body with a line feed behind it, whatever the reads
are: to a form or not, and to the same form and the same files, up to the names of
temp files. With the line feed, the decoder is complete before the body ends. -/
theorem decodeBody_append_lf (hnew : new token settings = .ok d)
    (hfresh : (settings.origin s).Fresh) (hfresh' : (settings.origin s').Fresh)
    (halike : (settings.origin s).Alike (settings.origin s')) {r r' : BodyReader}
    (hsteady : r.Steady) (hsteady' : r'.Steady) (hwhole : r.failure = none)
    (hwhole' : r'.failure = none) (hunread : r'.unread = r.unread ++ [Bytes.lf]) :
    let o := settings.origin s
    let o' := settings.origin s'
    let decoded := d.decodeBody s r
    let decoded' := d.decodeBody s' r'
    ((∃ form, decoded.result = .ok form) ↔ ∃ form', decoded'.result = .ok form') ∧
      ∀ form form', decoded.result = .ok form → decoded'.result = .ok form' →
        form.Twin o o' form' ∧ decoded.storage.disk.Twin o o' decoded'.storage.disk ∧
        ∀ pieces, pieces.flatten = r'.unread →
          (d.feedAll s' .empty pieces).result = .ok .complete := by
  intro o o' decoded decoded'
  let once := d.finish s (InputBuffer.empty.push r.unread)
  let once₁ := d.finish s' (InputBuffer.empty.push r.unread)
  let once' := d.finish s' (InputBuffer.empty.push r'.unread)
  have hdecoded : decoded.result = once.result ∧
      ∀ form, once.result = .ok form → decoded.storage = once.storage :=
    decodeBody_of_steady hnew hsteady hwhole
  have hdecoded' : decoded'.result = once'.result ∧
      ∀ form, once'.result = .ok form → decoded'.storage = once'.storage :=
    decodeBody_of_steady hnew hsteady' hwhole'
  have htwin : Answer.Twin o o' (Form.Twin o o') once.result once₁.result ∧
      once.storage.disk.Twin o o' once₁.storage.disk :=
    finish_twin hnew hfresh hfresh' halike _
  have hlf (form : Form) : (once₁.result = .ok form ↔ once'.result = .ok form) ∧
      (once₁.result = .ok form → once'.storage = once₁.storage) := by
    simp only [once', hunread]
    exact finish_append_lf hnew
  rw [hdecoded.1, hdecoded'.1]
  obtain ⟨hresult, hdisk⟩ := htwin
  rcases hresult.elim with ⟨form, form₁, hres, hres₁, hform⟩ | ⟨e, e₁, hres, hres₁, -⟩
  · have hres' : once'.result = .ok form₁ := (hlf form₁).1.mp hres₁
    refine ⟨iff_of_true ⟨form, hres⟩ ⟨form₁, hres'⟩, ?_⟩
    intro form₂ form₂' hform₂ hform₂'
    obtain rfl : form = form₂ := Except.ok.inj (hres.symm.trans hform₂)
    obtain rfl : form₁ = form₂' := Except.ok.inj (hres'.symm.trans hform₂')
    refine ⟨hform, ?_, fun pieces hpieces => ?_⟩
    · rw [hdecoded.2 form hres, hdecoded'.2 form₁ hres', (hlf form₁).2 hres₁]
      exact hdisk
    · refine feedAll_of_finish hnew ?_ hres' hpieces
      rw [hunread]
      intro b hb
      simpa using hb.symm
  · have hnone (form : Form) : once.result ≠ .ok form := by
      rw [hres]
      exact nofun
    have hnone' (form : Form) : once'.result ≠ .ok form := by
      rw [Ne, ← (hlf form).1, hres₁]
      exact nofun
    refine ⟨iff_of_false (fun ⟨form, h⟩ => hnone form h) (fun ⟨form, h⟩ => hnone' form h), ?_⟩
    intro form form' hform
    exact absurd hform (hnone form)

/-- A body with a file, in two processes: one reads it in pieces of twenty bytes, the other
byte by byte with a line feed behind it. -/
theorem decodeBody_append_lf_of_file :
    let s : Storage := ⟨.ofFolders [["tmp"]], ⟨1, 0, 0⟩⟩
    let s' : Storage := ⟨.ofFolders [["tmp"]], ⟨2, 0, 0⟩⟩
    let body := Text.toBytes "--B\nContent-Disposition: x; name=a; filename=f\n\nx\r\n--B--"
    let r := BodyReader.ofBytes body (some 20) none
    let r' := BodyReader.ofBytes (body ++ [Bytes.lf]) (some 1) none
    ∃ d form form', new "B" .standard = .ok d ∧ (d.decodeBody s r).result = .ok form ∧
      (d.decodeBody s' r').result = .ok form' ∧
      form.Twin (Settings.standard.origin s) (Settings.standard.origin s') form' ∧
      (d.feedAll s' .empty [body ++ [Bytes.lf]]).result = .ok .complete := by
  intro s s' body r r'
  have hnew := new_of_ne .standard (show "B" ≠ "" by decide)
  have halike : (Settings.standard.origin s).Alike (Settings.standard.origin s') :=
    Settings.standard.alike_of_processes 1 2 (by decide)
  have hsteady : r.Steady := BodyReader.steady_ofBytes (by decide)
  have hsteady' : r'.Steady := BodyReader.steady_ofBytes (by decide)
  have hfresh : (Settings.standard.origin s).Fresh := fun _ _ _ => rfl
  have hfresh' : (Settings.standard.origin s').Fresh := fun _ _ _ => rfl
  obtain ⟨hiff, hsame⟩ :=
    decodeBody_append_lf hnew hfresh hfresh' halike hsteady hsteady' rfl rfl rfl
  let file : RawPart :=
    ⟨Text.toBytes "--B", [Text.toBytes "Content-Disposition: x; name=a; filename=f"], [],
      Text.toBytes "x\r\n"⟩
  have hbody : Framed .standard (Delimiter.ofToken "B") [file] body := by decide +kernel
  have haccepts : (Settings.standard.origin s).Accepts
      (Label.filenames ([file].flatMap RawPart.contents)) :=
    Origin.accepts_of_isOk (by decide +kernel)
  obtain ⟨-, honce, -⟩ := finish_of_framed hnew hbody haccepts
  have hform := (decodeBody_of_steady hnew hsteady rfl).1.trans honce
  obtain ⟨form', hform'⟩ := hiff.mp ⟨_, hform⟩
  obtain ⟨htwin, -, hcomplete⟩ := hsame _ form' hform hform'
  exact ⟨_, _, form', hnew, hform, hform', htwin, hcomplete _ List.flatten_singleton⟩

end Decoder

end Multipart

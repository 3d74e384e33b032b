import Mathlib
import Multipart.Proofs.Grammar
import Multipart.Proofs.Reaching

/-!
# Where a body ends

A run that completes completes on the bytes that it used up, too
(`Decoder.run_take_used`): the closing line is seen as soon as its line feed is
there, and nothing behind it is looked at. So bytes complete a body with their last
byte exactly if they complete it and none of them is left
(`Decoder.completesWith_iff`). Whatever comes behind them, and in whatever pieces,
stays in the buffer. The main statement is `Decoder.ends_exactly`.
-/

namespace Multipart

/-! ## Lines -/

/-- A line that was cut off at its line feed is a line of the bytes up to there, and
of all bytes that begin with these. -/
theorem Line.next_take {maxLength used : Nat} {window content : Bytes}
    (h : next maxLength false window = .whole content used) {n : Nat} (hn : used ≤ n) :
    next maxLength false (window.take n) = .whole content used ∧ content.length < used := by
  obtain ⟨line, hfits, rfl, hwindow⟩ := eq_of_next h
  obtain rfl : used = line.length + 1 := by
    rw [hwindow, next_of_fits hfits] at h
    exact (Line.whole.inj h).2.symm
  have htake : window.take n =
      line ++ Bytes.lf :: (window.drop (line.length + 1)).take (n - (line.length + 1)) := by
    conv => lhs; rw [hwindow]
    rw [List.take_append, List.take_of_length_le (by omega),
      show n - line.length = n - (line.length + 1) + 1 by omega, List.take_succ_cons]
  refine ⟨?_, ?_⟩
  · rw [htake]
    exact next_of_fits hfits _ false
  · exact Nat.lt_succ_of_le (Bytes.dropTail_prefix ..).length_le

namespace Decoder

variable {d : Decoder} {s : Storage} {w body : Bytes} {buffer : InputBuffer}

/-! ## Runs that complete -/

/-- From a boundary line on, a run that completes uses up the delimiter and more. -/
theorem length_delimiter_lt_used (hstage : d.stage = .boundaryLine)
    (h : (d.run s w false).result = .ok .complete) :
    d.delimiter.length < (d.run s w false).used := by
  obtain ⟨n, d', s', hnext⟩ := advance_of_complete h (by rw [hstage]; exact nofun)
  have hused : n ≤ (d.run s w false).used := by
    rw [run_of_advance hnext]
    exact Nat.le_add_right ..
  cases hline : Line.next d.settings.maxLineLength false w with
  | incomplete =>
    rw [next_of_line (.inl hstage), hline] at hnext
    cases hnext
  | tooLong =>
    rw [next_of_line (.inl hstage), hline] at hnext
    cases hnext
  | whole content used =>
    rw [next_boundaryLine hstage hline] at hnext
    obtain rfl := boundaryLine_advance hnext
    have hcontent := (Line.next_take hline (Nat.le_refl n)).2
    have hstarts : d.delimiter <+: content := by
      cases hkind : BoundaryLine.ofLine d.delimiter content with
      | malformed =>
        rw [boundaryLine, hkind] at hnext
        cases hnext
      | closing => exact ⟨_, (BoundaryLine.ofLine_eq_closing_iff.mp hkind).symm⟩
      | opening => exact (BoundaryLine.ofLine_eq_opening_iff.mp hkind).1
    have hle := hstarts.length_le
    omega

/-- A step of a run that completes is the same on the bytes that the run uses up. -/
theorem next_take_used {d' : Decoder} {s' : Storage} {n : Nat}
    (h : (d.run s w false).result = .ok .complete) (hnext : d.next s w false = .advance n d' s') :
    d.next s (w.take (n + (d'.run s' (w.drop n) false).used)) false = .advance n d' s' := by
  have hline (hstage : d.AtLine) :
      d.next s (w.take (n + (d'.run s' (w.drop n) false).used)) false = .advance n d' s' := by
    rw [next_of_line hstage] at hnext ⊢
    cases hline : Line.next d.settings.maxLineLength false w with
    | incomplete =>
      rw [hline] at hnext
      cases hnext
    | tooLong =>
      rw [hline] at hnext
      cases hnext
    | whole content used =>
      rw [hline] at hnext
      obtain rfl := takeLine_advance hnext
      rw [(Line.next_take hline (Nat.le_add_right ..)).1]
      exact hnext
  cases hstage : d.stage with
  | boundaryLine => exact hline (.inl hstage)
  | headerLines heading => exact hline (.inr ⟨heading, hstage⟩)
  | partData name content =>
    -- The run goes on at the delimiter, and uses that up.
    obtain ⟨place, hfound⟩ := find?_of_complete hstage h
    have hrest := complete_of_advance h hnext
    have hdata := hnext
    rw [next_partData hstage] at hdata ⊢
    cases hwrite : content.write d.settings.maxFieldSize (Bytes.trimCrlf (w.take place)) s with
    | error e =>
      rw [partData_of_found_error hfound hwrite] at hdata
      cases hdata
    | ok out =>
      rw [partData_of_found hfound hwrite] at hdata
      obtain ⟨rfl, hstage'⟩ : place = n ∧ d'.stage = .boundaryLine := by
        cases hdata
        exact ⟨rfl, rfl⟩
      have hmarker := length_delimiter_lt_used hstage' hrest
      rw [(goesOn_of_advance hnext).delimiter] at hmarker
      generalize (d'.run s' (w.drop place) false).used = used at hmarker ⊢
      have hfit := Delimiter.add_length_le_of_find? hfound
      have hfound' : Delimiter.find? (w.take (place + used)) d.delimiter = some place := by
        refine Delimiter.find?_of_append (b := w.drop (place + used)) ?_ ?_
        · rwa [List.take_append_drop]
        · rw [List.length_take]
          omega
      rw [partData_of_found hfound' (by rwa [List.take_take, Nat.min_eq_left (by omega)])]
      exact hdata
  | ended =>
    simp only [next, hstage] at hnext
    cases hnext
  | failed phase =>
    simp only [next, hstage] at hnext
    cases hnext

/-- A run that completes does so on the bytes that it uses up. -/
theorem run_take_used (h : (d.run s w false).result = .ok .complete) :
    (d.run s (w.take (d.run s w false).used) false).result = .ok .complete := by
  induction d, s, w using run_induction false with
  | step d s w ih =>
    by_cases hended : d.stage = .ended
    · rw [run_of_ended hended]
    obtain ⟨n, d', s', hnext⟩ := advance_of_complete h hended
    have htake := next_take_used h hnext
    rw [run_of_advance hnext]
    dsimp only
    rw [run_of_advance htake, List.drop_take, Nat.add_sub_cancel_left]
    exact ih n d' s' hnext (complete_of_advance h hnext)

/-! ## Bytes that complete a body -/

/-- These bytes complete the body with their last one. -/
structure CompletesWith (d : Decoder) (s : Storage) (body : Bytes) : Prop where
  complete : (d.feed s .empty body).result = .ok .complete
  notBefore : ∀ n < body.length, (d.feed s .empty (body.take n)).result ≠ .ok .complete

/-- Bytes complete a body with their last one exactly if they do and none is left. -/
theorem completesWith_iff (hd : d.stage.hasFailed = false) (hopen : d.HasHandle) :
    d.CompletesWith s body ↔ (d.feed s .empty body).result = .ok .complete ∧
      (d.feed s .empty body).buffer.unread = [] := by
  have hresult (w : Bytes) : (d.feed s .empty w).result = (d.run s w false).result := by
    rw [feed, process, result_pass hd, InputBuffer.unread_push, InputBuffer.unread_empty,
      List.nil_append]
  have hunread (h : (d.run s body false).result = .ok .complete) :
      (d.feed s .empty body).buffer.unread = body.drop (d.run s body false).used := by
    have hpush : (InputBuffer.empty.push body).unread = body := by simp
    have hrun : (d.run s (InputBuffer.empty.push body).unread false).result = .ok .complete := by
      rwa [hpush]
    have hleft := (pass_of_ok hd hrun).2.2.2
    rwa [hpush] at hleft
  have hle := used_run_le d s body false
  constructor
  · rintro ⟨hcomplete, hnotBefore⟩
    refine ⟨hcomplete, ?_⟩
    have hrun := (hresult body).symm.trans hcomplete
    rw [hunread hrun, List.drop_eq_nil_iff]
    apply Nat.le_of_not_lt
    intro hlt
    exact hnotBefore _ hlt ((hresult _).trans (run_take_used hrun))
  · rintro ⟨hcomplete, hnil⟩
    refine ⟨hcomplete, fun n hn hearly => ?_⟩
    have hrun := (hresult body).symm.trans hcomplete
    rw [hunread hrun, List.drop_eq_nil_iff] at hnil
    -- The run on fewer bytes is the whole run, so it uses up as many.
    rw [hresult] at hearly
    have hall := run_append (s := s) (a := body.take n) hopen (body.drop n) false
    rw [if_neg (by simp [hearly]), List.take_append_drop] at hall
    have hused := (hall.rest _ hrun).2.2
    have hle' := used_run_le d s (body.take n) false
    rw [List.length_take] at hle'
    omega

/-- Once a body is complete, or refused, more bytes make no difference to that. -/
theorem result_feed_append (hd : d.stage.hasFailed = false) (hopen : d.HasHandle)
    (h : (d.feed s .empty w).result ≠ .ok .needsMore) (more : Bytes) :
    (d.feed s .empty (w ++ more)).result = (d.feed s .empty w).result := by
  rw [feed, ← InputBuffer.push_push]
  cases hres : (d.feed s .empty w).result with
  | error e => exact (pass_push_agrees_of_error hd hopen hres more false).result.trans hres
  | ok progress =>
    cases progress with
    | needsMore => exact absurd hres h
    | complete =>
      have hstage := stage_of_result_pass hres
      refine (pass_push_agrees hd hopen hres more false).1.result.trans ?_
      exact (pass_of_ended hstage _ _ false).1

theorem CompletesWith.needsMore (h : d.CompletesWith s body) (hd : d.stage.hasFailed = false)
    (hopen : d.HasHandle) {n : Nat} (hn : n < body.length) :
    (d.feed s .empty (body.take n)).result = .ok .needsMore := by
  by_contra hmore
  have hall := result_feed_append hd hopen hmore (body.drop n)
  rw [List.take_append_drop, h.complete] at hall
  exact h.notBefore n hn hall.symm

theorem CompletesWith.length_pos {token : String} {settings : Settings}
    (hnew : new token settings = .ok d) (h : d.CompletesWith s body) : 0 < body.length := by
  refine List.length_pos_iff.mpr ?_
  rintro rfl
  have hwait : d.next s InputBuffer.empty.unread false = .wait := next_new hnew
  have hcomplete := h.complete
  rw [feed, process, InputBuffer.push_nil, result_pass (hasFailed_of_next_wait hwait),
    run_of_wait hwait] at hcomplete
  cases hcomplete

/-- Behind bytes that complete a body, all others stay unread. -/
theorem CompletesWith.process_append (h : d.CompletesWith s body) (hd : d.stage.hasFailed = false)
    (hopen : d.HasHandle) (extra : Bytes) :
    let all := d.process s (InputBuffer.empty.push (body ++ extra))
    all.Agrees (d.feed s .empty body) ∧ all.buffer.unread = extra := by
  intro all
  have hstage := stage_of_result_pass h.complete
  obtain ⟨hall, hleft⟩ := pass_push_agrees hd hopen h.complete extra false
  rw [InputBuffer.push_push] at hall hleft
  obtain ⟨hres, hdec, hsto⟩ := pass_of_ended hstage _ _ false
  refine ⟨hall.trans ⟨hres.trans h.complete.symm, hdec, fun _ _ => hsto⟩, ?_⟩
  refine (hleft _ (hall.result.trans hres)).trans ?_
  refine (unread_pass_of_ended hstage _ _ false).trans ?_
  rw [InputBuffer.unread_push, ← feed, ((completesWith_iff hd hopen).mp h).2, List.nil_append]

/-! ## Pieces behind the end -/

/-- One of the pieces reaches so many bytes first. -/
theorem exists_piece_reaching {pieces : List Bytes} {n : Nat} (hpos : 0 < n)
    (h : n ≤ pieces.flatten.length) :
    ∃ before last rest, pieces = before ++ last :: rest ∧ before.flatten.length < n ∧
      n ≤ (before ++ [last]).flatten.length := by
  induction pieces generalizing n with
  | nil => exact absurd h (Nat.not_le.mpr hpos)
  | cons piece pieces ih =>
    rw [List.flatten_cons, List.length_append] at h
    rcases Nat.lt_or_ge piece.length n with hshort | hreaches
    · obtain ⟨before, last, rest, rfl, hbefore, hlast⟩ :=
        ih (Nat.sub_pos_of_lt hshort) (Nat.sub_le_iff_le_add'.mpr h)
      refine ⟨piece :: before, last, rest, rfl, ?_, ?_⟩
      · rw [List.flatten_cons, List.length_append]
        omega
      · rw [List.cons_append, List.flatten_cons, List.length_append]
        omega
    · exact ⟨[], piece, pieces, rfl, hpos, by simpa using hreaches⟩

end Decoder

/-- Feeds more pieces, whatever came of those before. -/
def Outcome.feedOn (o : Outcome Progress) (pieces : List Bytes) : Outcome Progress :=
  pieces.foldl (fun o piece => o.decoder.feed o.storage o.buffer piece) o

/-- Past the closing boundary, what is fed is left alone. -/
theorem Outcome.feedOn_of_ended {o : Outcome Progress} (hresult : o.result = .ok .complete)
    (hstage : o.decoder.stage = .ended) (pieces : List Bytes) :
    (o.feedOn pieces).result = .ok .complete ∧ (o.feedOn pieces).decoder = o.decoder ∧
      (o.feedOn pieces).storage = o.storage ∧
      (o.feedOn pieces).buffer.unread = o.buffer.unread ++ pieces.flatten := by
  induction pieces generalizing o with
  | nil => exact ⟨hresult, rfl, rfl, by simp [feedOn]⟩
  | cons piece pieces ih =>
    obtain ⟨hres, hdec, hsto⟩ := Decoder.pass_of_ended hstage o.storage (o.buffer.push piece) false
    have hunread := Decoder.unread_pass_of_ended hstage o.storage (o.buffer.push piece) false
    obtain ⟨hres', hdec', hsto', hunread'⟩ := ih hres (hdec.symm ▸ hstage)
    refine ⟨hres', hdec'.trans hdec, hsto'.trans hsto, hunread'.trans ?_⟩
    rw [hunread, InputBuffer.unread_push, List.flatten_cons, List.append_assoc]

namespace Decoder

variable {d : Decoder} {s : Storage} {body : Bytes} {token : String} {settings : Settings}

/-- The end is exact. Where bytes complete a body with their last one, and anything
comes behind them, in whatever pieces, more is needed after every piece that ends
before them, and the first that reaches their end completes the body. The form and
the storage are those of the body alone, and what is left unread is what came behind
it. More pieces change nothing but what is left unread, and the form can be had in
both ways. -/
theorem ends_exactly {pieces : List Bytes} {epilogue : Bytes} (hnew : new token settings = .ok d)
    (hbody : d.CompletesWith s body) (hpieces : pieces.flatten = body ++ epilogue) :
    (∀ earlier, earlier <+: pieces → earlier.flatten.length < body.length →
      (d.feedAll s .empty earlier).result = .ok .needsMore) ∧
    ∃ before last rest, pieces = before ++ last :: rest ∧
      before.flatten.length < body.length ∧ body.length ≤ (before ++ [last]).flatten.length ∧
      let alone := d.feed s .empty body
      let fed := d.feedAll s .empty (before ++ [last])
      fed.result = .ok .complete ∧ fed.decoder.form = alone.decoder.form ∧
      fed.storage = alone.storage ∧
      fed.buffer.unread = (before ++ [last]).flatten.drop body.length ∧
      ∀ later : List Bytes,
        let after := fed.feedOn later
        after.result = .ok .complete ∧ after.decoder = fed.decoder ∧ after.storage = fed.storage ∧
        after.buffer.unread = fed.buffer.unread ++ later.flatten ∧
        (let done := after.decoder.finish after.storage after.buffer
        done.result = .ok fed.decoder.form ∧ done.storage = fed.storage) ∧
        after.decoder.intoForm after.storage = (.ok fed.decoder.form, fed.storage) := by
  have hopen := hasHandle_new hnew
  have hwait : d.next s InputBuffer.empty.unread false = .wait := next_new hnew
  have hd := hasFailed_of_next_wait hwait
  have hearlier (earlier : List Bytes) (hstart : earlier <+: pieces)
      (hlt : earlier.flatten.length < body.length) :
      (d.feedAll s .empty earlier).result = .ok .needsMore := by
    have hprefix : earlier.flatten <+: body := by
      obtain ⟨rest, rfl⟩ := hstart
      rw [List.flatten_append] at hpieces
      exact List.prefix_of_prefix_length_le ⟨_, hpieces⟩ (List.prefix_append ..) (Nat.le_of_lt hlt)
    rw [(feedAll_agrees_process hopen hwait earlier).1.result,
      List.prefix_iff_eq_take.mp hprefix]
    exact hbody.needsMore hd hopen hlt
  refine ⟨hearlier, ?_⟩
  have hlength : body.length ≤ pieces.flatten.length := by simp [hpieces]
  obtain ⟨before, last, rest, rfl, hbefore, hlast⟩ :=
    exists_piece_reaching (hbody.length_pos hnew) hlength
  refine ⟨before, last, rest, rfl, hbefore, hlast, ?_⟩
  intro alone fed
  have hmore := hearlier before (List.prefix_append ..) hbefore
  obtain ⟨extra, hextra⟩ : body <+: (before ++ [last]).flatten := by
    rw [List.append_cons, List.flatten_append] at hpieces
    exact List.prefix_of_prefix_length_le (List.prefix_append ..) ⟨_, hpieces⟩ hlast
  -- The pieces so far come to the same as the body and what is behind it.
  obtain ⟨hfed, hleft⟩ := feedAll_concat_agrees hopen hwait hmore last
  obtain ⟨hall, hunread⟩ := hbody.process_append hd hopen extra
  rw [hextra] at hall hunread
  have hsame : fed.Agrees alone := hfed.trans hall
  have hcomplete : fed.result = .ok .complete := hsame.result.trans hbody.complete
  have hended : fed.decoder.stage = .ended := by
    rw [hsame.decoder]
    exact stage_of_result_pass hbody.complete
  refine ⟨hcomplete, congrArg form hsame.decoder, hsame.storage _ hcomplete, ?_, ?_⟩
  · rw [hleft _ hcomplete, hunread, ← hextra, List.drop_left]
  · intro later after
    obtain ⟨hresult, hdecoder, hstorage, hafter⟩ := fed.feedOn_of_ended hcomplete hended later
    have hstage : after.decoder.stage = .ended := hdecoder ▸ hended
    refine ⟨hresult, hdecoder, hstorage, hafter, ?_, ?_⟩
    · rw [← hdecoder, ← hstorage]
      exact finish_of_ended hstage _ _
    · rw [← hdecoder, ← hstorage]
      exact intoForm_of_ended hstage _

/-- A body with a field, and behind it the start of another part, in three pieces. -/
theorem ends_exactly_of_part_behind :
    let s : Storage := ⟨.ofFolders [["tmp"]], ⟨1, 0, 0⟩⟩
    let body := Text.toBytes
      "--B\r\nContent-Disposition: form-data; name=a\r\n\r\nx\r\n--B--\r\n"
    let epilogue := Text.toBytes "--B\r\n"
    let pieces := [body.take 50, body.drop 50 ++ epilogue.take 2, epilogue.drop 2]
    ∃ d, new "B" .standard = .ok d ∧ d.CompletesWith s body ∧
      (d.feedAll s .empty [body.take 50]).result = .ok .needsMore ∧
      ∃ before last rest, pieces = before ++ last :: rest ∧
        (d.feedAll s .empty (before ++ [last])).result = .ok .complete ∧
        (d.feedAll s .empty (before ++ [last])).buffer.unread =
          (before ++ [last]).flatten.drop body.length := by
  intro s body epilogue pieces
  have hnew := new_of_ne .standard (show "B" ≠ "" by decide)
  have hbody : (Decoder.mk .standard (Delimiter.ofToken "B") .boundaryLine
      (.forFolder Settings.standard.uploadDir)).CompletesWith s body := by
    refine (completesWith_iff rfl (hasHandle_new hnew)).mpr ⟨?_, ?_⟩
    · simp only [s, body]
      cbv
    · simp only [s, body]
      cbv
  have hpieces : pieces.flatten = body ++ epilogue := by decide +kernel
  obtain ⟨hmore, before, last, rest, hsplit, -, -, hcomplete, -, -, hunread, -⟩ :=
    ends_exactly hnew hbody hpieces
  have hshort : [body.take 50].flatten.length < body.length := by decide +kernel
  exact ⟨_, hnew, hbody, hmore _ ⟨_, rfl⟩ hshort, before, last, rest, hsplit, hcomplete, hunread⟩

end Decoder

end Multipart

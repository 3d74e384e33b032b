import Mathlib
import Multipart.Body
import Multipart.Proofs.Worlds

/-!
# How much is buffered

A decoder only waits for more if what is unread is a line without an end, or part
data that must be held back; both are short (`Decoder.length_le_of_wait`). A pass
that asks for more has waited in the end, and let go of all that was used up
(`Decoder.process_of_needsMore`). So a buffer that is fed chunk by chunk never holds
more than that and a chunk, however long the body is (`Decoder.Pumps.used_le`). The
main statement is `Slot.bounded_buffering`.
-/

namespace Multipart

/-! ## Buffers and pieces -/

namespace InputBuffer

theorem used_push (b : InputBuffer) (bytes : Bytes) :
    (b.push bytes).used = b.used + bytes.length := List.length_append

theorem length_unread_le (b : InputBuffer) : b.unread.length ≤ b.used := by
  rw [unread, used, List.length_drop]
  exact Nat.sub_le ..

end InputBuffer

theorem BodyReader.length_piece_le (r : BodyReader) (wanted : Nat) :
    (r.piece wanted).length ≤ wanted := by
  rw [piece, yield, List.length_take]
  omega

/-- A line that is still arriving is not too long yet. -/
theorem Line.length_le_of_incomplete {maxLength : Nat} {window : Bytes}
    (h : next maxLength false window = .incomplete) : window.length ≤ maxLength := by
  rw [next] at h
  split at h
  · cases h
  · next hshort =>
    split at h
    · cases h
    · next hend =>
      rw [body_eq_self (by simpa using hend)] at hshort
      exact Nat.le_of_not_lt hshort

namespace Decoder

variable {d d' : Decoder} {s s' : Storage} {w : Bytes} {buffer buffer' : InputBuffer}
  {r r' : BodyReader} {atEnd : Bool}

/-! ## Waiting -/

/-- The most bytes that a decoder leaves unread when it asks for more. -/
def mostUnread (d : Decoder) : Nat :=
  max d.settings.maxLineLength (Delimiter.holdback d.delimiter)

theorem takeLine_ne_wait {line : Bytes} {used : Nat} (hstage : d.AtLine) :
    d.takeLine line used s ≠ .wait := by
  intro h
  obtain hstage | ⟨heading, hstage⟩ := hstage
  · simp only [takeLine, hstage, boundaryLine] at h
    split at h <;> cases h
  · simp only [takeLine, hstage] at h
    unfold headerLine at h
    split at h
    · split at h <;> cases h
    · dsimp only at h
      split at h <;> cases h

theorem length_le_of_wait (h : d.next s w false = .wait) : w.length ≤ d.mostUnread := by
  have hline (hstage : d.AtLine) : w.length ≤ d.mostUnread := by
    rw [next_of_line hstage] at h
    cases hline : Line.next d.settings.maxLineLength false w with
    | incomplete => exact (Line.length_le_of_incomplete hline).trans (Nat.le_max_left ..)
    | tooLong =>
      rw [hline] at h
      cases h
    | whole line used =>
      rw [hline] at h
      exact absurd h (takeLine_ne_wait hstage)
  cases hstage : d.stage with
  | boundaryLine => exact hline (.inl hstage)
  | headerLines heading => exact hline (.inr ⟨heading, hstage⟩)
  | partData name content =>
    rw [next_partData hstage, partData] at h
    split at h
    · split at h <;> cases h
    · dsimp only at h
      split at h
      · next hsafe => exact (Nat.le_of_sub_eq_zero hsafe).trans (Nat.le_max_right ..)
      · split at h <;> cases h
  | ended =>
    simp only [next, hstage] at h
    cases h
  | failed phase =>
    simp only [next, hstage] at h
    cases h

/-! ## Passes -/

theorem goesOn_run {progress : Progress} (hd : d.stage.hasFailed = false)
    (h : (d.run s w atEnd).result = .ok progress) : d.GoesOn (d.run s w atEnd).decoder :=
  run_keeps (fun hgoes hnext => hgoes.trans (goesOn_of_advance hnext)) ⟨rfl, rfl, hd⟩ h

theorem goesOn_pass {progress : Progress} (h : (d.pass s buffer atEnd).result = .ok progress) :
    d.GoesOn (d.pass s buffer atEnd).decoder := by
  have hd := alive_of_pass h
  rw [result_pass hd] at h
  rw [(pass_of_ok hd h).2.1]
  exact goesOn_run hd h

/-- A decoder that is alive was alive before, and goes on. -/
theorem goesOn_of_alive_pass (h : (d.pass s buffer atEnd).decoder.stage.hasFailed = false) :
    d.stage.hasFailed = false ∧ d.GoesOn (d.pass s buffer atEnd).decoder := by
  cases hres : (d.pass s buffer atEnd).result with
  | ok progress => exact ⟨alive_of_pass hres, goesOn_pass hres⟩
  | error e =>
    cases hd : d.stage.hasFailed with
    | true =>
      simp only [pass, hd, if_true] at h
      exact absurd h (by simp)
    | false =>
      rw [result_pass hd] at hres
      rw [(pass_of_error hd hres).2.1] at h
      cases h

theorem goesOn_of_alive_finish (h : (d.finish s buffer).decoder.stage.hasFailed = false) :
    d.stage.hasFailed = false ∧ d.GoesOn (d.finish s buffer).decoder := by
  cases hres : (d.pass s buffer true).result with
  | error e =>
    rw [finish_of_error hres] at h ⊢
    exact goesOn_of_alive_pass h
  | ok progress =>
    cases progress with
    | needsMore =>
      rw [finish_of_needsMore hres] at h
      cases h
    | complete =>
      rw [finish_of_complete hres] at h ⊢
      have hgoes := goesOn_pass hres
      exact ⟨alive_of_pass hres, hgoes.settings, hgoes.delimiter, h⟩

/-- A pass lets go of what was used up. -/
theorem used_pass (hd : d.stage.hasFailed = false) :
    (d.pass s buffer atEnd).buffer.used = (d.pass s buffer atEnd).buffer.unread.length := by
  simp only [pass, hd, Bool.false_eq_true, if_false]
  split <;> simp

theorem used_pass_le (d : Decoder) (s : Storage) (buffer : InputBuffer) (atEnd : Bool) :
    (d.pass s buffer atEnd).buffer.used ≤ buffer.used := by
  cases hd : d.stage.hasFailed with
  | true =>
    simp only [pass, hd, if_true]
    exact Nat.le_refl _
  | false =>
    rw [used_pass hd]
    exact (d.unread_pass_le s buffer atEnd).trans buffer.length_unread_le

/-- A call that asks for more leaves few bytes, and nothing but these. -/
theorem process_of_needsMore (h : (d.process s buffer).result = .ok .needsMore) :
    d.GoesOn (d.process s buffer).decoder ∧
      (d.process s buffer).buffer.unread.length ≤ d.mostUnread ∧
      (d.process s buffer).buffer.used = (d.process s buffer).buffer.unread.length := by
  have hd := alive_of_pass h
  have hgoes := goesOn_pass h
  refine ⟨hgoes, ?_, used_pass hd⟩
  rw [process, result_pass hd] at h
  obtain ⟨-, hdec, -, hleft⟩ := pass_of_ok hd h
  have hwait := length_le_of_wait (next_of_run_needsMore h)
  rw [← hdec, ← hleft, mostUnread] at hwait
  rwa [hgoes.settings, hgoes.delimiter] at hwait

/-! ## Decoding a body -/

/-- From the first of two reads of a body, decoding it comes to the second. -/
inductive Pumps : Decoder → Storage → InputBuffer → BodyReader →
    Decoder → Storage → InputBuffer → BodyReader → Prop where
  | refl (d : Decoder) (s : Storage) (buffer : InputBuffer) (r : BodyReader) :
    Pumps d s buffer r d s buffer r
  | step {d d' : Decoder} {s s' : Storage} {buffer buffer' : InputBuffer} {r r' : BodyReader}
      (hread : r.error? = none) (hmore : r.yield d.settings.readChunkSize ≠ 0)
      (hfeed : (d.feed s buffer (r.piece d.settings.readChunkSize)).result = .ok .needsMore)
      (h : Pumps (d.feed s buffer (r.piece d.settings.readChunkSize)).decoder
        (d.feed s buffer (r.piece d.settings.readChunkSize)).storage
        (d.feed s buffer (r.piece d.settings.readChunkSize)).buffer
        (r.after d.settings.readChunkSize) d' s' buffer' r') :
      Pumps d s buffer r d' s' buffer' r'

namespace Pumps

theorem decodeFrom_eq (h : d.Pumps s buffer r d' s' buffer' r') :
    d.decodeFrom s buffer r = d'.decodeFrom s' buffer' r' := by
  induction h with
  | refl d s buffer r => rfl
  | step hread hmore hfeed _ ih =>
    rw [decodeFrom]
    simp only [hread, if_neg hmore, hfeed]
    exact ih

theorem used_le (h : d.Pumps s buffer r d' s' buffer' r') (hused : buffer.used ≤ d.mostUnread) :
    d'.settings = d.settings ∧ d'.delimiter = d.delimiter ∧ buffer'.used ≤ d.mostUnread := by
  induction h with
  | refl d s buffer r => exact ⟨rfl, rfl, hused⟩
  | step hread hmore hfeed _ ih =>
    obtain ⟨hgoes, hunread, hall⟩ := process_of_needsMore hfeed
    have hsame : mostUnread _ = mostUnread _ :=
      congrArg₂ max (congrArg Settings.maxLineLength hgoes.settings)
        (congrArg Delimiter.holdback hgoes.delimiter)
    rw [feed, hsame] at ih
    obtain ⟨hsettings, hdelimiter, hle⟩ := ih (hall.trans_le hunread)
    exact ⟨hsettings.trans hgoes.settings, hdelimiter.trans hgoes.delimiter, hle⟩

end Pumps

/-- One of the reads is the last. -/
theorem exists_pumps_last (d : Decoder) (s : Storage) (buffer : InputBuffer) (r : BodyReader) :
    ∃ d' s' buffer' r', d.Pumps s buffer r d' s' buffer' r' ∧
      (r'.error? = none → r'.yield d'.settings.readChunkSize ≠ 0 →
        (d'.feed s' buffer' (r'.piece d'.settings.readChunkSize)).result ≠ .ok .needsMore) := by
  fun_induction decodeFrom d s buffer r with
  | case1 d s buffer r cause herror =>
    refine ⟨d, s, buffer, r, .refl .., fun hread => ?_⟩
    rw [herror] at hread
    cases hread
  | case2 d s buffer r _ hend => exact ⟨d, s, buffer, r, .refl .., fun _ hmore => absurd hend hmore⟩
  | case3 d s buffer r _ hend => exact ⟨d, s, buffer, r, .refl .., fun _ hmore => absurd hend hmore⟩
  | case4 d s buffer r _ _ o _ e hres =>
    refine ⟨d, s, buffer, r, .refl .., fun _ _ hneeds => ?_⟩
    cases hres.symm.trans hneeds
  | case5 d s buffer r _ _ o _ hres =>
    refine ⟨d, s, buffer, r, .refl .., fun _ _ hneeds => ?_⟩
    cases hres.symm.trans hneeds
  | case6 d s buffer r hread hmore o r' hneeds ih =>
    obtain ⟨d', s', buffer', r'', hpumps, hlast⟩ := ih
    exact ⟨d', s', buffer', r'', .step hread hmore hneeds hpumps, hlast⟩

end Decoder

namespace Slot

variable {u : Upload}

/-- What came and was not used up is the end of all that came. -/
theorem unread_run_suffix (u : Upload) (x : Slot) (s : Storage) (acts : List Act) :
    (run u x s acts).1.buffer.unread <:+ x.buffer.unread ++ acts.flatMap Act.bytes := by
  induction acts generalizing x s with
  | nil => simp [run]
  | cons a acts ih =>
    obtain ⟨front, hfront⟩ := x.unread_act_suffix u s a
    refine (ih (x.act u s a).1 (x.act u s a).2).trans ⟨front, ?_⟩
    rw [← List.append_assoc, hfront, List.flatMap_cons, List.append_assoc]

/-- The decoder of a slot decodes the upload of the slot. -/
def Decodes (u : Upload) (x : Slot) : Prop :=
  ∀ d, x.state = .active d → d.stage.hasFailed = false →
    d.settings = u.settings ∧ d.delimiter = Delimiter.ofToken u.token

theorem Decodes.act {x : Slot} (h : x.Decodes u) (s : Storage) (a : Act) :
    (x.act u s a).1.Decodes u := by
  have hafter {d d' : Decoder} (hd : x.state = .active d)
      (hgoes : d'.stage.hasFailed = false → d.stage.hasFailed = false ∧ d.GoesOn d')
      (halive : d'.stage.hasFailed = false) :
      d'.settings = u.settings ∧ d'.delimiter = Delimiter.ofToken u.token := by
    obtain ⟨hbefore, hgoes⟩ := hgoes halive
    obtain ⟨hsettings, hdelimiter⟩ := h d hd hbefore
    exact ⟨hgoes.settings.trans hsettings, hgoes.delimiter.trans hdelimiter⟩
  unfold Slot.act
  split
  · exact h
  · split
    · next hnew =>
      rintro _ ⟨⟩ -
      rw [Decoder.eq_of_new hnew]
      exact ⟨rfl, rfl⟩
    · rintro d ⟨⟩
  · next hd =>
    rintro _ ⟨⟩
    exact hafter hd Decoder.goesOn_of_alive_pass
  · next hd =>
    rintro _ ⟨⟩
    exact hafter hd Decoder.goesOn_of_alive_finish
  · rintro d ⟨⟩
  · rintro d ⟨⟩
  · exact h

theorem decodes_run (u : Upload) (s : Storage) (acts : List Act) :
    (run u .unused s acts).1.Decodes u := by
  have hrun (y : Slot × Storage) (h : y.1.Decodes u) :
      (acts.foldl (fun y a => y.1.act u y.2 a) y).1.Decodes u := by
    induction acts generalizing y with
    | nil => exact h
    | cons a acts ih => exact ih _ (h.act y.2 a)
  exact hrun (.unused, s) (by rintro d ⟨⟩)

/-- Buffering is bounded. After a call that asks for more, the buffer of a session
holds no more than the longest line or the bytes held back, and these are the last
that came. So while a body is decoded, from its first read to its last, the buffer
never holds more than that and a chunk: not when a read begins, nor when its bytes
have come, however many of them a pass has used up by then, nor after the pass. -/
theorem bounded_buffering (u : Upload) (s : Storage) :
    let marker := Delimiter.ofToken u.token
    let most := max u.settings.maxLineLength (marker.length + 1)
    (∀ acts d, (run u .unused s acts).1.state = .active d →
      let o := d.process (run u .unused s acts).2 (run u .unused s acts).1.buffer
      o.result = .ok .needsMore →
      o.buffer.unread.length ≤ most ∧ o.buffer.used = o.buffer.unread.length ∧
        o.buffer.unread <:+ acts.flatMap Act.bytes) ∧
    ∀ (d : Decoder) (r : BodyReader), d.settings = u.settings → d.delimiter = marker →
      (∃ d' s' buffer r', d.Pumps s .empty r d' s' buffer r' ∧
        (r'.error? = none → r'.yield u.settings.readChunkSize ≠ 0 →
          (d'.feed s' buffer (r'.piece u.settings.readChunkSize)).result ≠ .ok .needsMore)) ∧
      ∀ d' s' buffer r', d.Pumps s .empty r d' s' buffer r' →
        let piece := r'.piece u.settings.readChunkSize
        d.decodeBody s r = d'.decodeFrom s' buffer r' ∧ buffer.used ≤ most ∧
          (∀ n h, ((buffer.push piece).advance n h).used ≤ most + u.settings.readChunkSize) ∧
          (d'.feed s' buffer piece).buffer.used ≤ most + u.settings.readChunkSize ∧
          (d'.finish s' buffer).buffer.used ≤ most := by
  intro marker most
  refine ⟨?_, ?_⟩
  · intro acts d hd o hmore
    obtain ⟨-, hle, hused⟩ := Decoder.process_of_needsMore hmore
    obtain ⟨hsettings, hdelimiter⟩ := decodes_run u s acts d hd (Decoder.alive_of_pass hmore)
    rw [Decoder.mostUnread, hsettings, hdelimiter] at hle
    exact ⟨hle, hused,
      (Decoder.unread_pass_suffix ..).trans (unread_run_suffix u .unused s acts)⟩
  · intro d r hsettings hdelimiter
    have hmost : d.mostUnread = most := by
      rw [Decoder.mostUnread, hsettings, hdelimiter]
      rfl
    refine ⟨?_, fun d' s' buffer r' h => ?_⟩
    · obtain ⟨d', s', buffer, r', hpumps, hlast⟩ := d.exists_pumps_last s .empty r
      rw [(hpumps.used_le (Nat.zero_le _)).1, hsettings] at hlast
      exact ⟨d', s', buffer, r', hpumps, hlast⟩
    · intro piece
      have hle := (h.used_le (Nat.zero_le _)).2.2
      rw [hmost] at hle
      have hpushed : (buffer.push piece).used ≤ most + u.settings.readChunkSize := by
        rw [InputBuffer.used_push]
        exact Nat.add_le_add hle (r'.length_piece_le _)
      refine ⟨h.decodeFrom_eq, hle, fun n _ => hpushed, ?_, ?_⟩
      · exact (d'.used_pass_le s' _ false).trans hpushed
      · rw [Decoder.buffer_finish]
        exact (d'.used_pass_le s' buffer true).trans hle

/-- A session that is fed the start of a field, and one that reads it in chunks of
forty bytes. -/
theorem bounded_buffering_of_field :
    let u : Upload := ⟨"B", .ofChanges [.maxLineLength 50, .readChunkSize 40]⟩
    let s : Storage := ⟨.ofFolders [["tmp"]], ⟨1, 0, 0⟩⟩
    let body := Text.toBytes "--B\r\nContent-Disposition: form-data; name=a\r\n\r\nabcdef"
    let acts := [Act.new, Act.push body]
    let r := BodyReader.ofBytes body none none
    ∃ d, Decoder.new u.token u.settings = .ok d ∧
      (run u .unused s acts).1.state = .active d ∧
      (let o := d.process (run u .unused s acts).2 (run u .unused s acts).1.buffer
      o.result = .ok .needsMore ∧ o.buffer.used ≤ 50 ∧ o.buffer.unread <:+ body) ∧
      ∃ d' s' buffer r', d.Pumps s .empty r d' s' buffer r' ∧ r'.taken = 40 ∧
        buffer.used ≤ 50 ∧ (d'.feed s' buffer (r'.piece 40)).buffer.used ≤ 90 := by
  intro u s body acts r
  have hnew := Decoder.new_of_ne u.settings (show u.token ≠ "" by decide)
  refine ⟨_, hnew, ?_⟩
  generalize hd : Decoder.mk _ _ _ _ = d at hnew
  have hslot : run u .unused s acts = (⟨.active d, InputBuffer.empty.push body,
      [.opened (.ok ())]⟩, s) := by
    simp only [acts, run, List.foldl_cons, List.foldl_nil, act, unused, hnew, answer]
    rfl
  have hmore : (d.process s (InputBuffer.empty.push body)).result = .ok .needsMore := by
    rw [← hd]
    simp only [u, s, body]
    cbv
  have hfeed : (d.feed s .empty (r.piece 40)).result = .ok .needsMore := by
    rw [← hd]
    simp only [u, s, r, body]
    cbv
  have hmost : max u.settings.maxLineLength ((Delimiter.ofToken u.token).length + 1) = 50 := by
    decide
  have hpumps : d.Pumps s .empty r (d.feed s .empty (r.piece 40)).decoder
      (d.feed s .empty (r.piece 40)).storage (d.feed s .empty (r.piece 40)).buffer
      (r.after 40) := by
    subst hd
    exact .step rfl (by decide) hfeed (.refl ..)
  have hbuffering := bounded_buffering u s
  obtain ⟨hle, hused, hlast⟩ := hbuffering.1 acts d (by rw [hslot]) (by rw [hslot]; exact hmore)
  rw [hslot] at hle hused hlast ⊢
  refine ⟨rfl, ⟨hmore, hused.trans_le (hle.trans_eq hmost), hlast⟩, ?_⟩
  obtain ⟨-, hbuffer, -, hafter, -⟩ :=
    (hbuffering.2 d r (by subst hd; rfl) (by subst hd; rfl)).2 _ _ _ _ hpumps
  exact ⟨_, _, _, _, hpumps, rfl, hbuffer.trans_eq hmost,
    hafter.trans_eq (congrArg (· + 40) hmost)⟩

end Slot

end Multipart

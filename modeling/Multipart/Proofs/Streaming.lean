import Mathlib
import Multipart.Proofs.Reaching

/-!
# Writing part data as it arrives

Data that was written cannot be taken back. So a decoder writes only what is
data whatever comes next: all that has arrived of a part but the last
`Delimiter.holdback` bytes, which may be the start of a delimiter or of the CRLF
in front of one.

What becomes of the data of a part depends on it alone. Without a delimiter in
it, all but the bytes held back is written (`Decoder.run_of_none`), or too much
of it has come (`Decoder.next_of_none_error`). Where the delimiter stands in it,
the part is published with what lies in front (`Decoder.next_of_leftmost`), or it
is too large (`Decoder.next_of_leftmost_error`). The main statement is
`Decoder.written_of_needsMore`: what is written by now is a prefix of whatever the
part turns out to hold.
-/

namespace Multipart

/-- What need not be held back of data without the marker is data, whatever
follows: it lies in front of the next marker and of its CRLF. -/
theorem Delimiter.take_prefix_trimCrlf {data more marker : Bytes} {place : Nat}
    (hnone : find? data marker = none) (h : find? (data ++ more) marker = some place) :
    data.take (data.length - holdback marker) <+: Bytes.trimCrlf ((data ++ more).take place) := by
  rcases Nat.lt_or_ge data.length (holdback marker) with hshort | hlong
  · rw [Nat.sub_eq_zero_of_le (Nat.le_of_lt hshort), List.take_zero]
    exact List.nil_prefix
  · have hcut : data.length - holdback marker + holdback marker ≤ data.length :=
      Nat.le_of_eq (Nat.sub_add_cancel hlong)
    obtain ⟨rest, hrest⟩ := Nat.exists_eq_add_of_le
      (Nat.le_of_add_right_le (cut_add_two_le hnone hcut h))
    rw [hrest] at h ⊢
    rw [trimCrlf_take_append hnone hcut h]
    exact List.prefix_append _ _

namespace Decoder

variable {d d₀ : Decoder} {s s₀ : Storage} {name : String} {content : Content} {heading : Heading}
  {data : Bytes} {atEnd : Bool} {place : Nat}

/-! ## Data without a delimiter -/

section Data

variable (hopen : FilePart.All d.settings.Fillable content.file?)
  (hstage : d.stage = .partData name content) (hholds : content.Holds [] s)
include hopen hstage hholds

/-- All but the bytes held back is written, if the ceiling allows it. -/
theorem run_of_none (atEnd : Bool) (hnone : Delimiter.find? data d.delimiter = none)
    (hfits : data.length ≤
      d.settings.ceiling content.file?.isSome + Delimiter.holdback d.delimiter) :
    let written := data.take (data.length - Delimiter.holdback d.delimiter)
    ∃ s', d.run s data atEnd =
        ⟨.ok .needsMore, { d with stage := .partData name (content.grow written) }, s',
          data.length - Delimiter.holdback d.delimiter⟩ ∧
      (content.grow written).Holds written s' := by
  intro written
  rcases Nat.lt_or_ge (Delimiter.holdback d.delimiter) data.length with hlong | hshort
  · obtain ⟨cut, hcut⟩ := Nat.exists_eq_add_of_le' (Nat.le_of_lt hlong)
    have hlen : data.length - Delimiter.holdback d.delimiter = cut := by omega
    have hwritten : written = data.take cut := congrArg data.take hlen
    obtain ⟨s', hwrite, hafter⟩ := Content.write_of_fits hopen hholds
      (show ([] ++ data.take cut).length ≤ _ by
        rw [List.nil_append, List.length_take]
        omega)
    have hnext : d.next s data atEnd =
        .advance cut { d with stage := .partData name (content.grow (data.take cut)) } s' :=
      (next_partData hstage).trans (partData_of_flush hnone hcut (by omega) hwrite)
    refine ⟨s', ?_, ?_⟩
    · rw [run_of_advance hnext, run_of_wait (next_of_heldBack hnone hcut), hlen, hwritten,
        Nat.add_zero]
    · rw [hwritten]
      exact hafter
  · have hlen : data.length - Delimiter.holdback d.delimiter = 0 := Nat.sub_eq_zero_of_le hshort
    have hwritten : written = [] := by
      rw [show written = data.take 0 from congrArg data.take hlen, List.take_zero]
    refine ⟨s, ?_, ?_⟩
    · rw [run_of_wait ((next_partData hstage).trans (partData_of_short hnone hshort)), hlen,
        hwritten, Content.grow_nil, ← hstage]
    · rw [hwritten, Content.grow_nil]
      exact hholds

/-- More than the ceiling and the bytes held back is refused at once. -/
theorem next_of_none_error (hnone : Delimiter.find? data d.delimiter = none)
    (hlong : d.settings.ceiling content.file?.isSome + Delimiter.holdback d.delimiter <
      data.length) :
    d.next s data atEnd =
      .fail (.limitExceeded (d.settings.ceiling content.file?.isSome)) d s := by
  obtain ⟨cut, hcut⟩ := Nat.exists_eq_add_of_le'
    (show Delimiter.holdback d.delimiter ≤ data.length by omega)
  have hwrite := Content.write_of_exceeds hopen hholds
    (show _ < ([] ++ data.take cut).length by
      rw [List.nil_append, List.length_take]
      omega)
  exact (next_partData hstage).trans (partData_of_flush_error hnone hcut (by omega) hwrite)

/-! ## Data up to a delimiter -/

theorem next_of_leftmost (hfound : Delimiter.find? data d.delimiter = some place)
    (hfits : (Bytes.trimCrlf (data.take place)).length ≤
      d.settings.ceiling content.file?.isSome) :
    let whole := Bytes.trimCrlf (data.take place)
    ∃ s', (content.grow whole).Holds whole s' ∧
      d.next s data atEnd = .advance place
        { d with
          stage := .boundaryLine
          form := (d.form.publishPart name s' (content.grow whole)).1 }
        (d.form.publishPart name s' (content.grow whole)).2 := by
  intro whole
  obtain ⟨s', hwrite, hafter⟩ := Content.write_of_fits hopen hholds
    (show ([] ++ whole).length ≤ _ by rwa [List.nil_append])
  exact ⟨s', hafter, (next_partData hstage).trans (partData_of_found hfound hwrite)⟩

theorem next_of_leftmost_error (hfound : Delimiter.find? data d.delimiter = some place)
    (hlong : d.settings.ceiling content.file?.isSome <
      (Bytes.trimCrlf (data.take place)).length) :
    d.next s data atEnd =
      .fail (.limitExceeded (d.settings.ceiling content.file?.isSome)) d s := by
  have hwrite := Content.write_of_exceeds hopen hholds
    (show _ < ([] ++ Bytes.trimCrlf (data.take place)).length by rwa [List.nil_append])
  exact (next_partData hstage).trans (partData_of_found_error hfound hwrite)

end Data

/-! ## What becomes of a part -/

/-- From the start of its data, a part was published with this content. The
decoder is at the delimiter now. -/
def Publishes (d : Decoder) (heading : Heading) (whole : Bytes) (d' : Decoder) (s' : Storage) :
    Prop :=
  ∃ s₁, ((Content.ofHeading heading).grow whole).Holds whole s₁ ∧
    d' = { d with
      stage := .boundaryLine
      form := (d.form.publishPart heading.name s₁ ((Content.ofHeading heading).grow whole)).1 } ∧
    s' = (d.form.publishPart heading.name s₁ ((Content.ofHeading heading).grow whole)).2

theorem isSome_file?_ofHeading (heading : Heading) :
    (Content.ofHeading heading).file?.isSome = heading.file.isSome := by
  obtain ⟨name, _ | part⟩ := heading <;> rfl

section Fed

variable {token : String} {settings : Settings} {pieces : List Bytes}
  (hnew : new token settings = .ok d)
include hnew

theorem Opens.inherits {w : Bytes} (h : d.Opens s w heading d₀ s₀ data) :
    d₀.settings = settings ∧ d₀.delimiter = Delimiter.ofToken token := by
  have hd := hasFailed_of_next_wait (s := s) (next_new hnew)
  have hgoes := h.reaches.goesOn hd
  rw [hgoes.settings, hgoes.delimiter, eq_of_new hnew]
  exact ⟨rfl, rfl⟩

/-- A part that is not too large is published where its delimiter stands. -/
theorem Opens.reaches_of_leftmost {w : Bytes} (h : d.Opens s w heading d₀ s₀ data)
    (hleft : Delimiter.Leftmost (Delimiter.ofToken token) data place)
    (hfits : (Bytes.trimCrlf (data.take place)).length ≤
      settings.ceiling heading.file.isSome) :
    ∃ d' s', d₀.Publishes heading (Bytes.trimCrlf (data.take place)) d' s' ∧
      d.Reaches s w d' s' (data.drop place) := by
  obtain ⟨hsettings, hdelimiter⟩ := h.inherits hnew
  obtain ⟨hopen, hholds⟩ := h.holds hnew
  have hfound : Delimiter.find? data d₀.delimiter = some place :=
    hdelimiter ▸ Delimiter.find?_ofToken_eq_some_iff.mpr hleft
  rw [← isSome_file?_ofHeading, ← hsettings] at hfits
  obtain ⟨s₁, hafter, hnext⟩ := next_of_leftmost hopen h.stage_eq hholds hfound hfits
  exact ⟨_, _, ⟨s₁, hafter, rfl, rfl⟩, h.reaches.concat hnext⟩

/-- A part that is too large is refused where its delimiter stands. -/
theorem Opens.next_of_leftmost_error {w : Bytes} (h : d.Opens s w heading d₀ s₀ data)
    (hleft : Delimiter.Leftmost (Delimiter.ofToken token) data place)
    (hlong : settings.ceiling heading.file.isSome <
      (Bytes.trimCrlf (data.take place)).length) (atEnd : Bool) :
    d₀.next s₀ data atEnd =
      .fail (.limitExceeded (settings.ceiling heading.file.isSome)) d₀ s₀ := by
  obtain ⟨hsettings, hdelimiter⟩ := h.inherits hnew
  obtain ⟨hopen, hholds⟩ := h.holds hnew
  have hfound : Delimiter.find? data d₀.delimiter = some place :=
    hdelimiter ▸ Delimiter.find?_ofToken_eq_some_iff.mpr hleft
  rw [← isSome_file?_ofHeading, ← hsettings] at hlong ⊢
  exact Decoder.next_of_leftmost_error hopen h.stage_eq hholds hfound hlong

/-- While the delimiter has not arrived, all but the bytes held back is written. -/
theorem Opens.feedAll_of_none (h : d.Opens s pieces.flatten heading d₀ s₀ data)
    (hnone : Delimiter.find? data (Delimiter.ofToken token) = none)
    (hfits : data.length ≤ settings.ceiling heading.file.isSome +
      Delimiter.holdback (Delimiter.ofToken token)) :
    let kept := data.length - Delimiter.holdback (Delimiter.ofToken token)
    let fed := d.feedAll s .empty pieces
    fed.result = .ok .needsMore ∧
      fed.decoder.stage =
        .partData heading.name ((Content.ofHeading heading).grow (data.take kept)) ∧
      ((Content.ofHeading heading).grow (data.take kept)).Holds (data.take kept) fed.storage ∧
      fed.buffer.unread = data.drop kept := by
  obtain ⟨hsettings, hdelimiter⟩ := h.inherits hnew
  obtain ⟨hopen, hholds⟩ := h.holds hnew
  have halive := h.alive
  obtain ⟨hfed, hunread⟩ := h.reaches.feedAll hnew
  have hbuffer : (InputBuffer.empty.push data).unread = data := by simp
  rw [← isSome_file?_ofHeading, ← hsettings] at hfits
  rw [← hdelimiter] at hnone hfits ⊢
  intro kept fed
  obtain ⟨s₁, hrun, hafter⟩ := run_of_none hopen h.stage_eq hholds false hnone hfits
  obtain ⟨hres, hdec, hsto, hleft⟩ := pass_of_ok halive
    (show (d₀.run s₀ (InputBuffer.empty.push data).unread false).result = .ok .needsMore by
      rw [hbuffer, hrun])
  rw [hbuffer, hrun] at hdec hsto hleft
  have hmore := hfed.result.trans hres
  refine ⟨hmore, ?_, ?_, ?_⟩
  · rw [hfed.decoder, process, hdec]
  · rw [hfed.storage _ hmore, process, hsto]
    exact hafter
  · rw [hunread hmore, process, hleft]

/-- Too much data without a delimiter is refused. -/
theorem Opens.next_of_none_error {w : Bytes} (h : d.Opens s w heading d₀ s₀ data)
    (hnone : Delimiter.find? data (Delimiter.ofToken token) = none)
    (hlong : settings.ceiling heading.file.isSome +
      Delimiter.holdback (Delimiter.ofToken token) < data.length) (atEnd : Bool) :
    d₀.next s₀ data atEnd =
      .fail (.limitExceeded (settings.ceiling heading.file.isSome)) d₀ s₀ := by
  obtain ⟨hsettings, hdelimiter⟩ := h.inherits hnew
  obtain ⟨hopen, hholds⟩ := h.holds hnew
  rw [← isSome_file?_ofHeading, ← hsettings] at hlong ⊢
  rw [← hdelimiter] at hnone hlong
  exact Decoder.next_of_none_error hopen h.stage_eq hholds hnone hlong

/-- A decoder only asks for more while there is not too much. -/
theorem Opens.length_le (h : d.Opens s pieces.flatten heading d₀ s₀ data)
    (hnone : Delimiter.find? data (Delimiter.ofToken token) = none)
    (hmore : (d.feedAll s .empty pieces).result = .ok .needsMore) :
    data.length ≤ settings.ceiling heading.file.isSome +
      Delimiter.holdback (Delimiter.ofToken token) := by
  by_contra hlong
  have hrefused := (h.reaches.continues_new hnew).refuses h.alive
    fun atEnd => ⟨_, _, h.next_of_none_error hnew hnone (Nat.lt_of_not_le hlong) atEnd⟩
  rw [hrefused.1 pieces rfl] at hmore
  cases hmore

/-- A decoder that asks for more in part data has met no delimiter in what stands
behind the empty line of the part. -/
theorem opens_of_feedAll (hmore : (d.feedAll s .empty pieces).result = .ok .needsMore)
    (hstage : (d.feedAll s .empty pieces).decoder.stage = .partData name content) :
    ∃ heading d₀ s₀ data, d.Opens s pieces.flatten heading d₀ s₀ data ∧
      Delimiter.find? data (Delimiter.ofToken token) = none := by
  have hwait : d.next s InputBuffer.empty.unread false = .wait := next_new hnew
  have hd := hasFailed_of_next_wait hwait
  obtain ⟨hall, -⟩ := feedAll_agrees_process (hasHandle_new hnew) hwait pieces
  have hrun := hall.result.symm.trans hmore
  rw [process, result_pass hd] at hrun
  obtain ⟨-, hdec, -⟩ := pass_of_ok hd hrun
  rw [hall.decoder, process, hdec] at hstage
  rw [InputBuffer.unread_push, InputBuffer.unread_empty, List.nil_append] at hrun hstage
  rcases opens_of_run hrun hstage with ⟨name₀, content₀, hstart, -⟩ |
    ⟨heading, d₀, s₀, data, hopens, hnone⟩
  · rw [eq_of_new hnew] at hstart
    cases hstart
  · rw [show d.delimiter = Delimiter.ofToken token by rw [eq_of_new hnew]] at hnone
    exact ⟨heading, d₀, s₀, data, hopens, hnone⟩

/-- The data of a field so far is what its value has and what is unread. -/
theorem opens_of_value {value : Bytes} (hmore : (d.feedAll s .empty pieces).result = .ok .needsMore)
    (hstage : (d.feedAll s .empty pieces).decoder.stage = .partData name (.plain value)) :
    ∃ d₀ s₀, d.Opens s pieces.flatten ⟨name, none⟩ d₀ s₀
      (value ++ (d.feedAll s .empty pieces).buffer.unread) := by
  obtain ⟨⟨name₀, file⟩, d₀, s₀, data, hopens, hnone⟩ := opens_of_feedAll hnew hmore hstage
  obtain ⟨-, hstage₀, -, hunread⟩ :=
    hopens.feedAll_of_none hnew hnone (hopens.length_le hnew hnone hmore)
  obtain ⟨rfl, hcontent⟩ := Stage.partData.inj (hstage.symm.trans hstage₀)
  cases file with
  | some part => cases hcontent
  | none =>
    refine ⟨d₀, s₀, ?_⟩
    rw [(Content.plain.inj hcontent).trans (List.nil_append _), hunread, List.take_append_drop]
    exact hopens

end Fed

/-- Whenever a decoder asks for more in part data, it has written all that arrived
behind the empty line of the part but the bytes that must be held back, and has
these unread; and the delimiter has not arrived. However the body goes on and is
cut into pieces: once the delimiter has arrived, what was written by now is a
prefix of the bytes in front of it less one CRLF, with which the part is published
if they are not too many. -/
theorem written_of_needsMore {token : String} {settings : Settings}
    (hnew : new token settings = .ok d) (s : Storage) (pieces : List Bytes)
    (hmore : (d.feedAll s .empty pieces).result = .ok .needsMore)
    (hstage : (d.feedAll s .empty pieces).decoder.stage = .partData name content) :
    let fed := d.feedAll s .empty pieces
    let marker := Delimiter.ofToken token
    ∃ heading d₀ s₀ data, d.Opens s pieces.flatten heading d₀ s₀ data ∧ heading.name = name ∧
      (∀ place, ¬Delimiter.OccursAt marker data place) ∧
      content = (Content.ofHeading heading).grow (data.take (data.length - (marker.length + 1))) ∧
      content.Holds (data.take (data.length - (marker.length + 1))) fed.storage ∧
      fed.buffer.unread = data.drop (data.length - (marker.length + 1)) ∧
      ∀ more place, Delimiter.Leftmost marker (data ++ more) place →
        let whole := Bytes.trimCrlf ((data ++ more).take place)
        let ceiling := settings.ceiling heading.file.isSome
        data.take (data.length - (marker.length + 1)) <+: whole ∧
        if whole.length ≤ ceiling then
          ∃ d' s', d₀.Publishes heading whole d' s' ∧
            fed.decoder.Continues fed.storage fed.buffer more d' s' ((data ++ more).drop place)
        else fed.decoder.Refuses fed.storage fed.buffer more (.limitExceeded ceiling) := by
  intro fed marker
  obtain ⟨heading, d₀, s₀, data, hopens, hnone⟩ := opens_of_feedAll hnew hmore hstage
  have hfits := hopens.length_le hnew hnone hmore
  obtain ⟨-, hstage₁, hholds, hunread⟩ := hopens.feedAll_of_none hnew hnone hfits
  obtain ⟨rfl, rfl⟩ := Stage.partData.inj (hstage.symm.trans hstage₁)
  refine ⟨heading, d₀, s₀, data, hopens, rfl, ?_, rfl, hholds, hunread, ?_⟩
  · exact Delimiter.find?_ofToken_eq_none_iff.mp hnone
  · intro more place hleft whole ceiling
    refine ⟨Delimiter.take_prefix_trimCrlf hnone
      (Delimiter.find?_ofToken_eq_some_iff.mpr hleft), ?_⟩
    have hopens' := hopens.append more
    split
    · next hsmall =>
      obtain ⟨d', s', hpublishes, hreaches⟩ := hopens'.reaches_of_leftmost hnew hleft hsmall
      exact ⟨d', s', hpublishes, hreaches.continues hnew hmore⟩
    · next hlarge =>
      exact (hopens'.reaches.continues hnew hmore).refuses hopens.alive fun atEnd =>
        ⟨_, _, hopens'.next_of_leftmost_error hnew hleft (Nat.lt_of_not_le hlarge) atEnd⟩

/-- A field whose last four bytes may be the start of the CRLF and the delimiter,
and which ends where they are. -/
theorem written_of_needsMore_of_field :
    let s : Storage := ⟨.ofFolders [["tmp"]], ⟨1, 0, 0⟩⟩
    let pieces := [
      Text.toBytes "--B\r\nContent-Disposition: form-data; name=a\r\n\r\nsome",
      Text.toBytes " data\r\n"]
    ∃ d, new "B" .standard = .ok d ∧
      let fed := d.feedAll s .empty pieces
      fed.result = .ok .needsMore ∧
        fed.decoder.stage = .partData "a" (.plain (Text.toBytes "some da")) ∧
        ∃ (d₀ d' : Decoder) (s' : Storage),
          d₀.Publishes ⟨"a", none⟩ (Text.toBytes "some data") d' s' ∧
          fed.decoder.Continues fed.storage fed.buffer (Text.toBytes "--B--") d' s'
            (Text.toBytes "--B--") := by
  intro s pieces
  have hnew := Decoder.new_of_ne .standard (show "B" ≠ "" by decide)
  refine ⟨_, hnew, ?_⟩
  intro fed
  have hfed : (fed.result, fed.decoder.stage, fed.buffer.unread) =
      (.ok .needsMore, .partData "a" (.plain (Text.toBytes "some da")),
        Text.toBytes "ta\r\n") := by
    simp only [fed, pieces, s]
    cbv
  have hmore : fed.result = .ok .needsMore := congrArg Prod.fst hfed
  have hstage : fed.decoder.stage = .partData "a" (.plain (Text.toBytes "some da")) :=
    congrArg (·.2.1) hfed
  obtain ⟨⟨name, file⟩, d₀, s₀, data, -, rfl, -, hcontent, -, hleft, hafter⟩ :=
    written_of_needsMore hnew s pieces hmore hstage
  refine ⟨hmore, hstage, d₀, ?_⟩
  cases file with
  | some part => cases hcontent
  | none =>
    -- what was written and what is unread are the data so far
    have htaken := (Content.plain.inj hcontent).trans (List.nil_append _)
    have hdata : data = Text.toBytes "some data\r\n" := by
      rw [← List.take_append_drop (data.length - _) data, ← htaken, ← hleft]
      exact congrArg (Text.toBytes "some da" ++ ·) (congrArg (·.2.2) hfed)
    subst hdata
    have hfound : Delimiter.find? (Text.toBytes "some data\r\n" ++ Text.toBytes "--B--")
        (Delimiter.ofToken "B") = some 11 := by decide
    obtain ⟨-, hwhole⟩ := hafter _ 11 (Delimiter.find?_ofToken_eq_some_iff.mp hfound)
    exact (if_pos (by decide)).mp hwhole

end Decoder

end Multipart

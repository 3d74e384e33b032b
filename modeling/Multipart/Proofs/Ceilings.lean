import Mathlib
import Multipart.Proofs.Consistency
import Multipart.Proofs.FileSizes
import Multipart.Proofs.Streaming

/-!
# Ceilings

A part is refused by how much data it has, and a line by how long it is, never by
the pieces that they came in.

Without a delimiter in it, data is refused as soon as more of it has come than the
ceiling and the bytes held back; up to a delimiter it is refused if what lies in
front of it, less one CRLF, is more than the ceiling (`Decoder.Opens.ceiling`). A
line is refused as soon as more of it has come than its ceiling, whether or not its
end has, and at the end of the body too (`Decoder.Reaches.lineCeiling`). No file
and no value is larger at any moment (`Session.Visits.within`). The main statement
is `Decoder.ceilings_exact`.
-/

namespace Multipart

/-! ## Lines -/

namespace Line

variable {maxLength : Nat} {line : Bytes}

/-- A line is too long as soon as so much of it is there. -/
theorem next_of_long (hlf : Bytes.lf ∉ line) (hlong : maxLength < line.length) (rest : Bytes)
    (atEnd : Bool) : next maxLength atEnd (line ++ rest) = .tooLong := by
  have hle := length_body_le_append line rest
  rw [body_eq_self (isTerminated_of_not_mem hlf)] at hle
  rw [next, if_pos (by omega)]

theorem next_nil (maxLength : Nat) (atEnd : Bool) : next maxLength atEnd [] = .incomplete := by
  simp [next, body, isTerminated]

end Line

/-- What a header line says is never too long. -/
theorem Heading.error_read_ne {settings : Settings} {line : List Char} {heading : Option Heading}
    {s : Storage} : (read settings line heading s).error ≠ some (.protocol .lineTooLong) := by
  intro h
  rw [read] at h
  split at h
  · obtain ⟨before, a, after, -, hrole, -, hstops⟩ := describe_stops h
    simp only [describe, hrole] at hstops
    split at hstops
    · cases hstops
    · cases hstops
    · split at hstops
      · next hcreate =>
        obtain rfl := Option.some.inj hstops
        obtain ⟨cause, -, hcause⟩ := TempFile.create_error (congrArg Prod.fst hcreate)
        cases hcause
      · cases hstops
  · cases h
  · cases h

namespace Decoder

variable {d d₁ d' : Decoder} {s s₁ s' : Storage} {line rest data : Bytes} {atEnd : Bool}
  {used : Nat} {heading : Heading}

/-- A line that was taken is not too long any more. -/
theorem takeLine_ne : d.takeLine line used s ≠ .fail (.protocol .lineTooLong) d' s' := by
  intro h
  rw [takeLine] at h
  split at h
  · rw [boundaryLine] at h
    split at h <;> cases h
  · unfold headerLine at h
    split at h
    · split at h <;> cases h
    · dsimp only at h
      split at h
      · next herror =>
        cases h
        exact Heading.error_read_ne herror
      · cases h
  · cases h

/-- On no bytes nothing fails. -/
theorem result_run_nil (halive : d.stage.hasFailed = false) (s : Storage) (atEnd : Bool)
    {e : UploadError} : (d.run s [] atEnd).result ≠ .error e := by
  have hwait (h : d.next s [] atEnd = .wait) : (d.run s [] atEnd).result ≠ .error e := by
    rw [run_of_wait h]
    rintro ⟨⟩
  cases hstage : d.stage with
  | boundaryLine => exact hwait (by rw [next_of_line (.inl hstage), Line.next_nil])
  | headerLines heading =>
    exact hwait (by rw [next_of_line (.inr ⟨heading, hstage⟩), Line.next_nil])
  | partData name content =>
    refine hwait ((next_partData hstage).trans (partData_of_short ?_ (Nat.zero_le _)))
    rw [Delimiter.find?]
    split <;> rfl
  | ended =>
    rw [run_of_ended hstage]
    rintro ⟨⟩
  | failed phase =>
    rw [hstage] at halive
    cases halive

/-- At the end of the body, what is left is a line as well. -/
theorem AtLine.result_run (h : d.AtLine) (hfits : Line.Fits d.settings.maxLineLength line) :
    (d.run s line true).result ≠ .error (.protocol .lineTooLong) := by
  rcases List.eq_nil_or_concat line with rfl | ⟨_, _, hne⟩
  · exact result_run_nil h.alive s true
  · have hnext : d.next s line true = d.takeLine (Bytes.dropCr line) line.length s := by
      rw [next_of_line h, Line.next_of_fits_atEnd hfits (by rw [hne]; simp)]
    cases hmove : d.next s line true with
    | wait =>
      rw [run_of_wait hmove]
      rintro ⟨⟩
    | finished =>
      rw [run_of_finished hmove]
      rintro ⟨⟩
    | fail e d' s' =>
      rw [run_of_fail hmove]
      rintro ⟨⟩
      exact takeLine_ne (hnext.symm.trans hmove)
    | advance n d' s' =>
      have hused := takeLine_advance (hnext.symm.trans hmove)
      rw [run_of_advance hmove, hused, List.drop_length]
      exact result_run_nil (goesOn_of_advance hmove).alive s' true

theorem result_finish_ne {buffer : InputBuffer}
    (h : (d.pass s buffer true).result ≠ .error (.protocol .lineTooLong)) :
    (d.finish s buffer).result ≠ .error (.protocol .lineTooLong) := by
  cases hres : (d.pass s buffer true).result with
  | error e =>
    rw [finish_of_error hres]
    rintro ⟨⟩
    exact h hres
  | ok progress =>
    cases progress with
    | needsMore =>
      rw [finish_of_needsMore hres]
      rintro ⟨⟩
    | complete =>
      rw [finish_of_complete hres]
      rintro ⟨⟩

section New

variable {token : String} {settings : Settings} {body : Bytes} (hnew : new token settings = .ok d)
include hnew

/-- The data of a part is refused for how much of it there is. -/
theorem Opens.ceiling (h : d.Opens s body heading d₁ s₁ data) :
    let marker := Delimiter.ofToken token
    let ceiling := settings.ceiling heading.file.isSome
    ((∀ place, ¬Delimiter.OccursAt marker data place) →
      if data.length ≤ ceiling + (marker.length + 1) then
        ∀ pieces : List Bytes, pieces.flatten = body →
          (d.feedAll s .empty pieces).result = .ok .needsMore
      else d.Refuses s .empty body (.limitExceeded ceiling)) ∧
    ∀ place, Delimiter.Leftmost marker data place →
      let whole := Bytes.trimCrlf (data.take place)
      if whole.length ≤ ceiling then
        ∃ d' s', d₁.Publishes heading whole d' s' ∧
          d.Continues s .empty body d' s' (data.drop place)
      else d.Refuses s .empty body (.limitExceeded ceiling) := by
  intro marker ceiling
  refine ⟨fun hnowhere => ?_, fun place hleft => ?_⟩
  · have hnone := Delimiter.find?_ofToken_eq_none_iff.mpr hnowhere
    split
    · next hfits =>
      rintro pieces rfl
      exact (h.feedAll_of_none hnew hnone hfits).1
    · next hlong =>
      exact (h.reaches.continues_new hnew).refuses h.alive fun atEnd =>
        ⟨_, _, h.next_of_none_error hnew hnone (Nat.lt_of_not_le hlong) atEnd⟩
  · intro whole
    split
    · next hfits =>
      obtain ⟨d', s', hpublishes, hreaches⟩ := h.reaches_of_leftmost hnew hleft hfits
      exact ⟨d', s', hpublishes, hreaches.continues_new hnew⟩
    · next hlong =>
      exact (h.reaches.continues_new hnew).refuses h.alive fun atEnd =>
        ⟨_, _, h.next_of_leftmost_error hnew hleft (Nat.lt_of_not_le hlong) atEnd⟩

/-- A line is refused if it is too long, however it arrives. One that is not is
taken, once its end has come; until then the decoder asks for more. -/
theorem Reaches.lineCeiling (h : d.Reaches s body d₁ s₁ (line ++ rest)) (hline : d₁.AtLine)
    (hlf : Bytes.lf ∉ line) :
    (settings.maxLineLength < line.length →
      d.Refuses s .empty body (.protocol .lineTooLong)) ∧
    (∀ tail atEnd, rest = Bytes.lf :: tail →
      (d₁.next s₁ (line ++ rest) atEnd =
          d₁.takeLine (Bytes.dropCr line) (line.length + 1) s₁ ↔
        line.length ≤ settings.maxLineLength)) ∧
    (rest = [] → line.length ≤ settings.maxLineLength →
      (∀ pieces : List Bytes, pieces.flatten = body →
        (d.feedAll s .empty pieces).result = .ok .needsMore) ∧
      ∀ (pieces : List Bytes) (last : Bytes) (progress : Progress),
        pieces.flatten ++ last = body → (d.feedAll s .empty pieces).result = .ok progress →
        ((d.feedAll s .empty pieces).decoder.finish (d.feedAll s .empty pieces).storage
          ((d.feedAll s .empty pieces).buffer.push last)).result ≠
            .error (.protocol .lineTooLong)) := by
  have hsettings : d₁.settings = settings := by
    rw [(h.goesOn (hasFailed_of_next_wait (s := s) (next_new hnew))).settings, eq_of_new hnew]
  rw [← hsettings]
  have hcontinues := h.continues_new hnew
  have hrefused (hlong : d₁.settings.maxLineLength < line.length) (atEnd : Bool) :
      d₁.next s₁ (line ++ rest) atEnd = .fail (.protocol .lineTooLong) d₁ s₁ := by
    rw [next_of_line hline, Line.next_of_long hlf hlong]
  refine ⟨?_, ?_, ?_⟩
  · exact fun hlong => hcontinues.refuses hline.alive fun atEnd => ⟨_, _, hrefused hlong atEnd⟩
  · rintro tail atEnd rfl
    refine ⟨fun htaken => ?_, fun hfits => ?_⟩
    · by_contra hlong
      exact takeLine_ne (htaken.symm.trans (hrefused (Nat.lt_of_not_le hlong) atEnd))
    · rw [next_of_line hline, Line.next_of_fits ⟨hlf, hfits⟩]
  · rintro rfl hfits
    rw [List.append_nil] at hcontinues
    have hwindow : (InputBuffer.empty.push line).unread = line := by simp
    refine ⟨fun pieces hpieces => ?_, fun pieces last progress hpieces hfed => ?_⟩
    · have hwait : d₁.next s₁ line false = .wait := by
        rw [next_of_line hline, Line.next_of_unterminated ⟨hlf, hfits⟩]
      rw [(hcontinues.1 pieces hpieces).result, process, result_pass hline.alive, hwindow,
        run_of_wait hwait]
    · rw [(hcontinues.2 pieces last progress hpieces hfed).result]
      refine result_finish_ne ?_
      rw [result_pass hline.alive, hwindow]
      exact hline.result_run ⟨hlf, hfits⟩

end New

end Decoder

/-! ## At every moment -/

section New

variable {token : String} {settings : Settings} {d : Decoder}

/-- What a session has of the current part is within the ceilings at every moment. -/
theorem Session.Visits.within (hnew : Decoder.new token settings = .ok d) {s : Storage}
    {t : Session} {x : Excerpt} (h : Visits ⟨some d, s, []⟩ t x) {d' : Decoder}
    (hd' : t.decoder? = some d') :
    d'.stage.value.length ≤ settings.maxFieldSize ∧
      ∀ part, d'.stage.openFile? = some part → ∃ data,
        t.storage.disk.read? part.target.path = some data ∧
          data.length ≤ settings.maxFileSize := by
  obtain ⟨-, hknows, hform⟩ := h.known hnew d' hd'
  obtain rfl := (h.tidy hnew).1 d' hd'
  have hconsistent := Decoder.consistent_cells hknows hform
  refine ⟨hconsistent.value, fun part hpart => ?_⟩
  obtain ⟨data, hholds, hle⟩ := hconsistent.file part hpart
  exact ⟨data, hholds.read?, hle⟩

namespace Decoder

/-- The ceilings are exact. Data in which the delimiter does not stand is refused
if it is more than the ceiling and the bytes held back, and data in which it does
if what lies in front of it is more than the ceiling; a line is refused if it is too
long; in all cases whatever the pieces are, and as soon as so much has come. At no
moment is the value of a field, the file that is open, or any other file that the
session has made, larger than its ceiling. -/
theorem ceilings_exact (hnew : new token settings = .ok d) (s : Storage) :
    let marker := Delimiter.ofToken token
    (∀ body heading d₁ s₁ data, d.Opens s body heading d₁ s₁ data →
      let ceiling := settings.ceiling heading.file.isSome
      ((∀ place, ¬Delimiter.OccursAt marker data place) →
        if data.length ≤ ceiling + (marker.length + 1) then
          ∀ pieces : List Bytes, pieces.flatten = body →
            (d.feedAll s .empty pieces).result = .ok .needsMore
        else d.Refuses s .empty body (.limitExceeded ceiling)) ∧
      ∀ place, Delimiter.Leftmost marker data place →
        let whole := Bytes.trimCrlf (data.take place)
        if whole.length ≤ ceiling then
          ∃ d' s', d₁.Publishes heading whole d' s' ∧
            d.Continues s .empty body d' s' (data.drop place)
        else d.Refuses s .empty body (.limitExceeded ceiling)) ∧
    (∀ body d₁ s₁ line rest, d.Reaches s body d₁ s₁ (line ++ rest) → d₁.AtLine →
      Bytes.lf ∉ line →
      (settings.maxLineLength < line.length →
        d.Refuses s .empty body (.protocol .lineTooLong)) ∧
      (∀ tail atEnd, rest = Bytes.lf :: tail →
        (d₁.next s₁ (line ++ rest) atEnd =
            d₁.takeLine (Bytes.dropCr line) (line.length + 1) s₁ ↔
          line.length ≤ settings.maxLineLength)) ∧
      (rest = [] → line.length ≤ settings.maxLineLength →
        (∀ pieces : List Bytes, pieces.flatten = body →
          (d.feedAll s .empty pieces).result = .ok .needsMore) ∧
        ∀ (pieces : List Bytes) (last : Bytes) (progress : Progress),
          pieces.flatten ++ last = body → (d.feedAll s .empty pieces).result = .ok progress →
          ((d.feedAll s .empty pieces).decoder.finish (d.feedAll s .empty pieces).storage
            ((d.feedAll s .empty pieces).buffer.push last)).result ≠
              .error (.protocol .lineTooLong))) ∧
    (∀ t x d', Session.Visits ⟨some d, s, []⟩ t x → t.decoder? = some d' →
      d'.stage.value.length ≤ settings.maxFieldSize ∧
        ∀ part, d'.stage.openFile? = some part → ∃ data,
          t.storage.disk.read? part.target.path = some data ∧
            data.length ≤ settings.maxFileSize) ∧
    ∀ t, (∃ x, Session.Visits ⟨some d, s, []⟩ t x) ∨
        (∃ ops, t = Session.run ⟨some d, s, []⟩ ops) →
      ∀ k data, s.names.issued + k < t.storage.names.issued →
        t.storage.disk.read? ((settings.origin s).path k) = some data →
        data.length ≤ settings.maxFileSize := by
  intro marker
  refine ⟨?_, ?_, ?_, ?_⟩
  · exact fun body heading d₁ s₁ data hopens => hopens.ceiling hnew
  · exact fun body d₁ s₁ line rest hreaches hline hlf => hreaches.lineCeiling hnew hline hlf
  · exact fun t x d' hvisits hd' => hvisits.within hnew hd'
  · rintro t (⟨x, hvisits⟩ | ⟨ops, rfl⟩) k data hk hread
    · exact Session.length_le_of_bounded (hvisits.bounded hnew).2 hk hread
    · exact Session.length_le_of_bounded (Session.bounded_run hnew s ops) hk hread

end Decoder

end New

/-- A field that may have two bytes. Six may wait for the delimiter, seven are too
many. -/
theorem Decoder.ceilings_exact_of_field :
    let s : Storage := ⟨.ofFolders [["tmp"]], ⟨1, 0, 0⟩⟩
    let body := Text.toBytes "--B\r\nContent-Disposition: form-data; name=a\r\n\r\nabcdef"
    ∃ d, Decoder.new "B" { Settings.standard with maxFieldSize := 2 } = .ok d ∧
      (d.feedAll s .empty [body]).result = .ok .needsMore ∧
      d.Refuses s .empty (body ++ Text.toBytes "g") (.limitExceeded 2) := by
  intro s body
  have hnew := Decoder.new_of_ne { Settings.standard with maxFieldSize := 2 }
    (show "B" ≠ "" by decide)
  refine ⟨_, hnew, ?_⟩
  generalize hfed : Decoder.feedAll _ s .empty [body] = fed
  have hstate : (fed.result, fed.decoder.stage, fed.buffer.unread) =
      (.ok .needsMore, .partData "a" (.plain (Text.toBytes "ab")), Text.toBytes "cdef") := by
    rw [← hfed]
    simp only [s, body]
    cbv
  subst hfed
  have hmore := congrArg Prod.fst hstate
  obtain ⟨d₀, s₀, hopens⟩ := Decoder.opens_of_value hnew hmore (congrArg (·.2.1) hstate)
  have hdata := congrArg (·.2.2) hstate
  dsimp only at hdata
  rw [hdata, List.flatten_singleton] at hopens
  have hnowhere := Delimiter.find?_ofToken_eq_none_iff.mp (show Delimiter.find?
    (Text.toBytes "abcdef" ++ Text.toBytes "g") (Delimiter.ofToken "B") = none by decide)
  have hceilings := ((Decoder.ceilings_exact hnew s).1 _ _ _ _ _
    (hopens.append (Text.toBytes "g"))).1 hnowhere
  exact ⟨hmore, (if_neg (by decide)).mp hceilings⟩

end Multipart

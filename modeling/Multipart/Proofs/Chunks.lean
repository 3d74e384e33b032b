import Mathlib.Data.List.TakeWhile
import Multipart.Proofs.Search
import Multipart.Proofs.Handle
import Multipart.Proofs.Steps

/-!
# A body in pieces

What a decoder makes of some bytes and then of more bytes is what it
makes of all of them at once (`Decoder.run_append`). The step that is not
the same is the one that copies part data: where more bytes follow, it
may copy more at once, or find the delimiter, and a ceiling that the
copying would cross is met earlier. So runs are compared by `Run.Agrees`:
the same result, the same decoder once it has failed, and, while it has
not, the same decoder and storage and the same bytes left.

`Multipart.Proofs.Feeding` carries this over to the operations of a
decoder.
-/

namespace Multipart

/-! ## Lines -/

namespace Line

theorem body_append_of_isTerminated {a : Bytes} (h : isTerminated a = true) (b : Bytes) :
    body (a ++ b) = body a ∧ isTerminated (a ++ b) = true := by
  have hlt := length_body_lt h
  have hrest : a.dropWhile (· != Bytes.lf) ≠ [] := by simpa [isTerminated] using h
  rw [body] at hlt
  rw [body, body, isTerminated, List.takeWhile_append, List.dropWhile_append]
  simp [Nat.ne_of_lt hlt, hrest]

theorem length_body_le_append (a b : Bytes) : (body a).length ≤ (body (a ++ b)).length := by
  cases h : isTerminated a with
  | true => exact Nat.le_of_eq (congrArg _ (body_append_of_isTerminated h b).1.symm)
  | false =>
    have hall : ∀ x ∈ a, (x != Bytes.lf) = true :=
      List.dropWhile_eq_nil_iff.mp (by simpa [isTerminated] using h)
    rw [body_eq_self h, body, List.takeWhile_append_of_pos hall, List.length_append]
    omega

/-- A line that is whole or too long stays so, whatever follows. -/
theorem next_append {maxLength : Nat} {a : Bytes} (h : next maxLength false a ≠ .incomplete)
    (b : Bytes) (atEnd : Bool) : next maxLength atEnd (a ++ b) = next maxLength false a := by
  rw [next] at h ⊢
  rw [next]
  by_cases hlong : (body a).length > maxLength
  · have hle := length_body_le_append a b
    rw [if_pos hlong, if_pos (by omega)]
  · rw [if_neg hlong] at h ⊢
    cases hterm : isTerminated a with
    | true =>
      obtain ⟨hbody, hterm'⟩ := body_append_of_isTerminated hterm b
      simp only [hbody, hterm', if_neg hlong, if_true]
    | false =>
      rw [hterm] at h
      exact absurd rfl h

end Line

/-! ## Writing in two goes -/

theorem Disk.append_append (d : Disk) (file : FileId) (a b : Bytes) :
    (d.append file a).append file b = d.append file (a ++ b) := by
  simp only [Disk.append, Disk.mk.injEq, true_and]
  rw [List.modify_modify_eq]
  congr 1
  funext old
  simp

namespace TempFile

theorem append_append {t t' : TempFile} {a : Bytes} {s s' : Storage}
    (h : t.append a s = .ok (t', s')) (b : Bytes) : t.append (a ++ b) s = t'.append b s' := by
  rw [append] at h
  split at h
  · cases h
  · next hfits =>
    split at h
    · next hnil =>
      cases h
      rw [List.isEmpty_iff.mp hnil, List.nil_append]
    · next hne =>
      split at h
      · cases h
      · next file hhandle =>
        cases h
        have hne' : (a ++ b).isEmpty = false := by simp_all
        rw [append, append, hhandle, hne', List.length_append]
        simp only [Nat.add_assoc, Bool.false_eq_true, if_false]
        split
        · rfl
        · split
          · next hnil =>
            rw [List.isEmpty_iff.mp hnil]
            simp
          · simp only [Storage.onDisk, Disk.append_append]

/-- What an open file refuses it also refuses with more bytes behind. -/
theorem append_error_append {t : TempFile} {a : Bytes} {s : Storage} {e : UploadError}
    (ht : t.handle.isSome = true) (h : t.append a s = .error e) (b : Bytes) :
    t.append (a ++ b) s = .error e := by
  rw [append] at h ⊢
  split at h
  · next hlong =>
    rw [List.length_append, if_pos (by omega)]
    exact h
  · split at h
    · cases h
    · split at h
      · next hclosed =>
        rw [hclosed] at ht
        cases ht
      · cases h

end TempFile

namespace Content

theorem write_append {maxFieldSize : Nat} {content content' : Content} {a : Bytes}
    {s s' : Storage} (h : content.write maxFieldSize a s = .ok (content', s')) (b : Bytes) :
    content.write maxFieldSize (a ++ b) s = content'.write maxFieldSize b s' := by
  cases content with
  | plain value =>
    rw [write] at h
    split at h
    · cases h
    · cases h
      rw [write, write]
      simp only [List.length_append, List.append_assoc, Nat.add_assoc]
  | file part =>
    rw [write] at h
    split at h
    · next happend =>
      cases h
      rw [write, write, TempFile.append_append happend]
    · cases h

theorem write_error_append {maxFieldSize : Nat} {content : Content} {a : Bytes} {s : Storage}
    {e : UploadError} (hopen : FilePart.HasHandle content.file?)
    (h : content.write maxFieldSize a s = .error e) (b : Bytes) :
    content.write maxFieldSize (a ++ b) s = .error e := by
  cases content with
  | plain value =>
    rw [write] at h ⊢
    split at h
    · rw [List.length_append, if_pos (by omega)]
      exact h
    · cases h
  | file part =>
    rw [write] at h
    split at h
    · cases h
    · next happend =>
      cases h
      rw [write, TempFile.append_error_append (hopen part rfl) happend]

end Content

/-! ## Runs that come to the same -/

/-- Two runs come to the same, the first after it used up `consumed` bytes
more. A failure leaves nothing of how far the run came but its point. -/
structure Run.Agrees (consumed : Nat) (r r' : Run) : Prop where
  result : r.result = r'.result
  fail : r.decoder.fail = r'.decoder.fail
  rest : ∀ progress, r.result = .ok progress →
    r.decoder = r'.decoder ∧ r.storage = r'.storage ∧ r.used = consumed + r'.used

namespace Run.Agrees

theorem refl (r : Run) : r.Agrees 0 r := ⟨rfl, rfl, fun _ _ => ⟨rfl, rfl, (Nat.zero_add _).symm⟩⟩

theorem trans {m n : Nat} {r r' r'' : Run} (h : r.Agrees m r') (h' : r'.Agrees n r'') :
    r.Agrees (m + n) r'' := by
  refine ⟨h.result.trans h'.result, h.fail.trans h'.fail, ?_⟩
  intro progress hok
  obtain ⟨hdec, hsto, hused⟩ := h.rest progress hok
  obtain ⟨hdec', hsto', hused'⟩ := h'.rest progress (h.result ▸ hok)
  exact ⟨hdec.trans hdec', hsto.trans hsto', by omega⟩

/-- The bytes that one run used up more can be counted to the other. -/
theorem shift {n : Nat} {r r' : Run} (h : r.Agrees n r') :
    r.Agrees 0 { r' with used := n + r'.used } := by
  refine ⟨h.result, h.fail, ?_⟩
  intro progress hok
  obtain ⟨hdec, hsto, hused⟩ := h.rest progress hok
  exact ⟨hdec, hsto, by rw [hused, Nat.zero_add]⟩

theorem of_fail {n : Nat} {e : UploadError} {d d' : Decoder} {s s' : Storage} {used used' : Nat}
    (h : d.fail = d'.fail) : Run.Agrees n ⟨.error e, d, s, used⟩ ⟨.error e, d', s', used'⟩ :=
  ⟨rfl, h, fun _ hok => nomatch hok⟩

theorem of_step {d d' : Decoder} {s s' : Storage} {w w' : Bytes} {atEnd : Bool} {n : Nat}
    (h : d.next s w atEnd = .advance n d' s') (hw : w.drop n = w') :
    (d.run s w atEnd).Agrees n (d'.run s' w' atEnd) := by
  rw [Decoder.run_of_advance h, hw]
  exact ⟨rfl, rfl, fun _ _ => ⟨rfl, rfl, rfl⟩⟩

theorem of_advance {d d₁ d₂ : Decoder} {s s₁ s₂ : Storage} {w w₁ : Bytes} {atEnd : Bool}
    {m n : Nat} (h : d.next s w atEnd = .advance (m + n) d₂ s₂)
    (h₁ : d₁.next s₁ w₁ atEnd = .advance n d₂ s₂) (hw : w.drop m = w₁) :
    (d.run s w atEnd).Agrees m (d₁.run s₁ w₁ atEnd) := by
  rw [Decoder.run_of_advance h, Decoder.run_of_advance h₁, ← hw, List.drop_drop]
  exact ⟨rfl, rfl, fun _ _ => ⟨rfl, rfl, Nat.add_assoc ..⟩⟩

end Run.Agrees

namespace Decoder

/-! ## One step with more bytes behind -/

/-- Part data that was copied up to the bytes to hold back: whatever
follows, the run comes to the same as one that has not copied it. The
delimiter, if it comes, lies two bytes or more behind the cut, so the CRLF
in front of it was not copied. -/
theorem run_append_of_flush {d : Decoder} {name : String} {content content' : Content}
    {s s' : Storage} {a : Bytes} {cut : Nat} (hstage : d.stage = .partData name content)
    (hnone : Delimiter.find? a d.delimiter = none)
    (hcut : a.length = cut + Delimiter.holdback d.delimiter) (hpos : cut ≠ 0)
    (hwrite : content.write d.settings.maxFieldSize (a.take cut) s = .ok (content', s'))
    (b : Bytes) (atEnd : Bool) :
    (d.run s (a ++ b) atEnd).Agrees cut
      ({ d with stage := .partData name content' }.run s' (a.drop cut ++ b) atEnd) := by
  have hfind := Delimiter.find?_drop_append (b := b) hnone (Nat.le_of_eq hcut.symm)
  have hlen : (a.take cut).length = cut := by
    rw [List.length_take]
    omega
  have hsplit : a ++ b = a.take cut ++ (a.drop cut ++ b) := by
    rw [← List.append_assoc, List.take_append_drop]
  have hle : cut ≤ a.length := by omega
  have htake := Bytes.take_add_append hle b
  have hdrop : (a ++ b).drop cut = a.drop cut ++ b := by
    rw [List.drop_append_of_le_length (by omega)]
  have hnext : d.next s (a ++ b) atEnd = d.partData name content (a ++ b) s := next_partData hstage
  have hnext' :
      Decoder.next { d with stage := .partData name content' } s' (a.drop cut ++ b) atEnd =
      Decoder.partData { d with stage := .partData name content' } name content'
        (a.drop cut ++ b) s' :=
    next_partData rfl
  have hfail : d.fail = ({ d with stage := .partData name content' } : Decoder).fail := by
    simp [fail, phase, hstage, Stage.phase]
  cases hrest : Delimiter.find? (a.drop cut ++ b) d.delimiter with
  | some p =>
    rw [hrest] at hfind
    have hdata := Delimiter.trimCrlf_take_append hnone (Nat.le_of_eq hcut.symm) hfind
    have hsame := Content.write_append hwrite (Bytes.trimCrlf ((a.drop cut ++ b).take p))
    rw [← hdata] at hsame
    cases hw : content'.write d.settings.maxFieldSize
        (Bytes.trimCrlf ((a.drop cut ++ b).take p)) s' with
    | error e =>
      rw [run_of_fail (hnext.trans (partData_of_found_error hfind (hsame.trans hw))),
        run_of_fail (hnext'.trans (partData_of_found_error hrest hw))]
      exact .of_fail hfail
    | ok out =>
      exact .of_advance (hnext.trans (partData_of_found hfind (hsame.trans hw)))
        (hnext'.trans (partData_of_found hrest hw)) hdrop
  | none =>
    rw [hrest] at hfind
    have hlen' : (a ++ b).length = cut + (a.drop cut ++ b).length := by
      rw [hsplit, List.length_append, hlen]
    rcases Nat.eq_zero_or_pos b.length with hb | hb
    · -- nothing more came: the whole run goes through the copying
      obtain rfl := List.length_eq_zero_iff.mp hb
      rw [List.append_nil] at hfind hnext ⊢
      rw [List.append_nil]
      exact .of_step (hnext.trans (partData_of_flush hfind hcut hpos hwrite)) rfl
    · obtain ⟨cut', hcut'⟩ : ∃ n, (a.drop cut ++ b).length = n + Delimiter.holdback d.delimiter :=
        Nat.exists_eq_add_of_le' (by rw [List.length_append, List.length_drop]; omega)
      have hpos' : cut' ≠ 0 := by
        rw [List.length_append, List.length_drop] at hcut'
        omega
      have hcut₂ : (a ++ b).length = cut + cut' + Delimiter.holdback d.delimiter := by omega
      have hsame := Content.write_append hwrite ((a.drop cut ++ b).take cut')
      rw [← htake] at hsame
      cases hw : content'.write d.settings.maxFieldSize ((a.drop cut ++ b).take cut') s' with
      | error e =>
        rw [run_of_fail (hnext.trans
            (partData_of_flush_error hfind hcut₂ (by omega) (hsame.trans hw))),
          run_of_fail (hnext'.trans (partData_of_flush_error hrest hcut' hpos' hw))]
        exact .of_fail hfail
      | ok out =>
        exact .of_advance
          (hnext.trans (partData_of_flush hfind hcut₂ (by omega) (hsame.trans hw)))
          (hnext'.trans (partData_of_flush hrest hcut' hpos' hw)) hdrop

/-- A step on a line that is there does not look at what follows it. -/
theorem next_append_of_line {d : Decoder} {s : Storage} {a : Bytes} (hstage : d.AtLine)
    (hmove : d.next s a false ≠ .wait) (b : Bytes) (atEnd : Bool) :
    d.next s (a ++ b) atEnd = d.next s a false := by
  rw [next_of_line hstage] at hmove
  have hline : Line.next d.settings.maxLineLength false a ≠ .incomplete := by
    intro hline
    rw [hline] at hmove
    exact hmove rfl
  rw [next_of_line hstage, next_of_line hstage, Line.next_append hline]

/-- Part data up to a delimiter that is there does not depend on what
follows it. -/
theorem partData_append_of_found {d : Decoder} {a : Bytes} {place : Nat}
    (hfound : Delimiter.find? a d.delimiter = some place) (name : String) (content : Content)
    (s : Storage) (b : Bytes) :
    d.partData name content (a ++ b) s = d.partData name content a s := by
  have hfit := Delimiter.add_length_le_of_find? hfound
  simp only [partData, hfound, Delimiter.find?_append_of_some hfound b]
  rw [List.take_append_of_le_length (by omega)]

/-- Where copying fails, copying more, or up to the delimiter, fails in the
same way. -/
theorem partData_append_of_error {d : Decoder} {name : String} {content : Content} {s : Storage}
    {a : Bytes} {cut : Nat} {e : UploadError} (hopen : FilePart.HasHandle content.file?)
    (hnone : Delimiter.find? a d.delimiter = none)
    (hcut : a.length = cut + Delimiter.holdback d.delimiter) (hpos : cut ≠ 0)
    (hwrite : content.write d.settings.maxFieldSize (a.take cut) s = .error e) (b : Bytes) :
    d.partData name content (a ++ b) s = .fail e d s := by
  have hmore (n : Nat) (hle : cut ≤ n) :
      (a ++ b).take n = a.take cut ++ ((a ++ b).take n).drop cut := by
    have htake : ((a ++ b).take n).take cut = a.take cut := by
      rw [List.take_take, Nat.min_eq_left hle, List.take_append_of_le_length (by omega)]
    rw [← htake, List.take_append_drop]
  cases hfind : Delimiter.find? (a ++ b) d.delimiter with
  | some place =>
    have hplace := Delimiter.cut_add_two_le hnone (Nat.le_of_eq hcut.symm) hfind
    have hfit := Delimiter.add_length_le_of_find? hfind
    have hlen : (((a ++ b).take place).drop cut).length = place - cut := by
      rw [List.length_drop, List.length_take]
      omega
    refine partData_of_found_error hfind ?_
    -- two bytes stay in front of the delimiter for the CRLF to be looked for in
    rw [hmore place (by omega), Bytes.trimCrlf_append _ (by omega)]
    exact Content.write_error_append hopen hwrite _
  | none =>
    have hlength : (a ++ b).length = cut + b.length + Delimiter.holdback d.delimiter := by
      rw [List.length_append]
      omega
    refine partData_of_flush_error hfind hlength (by omega) ?_
    rw [hmore (cut + b.length) (by omega)]
    exact Content.write_error_append hopen hwrite _

/-- What a step does to part data that waits for no more. -/
theorem partData_cases {d : Decoder} {name : String} {content : Content} {a : Bytes} {s : Storage}
    (hmove : d.partData name content a s ≠ .wait) :
    (∃ place, Delimiter.find? a d.delimiter = some place) ∨
      ∃ cut, Delimiter.find? a d.delimiter = none ∧ cut ≠ 0 ∧
        a.length = cut + Delimiter.holdback d.delimiter := by
  cases hfind : Delimiter.find? a d.delimiter with
  | some place => exact .inl ⟨place, rfl⟩
  | none =>
    rcases Nat.lt_or_ge (Delimiter.holdback d.delimiter) a.length with hlt | hge
    · exact .inr ⟨a.length - Delimiter.holdback d.delimiter, rfl, by omega, by omega⟩
    · exact absurd (partData_of_short hfind hge) hmove

/-- What was held back has no delimiter in it either, and is waited on. -/
theorem next_of_heldBack {d : Decoder} {name : String} {content : Content} {s : Storage}
    {a : Bytes} {cut : Nat} {atEnd : Bool} (hnone : Delimiter.find? a d.delimiter = none)
    (hcut : a.length = cut + Delimiter.holdback d.delimiter) :
    Decoder.next { d with stage := .partData name content } s (a.drop cut) atEnd = .wait := by
  rw [next_partData rfl]
  refine partData_of_short (Delimiter.find?_drop_of_none cut hnone) ?_
  rw [List.length_drop, hcut, Nat.add_sub_cancel_left]

/-- A step that fails still fails with more bytes behind. -/
theorem next_append_of_fail {d d' : Decoder} {s s' : Storage} {a : Bytes} {e : UploadError}
    (hopen : d.HasHandle) (h : d.next s a false = .fail e d' s') (b : Bytes) (atEnd : Bool) :
    ∃ d'' s'', d.next s (a ++ b) atEnd = .fail e d'' s'' ∧ d''.fail = d'.fail := by
  have hmove : d.next s a false ≠ .wait := by
    rw [h]
    exact nofun
  cases hstage : d.stage with
  | boundaryLine =>
    rw [next_append_of_line (.inl hstage) hmove, h]
    exact ⟨_, _, rfl, rfl⟩
  | headerLines heading =>
    rw [next_append_of_line (.inr ⟨heading, hstage⟩) hmove, h]
    exact ⟨_, _, rfl, rfl⟩
  | partData name content =>
    rw [HasHandle, hstage] at hopen
    rw [next_partData hstage] at h hmove ⊢
    rcases partData_cases hmove with ⟨place, hfound⟩ | ⟨cut, hnone, hpos, hcut⟩
    · rw [partData_append_of_found hfound, h]
      exact ⟨_, _, rfl, rfl⟩
    · cases hwrite : content.write d.settings.maxFieldSize (a.take cut) s with
      | error e' =>
        rw [partData_of_flush_error hnone hcut hpos hwrite] at h
        cases h
        exact ⟨_, _, partData_append_of_error hopen hnone hcut hpos hwrite b, rfl⟩
      | ok out =>
        rw [partData_of_flush hnone hcut hpos hwrite] at h
        cases h
  | ended =>
    simp only [next, hstage] at h
    cases h
  | failed phase =>
    simp only [next, hstage] at h ⊢
    cases h
    exact ⟨_, _, rfl, rfl⟩

/-- A step that uses up bytes leaves a run that comes to the same, with
more bytes behind. -/
theorem run_append_of_advance {d d' : Decoder} {s s' : Storage} {a : Bytes} {n : Nat}
    (h : d.next s a false = .advance n d' s') (b : Bytes) (atEnd : Bool) :
    (d.run s (a ++ b) atEnd).Agrees n (d'.run s' (a.drop n ++ b) atEnd) := by
  have hle := (next_advance h).1
  have hdrop : (a ++ b).drop n = a.drop n ++ b := List.drop_append_of_le_length hle
  have hmove : d.next s a false ≠ .wait := by
    rw [h]
    exact nofun
  cases hstage : d.stage with
  | boundaryLine =>
    rw [← next_append_of_line (.inl hstage) hmove b atEnd] at h
    exact .of_step h hdrop
  | headerLines heading =>
    rw [← next_append_of_line (.inr ⟨heading, hstage⟩) hmove b atEnd] at h
    exact .of_step h hdrop
  | partData name content =>
    rw [next_partData hstage] at h hmove
    rcases partData_cases hmove with ⟨place, hfound⟩ | ⟨cut, hnone, hpos, hcut⟩
    · rw [← partData_append_of_found hfound name content s b, ← next_partData hstage] at h
      exact .of_step h hdrop
    · cases hwrite : content.write d.settings.maxFieldSize (a.take cut) s with
      | error e' =>
        rw [partData_of_flush_error hnone hcut hpos hwrite] at h
        cases h
      | ok out =>
        rw [partData_of_flush hnone hcut hpos hwrite] at h
        cases h
        exact run_append_of_flush hstage hnone hcut hpos hwrite b atEnd
  | ended =>
    simp only [next, hstage] at h
    cases h
  | failed phase =>
    simp only [next, hstage] at h
    cases h

/-! ## A run with more bytes behind -/

theorem run_hasHandle {d : Decoder} {s : Storage} {w : Bytes} {atEnd : Bool} {progress : Progress}
    (hopen : d.HasHandle) (h : (d.run s w atEnd).result = .ok progress) :
    (d.run s w atEnd).decoder.HasHandle :=
  run_keeps next_hasHandle hopen h

/-- A run that asks for more stands at a step that waits. -/
theorem next_of_run_needsMore {d : Decoder} {s : Storage} {w : Bytes} {atEnd : Bool}
    (h : (d.run s w atEnd).result = .ok .needsMore) :
    (d.run s w atEnd).decoder.next (d.run s w atEnd).storage (w.drop (d.run s w atEnd).used)
      atEnd = .wait := by
  induction d, s, w using run_induction atEnd with
  | step d s w ih =>
    cases hnext : d.next s w atEnd with
    | wait => rwa [run_of_wait hnext, List.drop_zero]
    | finished => rw [run_of_finished hnext] at h; cases h
    | fail => rw [run_of_fail hnext] at h; cases h
    | advance n d' s' =>
      rw [run_of_advance hnext] at h ⊢
      rw [← List.drop_drop]
      exact ih n d' s' hnext h

/-- A run that is complete stands past the closing boundary. -/
theorem stage_of_run_complete {d : Decoder} {s : Storage} {w : Bytes} {atEnd : Bool}
    (h : (d.run s w atEnd).result = .ok .complete) :
    (d.run s w atEnd).decoder.stage = .ended := by
  induction d, s, w using run_induction atEnd with
  | step d s w ih =>
    cases hnext : d.next s w atEnd with
    | wait => rw [run_of_wait hnext] at h; cases h
    | finished =>
      rw [run_of_finished hnext]
      exact stage_of_next_finished hnext
    | fail => rw [run_of_fail hnext] at h; cases h
    | advance n d' s' =>
      rw [run_of_advance hnext] at h ⊢
      exact ih n d' s' hnext h

/-- A run on some bytes and then more is a run on all of them: it goes on
where the first one asks for more, and it ends where the first one ends. -/
theorem run_append {d : Decoder} {s : Storage} {a : Bytes} (hopen : d.HasHandle) (b : Bytes)
    (atEnd : Bool) :
    if (d.run s a false).result = .ok .needsMore then
      (d.run s (a ++ b) atEnd).Agrees (d.run s a false).used
        ((d.run s a false).decoder.run (d.run s a false).storage
          (a.drop (d.run s a false).used ++ b) atEnd)
    else (d.run s (a ++ b) atEnd).Agrees 0 (d.run s a false) := by
  induction d, s, a using run_induction false with
  | step d s a ih =>
    cases hnext : d.next s a false with
    | wait =>
      rw [run_of_wait hnext]
      exact .refl _
    | finished =>
      have hnext' : d.next s (a ++ b) atEnd = .finished := by
        simp only [next, stage_of_next_finished hnext]
      rw [run_of_finished hnext, run_of_finished hnext']
      exact .refl _
    | fail e d' s' =>
      obtain ⟨d'', s'', hnext', hfail⟩ := next_append_of_fail hopen hnext b atEnd
      rw [run_of_fail hnext, run_of_fail hnext']
      exact .of_fail hfail
    | advance n d' s' =>
      have hstep := run_append_of_advance hnext b atEnd
      have hrest := ih n d' s' hnext (next_hasHandle hopen hnext)
      rw [run_of_advance hnext]
      dsimp only
      split at hrest
      · next hmore =>
        rw [if_pos hmore, ← List.drop_drop]
        exact hstep.trans hrest
      · next hmore =>
        rw [if_neg hmore]
        exact (hstep.trans hrest).shift

end Decoder

end Multipart

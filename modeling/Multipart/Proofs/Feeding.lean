import Multipart.Proofs.Chunks

/-!
# Feeding a decoder

A sequence of pieces is as good as the bytes in it, whatever the pieces
are: feeding them one by one comes to the same as processing all of them
at once (`Decoder.feedAll_agrees_process`), and so does finishing
afterwards (`Decoder.finish_agrees_feedAll`).
-/

namespace Multipart

/-- Two operations come to the same: the same answer and decoder and, where
they do not fail, the same storage. -/
structure Outcome.Agrees {α : Type} (o o' : Outcome α) : Prop where
  result : o.result = o'.result
  decoder : o.decoder = o'.decoder
  storage : ∀ x, o.result = .ok x → o.storage = o'.storage

namespace Outcome.Agrees

variable {α : Type} {o o' o'' : Outcome α}

theorem symm (h : o.Agrees o') : o'.Agrees o :=
  ⟨h.result.symm, h.decoder.symm, fun x hok => (h.storage x (h.result.trans hok)).symm⟩

theorem trans (h : o.Agrees o') (h' : o'.Agrees o'') : o.Agrees o'' :=
  ⟨h.result.trans h'.result, h.decoder.trans h'.decoder, fun x hok =>
    (h.storage x hok).trans (h'.storage x (h.result ▸ hok))⟩

end Outcome.Agrees

namespace InputBuffer

@[simp] theorem push_nil (b : InputBuffer) : b.push [] = b := by
  simp [push]

@[simp] theorem push_push (b : InputBuffer) (x y : Bytes) :
    (b.push x).push y = b.push (x ++ y) := by
  simp [push]

end InputBuffer

namespace Decoder

variable {d : Decoder} {s : Storage} {buffer : InputBuffer} {atEnd : Bool}

/-! ## What a pass makes of a run -/

theorem pass_of_ok {progress : Progress} (hd : d.stage.hasFailed = false)
    (h : (d.run s buffer.unread atEnd).result = .ok progress) :
    (d.pass s buffer atEnd).result = .ok progress ∧
      (d.pass s buffer atEnd).decoder = (d.run s buffer.unread atEnd).decoder ∧
      (d.pass s buffer atEnd).storage = (d.run s buffer.unread atEnd).storage ∧
      (d.pass s buffer atEnd).buffer.unread =
        buffer.unread.drop (d.run s buffer.unread atEnd).used := by
  simp [pass, hd, h]

theorem pass_of_error {e : UploadError} (hd : d.stage.hasFailed = false)
    (h : (d.run s buffer.unread atEnd).result = .error e) :
    (d.pass s buffer atEnd).result = .error e ∧
      (d.pass s buffer atEnd).decoder = (d.run s buffer.unread atEnd).decoder.fail ∧
      (d.pass s buffer atEnd).storage =
        (d.run s buffer.unread atEnd).decoder.release (d.run s buffer.unread atEnd).storage := by
  simp [pass, hd, h, abort]

theorem result_pass (hd : d.stage.hasFailed = false) :
    (d.pass s buffer atEnd).result = (d.run s buffer.unread atEnd).result := by
  cases h : (d.run s buffer.unread atEnd).result with
  | ok progress => exact (pass_of_ok hd h).1
  | error e => exact (pass_of_error hd h).1

/-- Passes over runs that come to the same, from the point where one of
them stands and the bytes that are left there. -/
theorem pass_agrees {d' : Decoder} {s' : Storage} {buffer' : InputBuffer} {n : Nat}
    (hd : d.stage.hasFailed = false) (hd' : d'.stage.hasFailed = false)
    (hunread : buffer.unread.drop n = buffer'.unread)
    (h : (d.run s buffer.unread atEnd).Agrees n (d'.run s' buffer'.unread atEnd)) :
    (d.pass s buffer atEnd).Agrees (d'.pass s' buffer' atEnd) ∧
      (∀ progress, (d.pass s buffer atEnd).result = .ok progress →
        (d.pass s buffer atEnd).buffer.unread = (d'.pass s' buffer' atEnd).buffer.unread) := by
  cases hrun : (d.run s buffer.unread atEnd).result with
  | error e =>
    obtain ⟨hres, hdec, -⟩ := pass_of_error hd hrun
    obtain ⟨hres', hdec', -⟩ := pass_of_error hd' (h.result.symm.trans hrun)
    rw [← h.fail] at hdec'
    refine ⟨⟨hres.trans hres'.symm, hdec.trans hdec'.symm, fun x hok => ?_⟩, fun x hok => ?_⟩
    · rw [hres] at hok; cases hok
    · rw [hres] at hok; cases hok
  | ok progress =>
    obtain ⟨hres, hdec, hsto, hleft⟩ := pass_of_ok hd hrun
    obtain ⟨hres', hdec', hsto', hleft'⟩ := pass_of_ok hd' (h.result.symm.trans hrun)
    obtain ⟨hd₂, hs₂, hused⟩ := h.rest progress hrun
    refine ⟨⟨hres.trans hres'.symm, ?_, fun _ _ => ?_⟩, fun _ _ => ?_⟩
    · rw [hdec, hdec', hd₂]
    · rw [hsto, hsto', hs₂]
    · rw [hleft, hleft', hused, ← hunread, List.drop_drop]

/-- A pass looks at nothing but the unread bytes of its buffer. -/
theorem pass_agrees_of_unread {buffer' : InputBuffer} (hd : d.stage.hasFailed = false)
    (h : buffer.unread = buffer'.unread) :
    (d.pass s buffer atEnd).Agrees (d.pass s buffer' atEnd) ∧
      (∀ progress, (d.pass s buffer atEnd).result = .ok progress →
        (d.pass s buffer atEnd).buffer.unread = (d.pass s buffer' atEnd).buffer.unread) := by
  refine pass_agrees (n := 0) hd hd (List.drop_zero.trans h) ?_
  rw [h]
  exact .refl _

theorem hasFailed_of_next_wait {w : Bytes} (h : d.next s w atEnd = .wait) :
    d.stage.hasFailed = false := by
  cases hstage : d.stage with
  | failed phase =>
    simp only [next, hstage] at h
    cases h
  | _ => rfl

theorem hasFailed_pass {progress : Progress} (hd : d.stage.hasFailed = false)
    (h : (d.pass s buffer atEnd).result = .ok progress) :
    (d.pass s buffer atEnd).decoder.stage.hasFailed = false := by
  rw [result_pass hd] at h
  rw [(pass_of_ok hd h).2.1]
  cases progress with
  | needsMore => exact hasFailed_of_next_wait (next_of_run_needsMore h)
  | complete =>
    rw [stage_of_run_complete h]
    rfl

theorem alive_of_pass {progress : Progress} (h : (d.pass s buffer atEnd).result = .ok progress) :
    d.stage.hasFailed = false := by
  cases hd : d.stage.hasFailed with
  | false => rfl
  | true =>
    simp only [pass, hd, if_true] at h
    cases h

theorem hasFailed_of_result_pass {progress : Progress}
    (h : (d.pass s buffer atEnd).result = .ok progress) :
    (d.pass s buffer atEnd).decoder.stage.hasFailed = false :=
  hasFailed_pass (alive_of_pass h) h

/-- A pass that completes leaves a decoder past the closing boundary. -/
theorem stage_of_result_pass (h : (d.pass s buffer atEnd).result = .ok .complete) :
    (d.pass s buffer atEnd).decoder.stage = .ended := by
  have hd := alive_of_pass h
  rw [result_pass hd] at h
  rw [(pass_of_ok hd h).2.1]
  exact stage_of_run_complete h

theorem hasHandle_pass {progress : Progress} (hd : d.stage.hasFailed = false)
    (hopen : d.HasHandle) (h : (d.pass s buffer atEnd).result = .ok progress) :
    (d.pass s buffer atEnd).decoder.HasHandle := by
  rw [result_pass hd] at h
  rw [(pass_of_ok hd h).2.1]
  exact run_hasHandle hopen h

theorem run_of_ended (hstage : d.stage = .ended) (w : Bytes) :
    d.run s w atEnd = ⟨.ok .complete, d, s, 0⟩ :=
  run_of_finished (by simp only [next, hstage])

theorem pass_of_ended (hstage : d.stage = .ended) (s : Storage) (buffer : InputBuffer)
    (atEnd : Bool) :
    (d.pass s buffer atEnd).result = .ok .complete ∧
      (d.pass s buffer atEnd).decoder = d ∧ (d.pass s buffer atEnd).storage = s := by
  have hrun : d.run s buffer.unread atEnd = ⟨.ok .complete, d, s, 0⟩ := run_of_ended hstage _
  obtain ⟨hres, hdec, hsto, -⟩ := pass_of_ok (by rw [hstage]; rfl) (congrArg Run.result hrun)
  exact ⟨hres, hdec.trans (congrArg Run.decoder hrun), hsto.trans (congrArg Run.storage hrun)⟩

/-- Past the closing boundary no bytes are used up. -/
theorem unread_pass_of_ended (hstage : d.stage = .ended) (s : Storage) (buffer : InputBuffer)
    (atEnd : Bool) : (d.pass s buffer atEnd).buffer.unread = buffer.unread := by
  have hrun : d.run s buffer.unread atEnd = ⟨.ok .complete, d, s, 0⟩ := run_of_ended hstage _
  rw [(pass_of_ok (by rw [hstage]; rfl) (congrArg Run.result hrun)).2.2.2, hrun, List.drop_zero]

/-! ## Passes one after the other -/

/-- A pass over some bytes that did not fail, and then one over these and
more, come to the same as one pass over all of them. -/
theorem pass_push_agrees {progress : Progress} (hd : d.stage.hasFailed = false)
    (hopen : d.HasHandle) (h : (d.process s buffer).result = .ok progress) (bytes : Bytes)
    (atEnd : Bool) :
    (d.pass s (buffer.push bytes) atEnd).Agrees
        ((d.process s buffer).decoder.pass (d.process s buffer).storage
          ((d.process s buffer).buffer.push bytes) atEnd) ∧
      (∀ progress, (d.pass s (buffer.push bytes) atEnd).result = .ok progress →
        (d.pass s (buffer.push bytes) atEnd).buffer.unread =
          ((d.process s buffer).decoder.pass (d.process s buffer).storage
            ((d.process s buffer).buffer.push bytes) atEnd).buffer.unread) := by
  have hd' := hasFailed_pass hd h
  have hrun := h
  rw [process, result_pass hd] at hrun
  obtain ⟨-, hdec, hsto, hleft⟩ := pass_of_ok hd hrun
  have hall := run_append (s := s) (a := buffer.unread) hopen bytes atEnd
  have hle := used_run_le d s buffer.unread false
  have hunread : (buffer.push bytes).unread.drop (d.run s buffer.unread false).used =
      ((d.process s buffer).buffer.push bytes).unread := by
    rw [InputBuffer.unread_push, InputBuffer.unread_push, process, hleft,
      List.drop_append_of_le_length hle]
  refine pass_agrees hd hd' hunread ?_
  rw [process, hdec, hsto, InputBuffer.unread_push, InputBuffer.unread_push, hleft]
  cases progress with
  | needsMore => rwa [if_pos hrun] at hall
  | complete =>
    rw [if_neg (by rw [hrun]; exact nofun)] at hall
    rw [run_of_ended (stage_of_run_complete hrun)]
    refine ⟨hall.result.trans hrun, hall.fail, ?_⟩
    intro p hok
    obtain ⟨hd₂, hs₂, hused⟩ := hall.rest p hok
    exact ⟨hd₂, hs₂, by rw [hused, Nat.zero_add, Nat.add_zero]⟩

/-- A pass that fails fails in the same way with more bytes behind. -/
theorem pass_push_agrees_of_error {e : UploadError} (hd : d.stage.hasFailed = false)
    (hopen : d.HasHandle) (h : (d.process s buffer).result = .error e) (bytes : Bytes)
    (atEnd : Bool) : (d.pass s (buffer.push bytes) atEnd).Agrees (d.process s buffer) := by
  have hrun := h
  rw [process, result_pass hd] at hrun
  have hall := run_append (s := s) (a := buffer.unread) hopen bytes atEnd
  rw [if_neg (by rw [hrun]; exact nofun), ← InputBuffer.unread_push] at hall
  obtain ⟨hres, hdec, -⟩ := pass_of_error hd (hall.result.trans hrun)
  refine ⟨hres.trans h.symm, ?_, fun x hok => ?_⟩
  · rw [hdec, hall.fail, process, (pass_of_error hd hrun).2.1]
  · rw [hres] at hok; cases hok

/-! ## Pieces -/

/-- Feeding pieces one by one comes to the same as processing their bytes
at once. What is left unread is the same too while more is needed. -/
theorem feedAll_agrees_process (hopen : d.HasHandle)
    (hwait : d.next s buffer.unread false = .wait) (pieces : List Bytes) :
    (d.feedAll s buffer pieces).Agrees (d.process s (buffer.push pieces.flatten)) ∧
      ((d.feedAll s buffer pieces).result = .ok .needsMore →
        (d.feedAll s buffer pieces).buffer.unread =
          (d.process s (buffer.push pieces.flatten)).buffer.unread) := by
  induction pieces generalizing d s buffer with
  | nil =>
    have hd := hasFailed_of_next_wait hwait
    have hrun := run_of_wait hwait
    obtain ⟨hres, hdec, hsto, hleft⟩ := pass_of_ok hd (congrArg Run.result hrun)
    rw [hrun] at hdec hsto hleft
    rw [List.flatten_nil, InputBuffer.push_nil, feedAll, process]
    exact ⟨⟨hres.symm, hdec.symm, fun _ _ => hsto.symm⟩, fun _ => hleft.symm⟩
  | cons piece pieces ih =>
    have hd := hasFailed_of_next_wait hwait
    rw [List.flatten_cons, ← InputBuffer.push_push, feedAll, feed]
    cases hres : (d.process s (buffer.push piece)).result with
    | error e =>
      have hall := pass_push_agrees_of_error hd hopen hres pieces.flatten false
      exact ⟨hall.symm, fun hok => by rw [hres] at hok; cases hok⟩
    | ok progress =>
      have hall := pass_push_agrees hd hopen hres pieces.flatten false
      have hd' := hasFailed_pass hd hres
      rw [process, result_pass hd] at hres
      obtain ⟨-, hdec, hsto, hleft⟩ := pass_of_ok hd hres
      cases progress with
      | needsMore =>
        have hwait' := next_of_run_needsMore hres
        rw [← hdec, ← hsto, ← hleft] at hwait'
        have hrest := ih (hasHandle_pass hd hopen ((result_pass hd).trans hres)) hwait'
        exact ⟨hrest.1.trans hall.1.symm, fun hok => (hrest.2 hok).trans
          (hall.2 _ (hall.1.result.trans (hrest.1.result.symm.trans hok))).symm⟩
      | complete =>
        -- the pieces that are left meet a decoder past the closing boundary
        have hstage := stage_of_run_complete hres
        rw [← hdec] at hstage
        have hres' := (result_pass hd).trans hres
        obtain ⟨hresₑ, hdecₑ, hstoₑ⟩ := pass_of_ended hstage
          (d.process s (buffer.push piece)).storage
          ((d.process s (buffer.push piece)).buffer.push pieces.flatten) false
        have hsame := Outcome.Agrees.mk (hresₑ.trans hres'.symm) hdecₑ (fun _ _ => hstoₑ)
        refine ⟨hsame.symm.trans hall.1.symm, ?_⟩
        intro hok
        rw [process, hres'] at hok
        cases hok

theorem feedAll_cons {piece : Bytes} (h : (d.feed s buffer piece).result = .ok .needsMore)
    (pieces : List Bytes) :
    d.feedAll s buffer (piece :: pieces) =
      (d.feed s buffer piece).decoder.feedAll (d.feed s buffer piece).storage
        (d.feed s buffer piece).buffer pieces := by
  simp only [feedAll, h]

theorem feedAll_cons_of_ne {piece : Bytes} (h : (d.feed s buffer piece).result ≠ .ok .needsMore)
    (pieces : List Bytes) : d.feedAll s buffer (piece :: pieces) = d.feed s buffer piece := by
  simp only [feedAll]

theorem stage_of_feedAll {pieces : List Bytes}
    (h : (d.feedAll s buffer pieces).result = .ok .complete) :
    (d.feedAll s buffer pieces).decoder.stage = .ended := by
  induction pieces generalizing d s buffer with
  | nil => cases h
  | cons piece pieces ih =>
    by_cases hmore : (d.feed s buffer piece).result = .ok .needsMore
    · rw [feedAll_cons hmore] at h ⊢
      exact ih h
    · rw [feedAll_cons_of_ne hmore] at h ⊢
      exact stage_of_result_pass h

theorem feedAll_append {pieces : List Bytes}
    (h : (d.feedAll s buffer pieces).result = .ok .needsMore) (more : List Bytes) :
    d.feedAll s buffer (pieces ++ more) =
      (d.feedAll s buffer pieces).decoder.feedAll (d.feedAll s buffer pieces).storage
        (d.feedAll s buffer pieces).buffer more := by
  induction pieces generalizing d s buffer with
  | nil => rfl
  | cons piece pieces ih =>
    simp only [List.cons_append, feedAll] at h ⊢
    split at h
    · exact ih h
    · next hdone => exact absurd h hdone

theorem feedAll_singleton (d : Decoder) (s : Storage) (buffer : InputBuffer) (piece : Bytes) :
    d.feedAll s buffer [piece] = d.feed s buffer piece := by
  simp only [feedAll]
  split
  · next hmore => rw [← hmore]
  · rfl

/-- A pass over some bytes and more, and one over the rest of them behind pieces that
asked for more, come to the same. -/
theorem pass_push_agrees_feedAll (hopen : d.HasHandle)
    (hwait : d.next s buffer.unread false = .wait) {pieces : List Bytes}
    (h : (d.feedAll s buffer pieces).result = .ok .needsMore) (last : Bytes) (atEnd : Bool) :
    (d.pass s (buffer.push (pieces.flatten ++ last)) atEnd).Agrees
        ((d.feedAll s buffer pieces).decoder.pass (d.feedAll s buffer pieces).storage
          ((d.feedAll s buffer pieces).buffer.push last) atEnd) ∧
      ∀ progress, (d.pass s (buffer.push (pieces.flatten ++ last)) atEnd).result = .ok progress →
        (d.pass s (buffer.push (pieces.flatten ++ last)) atEnd).buffer.unread =
          ((d.feedAll s buffer pieces).decoder.pass (d.feedAll s buffer pieces).storage
            ((d.feedAll s buffer pieces).buffer.push last) atEnd).buffer.unread := by
  have hd := hasFailed_of_next_wait hwait
  obtain ⟨hfed, hunread⟩ := feedAll_agrees_process hopen hwait pieces
  have hproc := hfed.result.symm.trans h
  obtain ⟨hall, hleft⟩ := pass_push_agrees hd hopen hproc last atEnd
  rw [InputBuffer.push_push] at hall hleft
  have hd' := hasFailed_pass hd hproc
  rw [← process, ← hfed.decoder] at hd'
  rw [← hfed.decoder, ← hfed.storage _ h] at hall hleft
  have hsame : ((d.process s (buffer.push pieces.flatten)).buffer.push last).unread =
      ((d.feedAll s buffer pieces).buffer.push last).unread := by
    rw [InputBuffer.unread_push, InputBuffer.unread_push, hunread h]
  obtain ⟨hrest, hleft'⟩ := pass_agrees_of_unread hd' hsame
  refine ⟨hall.trans hrest, fun progress hok => (hleft progress hok).trans ?_⟩
  exact hleft' progress (hall.result.symm.trans hok)

/-- One more piece comes to the same as all bytes at once, also in what is left
unread. -/
theorem feedAll_concat_agrees (hopen : d.HasHandle)
    (hwait : d.next s buffer.unread false = .wait) {pieces : List Bytes}
    (h : (d.feedAll s buffer pieces).result = .ok .needsMore) (last : Bytes) :
    (d.feedAll s buffer (pieces ++ [last])).Agrees
        (d.process s (buffer.push (pieces ++ [last]).flatten)) ∧
      ∀ progress, (d.feedAll s buffer (pieces ++ [last])).result = .ok progress →
        (d.feedAll s buffer (pieces ++ [last])).buffer.unread =
          (d.process s (buffer.push (pieces ++ [last]).flatten)).buffer.unread := by
  rw [feedAll_append h, feedAll_singleton, List.flatten_append, List.flatten_singleton]
  obtain ⟨hall, hunread⟩ := pass_push_agrees_feedAll hopen hwait h last false
  exact ⟨hall.symm, fun progress hok => (hunread progress (hall.result.trans hok)).symm⟩

/-! ## Finishing -/

theorem finish_of_error {e : UploadError} (h : (d.pass s buffer true).result = .error e) :
    d.finish s buffer = ⟨.error e, (d.pass s buffer true).decoder, (d.pass s buffer true).storage,
      (d.pass s buffer true).buffer⟩ := by
  simp only [finish, h]

theorem finish_of_complete (h : (d.pass s buffer true).result = .ok .complete) :
    d.finish s buffer = ⟨.ok (d.pass s buffer true).decoder.form,
      { (d.pass s buffer true).decoder with form := .empty }, (d.pass s buffer true).storage,
      (d.pass s buffer true).buffer⟩ := by
  simp only [finish, h]

theorem finish_of_ended (hstage : d.stage = .ended) (s : Storage) (buffer : InputBuffer) :
    (d.finish s buffer).result = .ok d.form ∧ (d.finish s buffer).storage = s := by
  obtain ⟨hres, hdec, hsto⟩ := pass_of_ended hstage s buffer true
  rw [finish_of_complete hres, hdec, hsto]
  exact ⟨rfl, rfl⟩

theorem finish_of_needsMore (h : (d.pass s buffer true).result = .ok .needsMore) :
    d.finish s buffer = ⟨.error (.protocol .unexpectedEnd),
      ((d.pass s buffer true).decoder.abort (d.pass s buffer true).storage).1,
      ((d.pass s buffer true).decoder.abort (d.pass s buffer true).storage).2,
      (d.pass s buffer true).buffer⟩ := by
  simp only [finish, h]

theorem intoForm_of_ended (hstage : d.stage = .ended) (s : Storage) :
    d.intoForm s = (.ok d.form, s) := by
  rw [intoForm, hstage]

theorem intoForm_of_ne (h : d.stage ≠ .ended) :
    d.intoForm s = (.error (.protocol .incompleteUpload), d.release s) := by
  rw [intoForm]
  split
  · next hstage => exact absurd hstage h
  · rfl

theorem finish_agrees_of_pass {d' : Decoder} {s' : Storage} {buffer' : InputBuffer}
    (h : (d.pass s buffer true).Agrees (d'.pass s' buffer' true)) :
    (d.finish s buffer).Agrees (d'.finish s' buffer') := by
  rw [finish, finish, ← h.result, ← h.decoder]
  cases hres : (d.pass s buffer true).result with
  | error e => exact ⟨rfl, rfl, fun _ hok => nomatch hok⟩
  | ok progress =>
    cases progress with
    | needsMore => exact ⟨rfl, rfl, fun _ hok => nomatch hok⟩
    | complete => exact ⟨rfl, rfl, fun _ _ => h.storage _ hres⟩

theorem finish_agrees_of_unread {buffer' : InputBuffer} (h : buffer.unread = buffer'.unread) :
    (d.finish s buffer).Agrees (d.finish s buffer') := by
  refine finish_agrees_of_pass ?_
  cases hd : d.stage.hasFailed with
  | true =>
    simp only [pass, hd, if_true]
    exact ⟨rfl, rfl, fun _ _ => rfl⟩
  | false => exact (pass_agrees_of_unread hd h).1

/-- What is fed first and then finished, on more bytes or none, comes to the same
as what is finished at once. -/
theorem finish_push_agrees_feedAll {progress : Progress} (hopen : d.HasHandle)
    (hwait : d.next s buffer.unread false = .wait) (pieces : List Bytes) (last : Bytes)
    (h : (d.feedAll s buffer pieces).result = .ok progress) :
    (d.finish s (buffer.push (pieces.flatten ++ last))).Agrees
      ((d.feedAll s buffer pieces).decoder.finish (d.feedAll s buffer pieces).storage
        ((d.feedAll s buffer pieces).buffer.push last)) := by
  cases progress with
  | needsMore =>
    exact finish_agrees_of_pass (pass_push_agrees_feedAll hopen hwait h last true).1
  | complete =>
    have hd := hasFailed_of_next_wait hwait
    obtain ⟨hfed, -⟩ := feedAll_agrees_process hopen hwait pieces
    have hproc := hfed.result.symm.trans h
    have hall := (pass_push_agrees hd hopen hproc last true).1
    rw [InputBuffer.push_push, ← hfed.decoder, ← hfed.storage _ h] at hall
    refine (finish_agrees_of_pass hall).trans (finish_agrees_of_pass ?_)
    have hstage := stage_of_feedAll h
    obtain ⟨hres₁, hdec₁, hsto₁⟩ := pass_of_ended hstage (d.feedAll s buffer pieces).storage
      ((d.process s (buffer.push pieces.flatten)).buffer.push last) true
    obtain ⟨hres₂, hdec₂, hsto₂⟩ := pass_of_ended hstage (d.feedAll s buffer pieces).storage
      ((d.feedAll s buffer pieces).buffer.push last) true
    exact ⟨hres₁.trans hres₂.symm, hdec₁.trans hdec₂.symm, fun _ _ => hsto₁.trans hsto₂.symm⟩

theorem finish_agrees_feedAll {progress : Progress} (hopen : d.HasHandle)
    (hwait : d.next s buffer.unread false = .wait) (pieces : List Bytes)
    (h : (d.feedAll s buffer pieces).result = .ok progress) :
    (d.finish s (buffer.push pieces.flatten)).Agrees
      ((d.feedAll s buffer pieces).decoder.finish (d.feedAll s buffer pieces).storage
        (d.feedAll s buffer pieces).buffer) := by
  simpa using finish_push_agrees_feedAll hopen hwait pieces [] h

theorem finish_of_feedAll_error {e : UploadError} (hopen : d.HasHandle)
    (hwait : d.next s buffer.unread false = .wait) (pieces : List Bytes)
    (h : (d.feedAll s buffer pieces).result = .error e) :
    (d.finish s (buffer.push pieces.flatten)).result = .error e := by
  have hd := hasFailed_of_next_wait hwait
  obtain ⟨hfed, -⟩ := feedAll_agrees_process hopen hwait pieces
  have hproc := hfed.result.symm.trans h
  have hall := pass_push_agrees_of_error hd hopen hproc [] true
  rw [InputBuffer.push_nil] at hall
  rw [finish, hall.result.trans hproc]

theorem decoder_of_feedAll_error {e : UploadError} (hopen : d.HasHandle)
    (hwait : d.next s buffer.unread false = .wait) (pieces : List Bytes)
    (h : (d.feedAll s buffer pieces).result = .error e) :
    ∃ d₀ : Decoder, (d.feedAll s buffer pieces).decoder = d₀.fail := by
  have hd := hasFailed_of_next_wait hwait
  have hfed := (feedAll_agrees_process hopen hwait pieces).1
  rw [hfed.result, process, result_pass hd] at h
  exact ⟨_, hfed.decoder.trans (pass_of_error hd h).2.1⟩

/-- What is fed first finishes with a form exactly if it does at once. -/
theorem finish_feedAll_eq_ok_iff {form : Form} (hopen : d.HasHandle)
    (hwait : d.next s buffer.unread false = .wait) (pieces : List Bytes) :
    ((d.feedAll s buffer pieces).decoder.finish (d.feedAll s buffer pieces).storage
        (d.feedAll s buffer pieces).buffer).result = .ok form ↔
      (d.finish s (buffer.push pieces.flatten)).result = .ok form := by
  cases hres : (d.feedAll s buffer pieces).result with
  | ok progress => rw [(finish_agrees_feedAll hopen hwait pieces hres).result]
  | error e =>
    obtain ⟨d₀, hfail⟩ := decoder_of_feedAll_error hopen hwait pieces hres
    have hfailed : (d₀.fail.pass (d.feedAll s buffer pieces).storage
        (d.feedAll s buffer pieces).buffer true).result = .error (.protocol .alreadyFailed) := rfl
    rw [hfail, finish_of_error hfailed, finish_of_feedAll_error hopen hwait pieces hres]
    exact iff_of_false (fun h => by cases h) (fun h => by cases h)

theorem result_pass_of_finish {form : Form} (h : (d.finish s buffer).result = .ok form) :
    (d.pass s buffer true).result = .ok .complete := by
  cases hres : (d.pass s buffer true).result with
  | error e =>
    rw [finish_of_error hres] at h
    cases h
  | ok progress =>
    cases progress with
    | complete => rfl
    | needsMore =>
      rw [finish_of_needsMore hres] at h
      cases h

/-- A decoder that can be turned into its form can finish with it, too. -/
theorem finish_of_intoForm {form : Form} (h : (d.intoForm s).1 = .ok form)
    (buffer : InputBuffer) : (d.finish s buffer).result = .ok form := by
  have hstage : d.stage = .ended := by
    by_contra hne
    rw [intoForm_of_ne hne] at h
    cases h
  obtain ⟨hres, hdec, -⟩ := pass_of_ended hstage s buffer true
  rw [intoForm, hstage] at h
  rw [finish_of_complete hres, hdec]
  exact h

/-! ## New decoders -/

theorem new_of_ne {token : String} (settings : Settings) (h : token ≠ "") :
    new token settings =
      .ok ⟨settings, Delimiter.ofToken token, .boundaryLine, .forFolder settings.uploadDir⟩ :=
  if_neg h

theorem eq_of_new {token : String} {settings : Settings} (hnew : new token settings = .ok d) :
    d = ⟨settings, Delimiter.ofToken token, .boundaryLine, .forFolder settings.uploadDir⟩ := by
  rw [new] at hnew
  split at hnew <;> cases hnew
  rfl

theorem hasHandle_new {token : String} {settings : Settings}
    (hnew : new token settings = .ok d) : d.HasHandle := by
  rw [eq_of_new hnew]
  exact FilePart.hasHandle_none

theorem next_new {token : String} {settings : Settings} (hnew : new token settings = .ok d) :
    d.next s [] false = .wait := by
  rw [eq_of_new hnew]
  rfl

end Decoder

end Multipart

import Multipart.Proofs.Buffering
import Multipart.Proofs.ChunkInvariance
import Multipart.Proofs.Completion
import Multipart.Proofs.Decoding
import Multipart.Proofs.Finality
import Multipart.Proofs.ReadSize

/-!
# What a reader delivers

A reader delivers pieces of a body, and then the body ends or a read fails
(`BodyReader.deliver`). Decoding a body is feeding a decoder with these pieces and
doing what the ending asks for (`Decoder.decodeFrom_eq`), so how the bytes are cut
into reads makes no difference, and neither does how much a read asks for.

A read only happens while more is needed: all that was delivered until then has
been fed and asked for more (`Decoder.Pumps.delivered`). The main statement is
`Decoder.decodeBody_delivered`.
-/

namespace Multipart

/-! ## Deliveries -/

/-- The pieces that reads yield one after the other, and the error that the last
read fails with, if the body does not end there. -/
structure Delivery where
  pieces : List Bytes
  error? : Option IoError

def Delivery.bytes (v : Delivery) : Bytes := v.pieces.flatten

namespace BodyReader

/-- What a reader delivers to reads of this size. -/
def deliver (r : BodyReader) (wanted : Nat) : Delivery :=
  match r.error? with
  | some cause => ⟨[], some cause⟩
  | none =>
    if r.yield wanted = 0 then ⟨[], none⟩
    else
      let later := (r.after wanted).deliver wanted
      ⟨r.piece wanted :: later.pieces, later.error?⟩
termination_by r.unread.length
decreasing_by
  have := r.yield_le wanted
  simp only [after, List.length_drop]
  omega

variable {r : BodyReader} {wanted : Nat}

theorem deliver_of_error {cause : IoError} (h : r.error? = some cause) :
    r.deliver wanted = ⟨[], some cause⟩ := by
  rw [deliver, h]

theorem deliver_of_end (h : r.error? = none) (hend : r.yield wanted = 0) :
    r.deliver wanted = ⟨[], none⟩ := by
  rw [deliver]
  simp only [h, hend, if_true]

theorem deliver_of_piece (h : r.error? = none) (hmore : r.yield wanted ≠ 0) :
    r.deliver wanted = ⟨r.piece wanted :: ((r.after wanted).deliver wanted).pieces,
      ((r.after wanted).deliver wanted).error?⟩ := by
  conv => lhs; rw [deliver]
  simp only [h, if_neg hmore]

/-- A read yields something wherever it is asked for something and there is
something. -/
def Steady (r : BodyReader) : Prop := ∀ offset, r.burst offset ≠ some 0

theorem steady_ofBytes {body : Bytes} {burst : Option Nat} {failure : Option ReadFailure}
    (h : burst ≠ some 0) : (ofBytes body burst failure).Steady :=
  fun _ => h

theorem yield_ne_zero (h : r.Steady) (hwanted : 0 < wanted) (hunread : r.unread ≠ []) :
    r.yield wanted ≠ 0 := by
  have hpos := List.length_pos_iff.mpr hunread
  have hburst := h r.taken
  rw [yield]
  cases hmost : r.burst r.taken with
  | none =>
    rw [Option.getD_none]
    omega
  | some most =>
    have hne : most ≠ 0 := fun hzero => hburst (hmost.trans (congrArg some hzero))
    rw [Option.getD_some]
    omega

/-- What a steady reader delivers before the body ends is all there is. -/
theorem bytes_deliver_of_steady (h : r.Steady) (hwanted : 0 < wanted)
    (hend : (r.deliver wanted).error? = none) : (r.deliver wanted).bytes = r.unread := by
  fun_induction deliver r wanted with
  | case1 => cases hend
  | case2 r _ hyield =>
    by_contra hunread
    exact yield_ne_zero h hwanted (Ne.symm hunread) hyield
  | case3 r _ _ later ih =>
    rw [Delivery.bytes, List.flatten_cons, ← List.take_append_drop (r.yield wanted) r.unread]
    exact congrArg _ (ih h hend)

end BodyReader

/-- What a decoder makes of a body that it was fed, given how the body ends. -/
def Outcome.decoded (fed : Outcome Progress) (error? : Option IoError) :
    Except UploadError Form × Storage :=
  match fed.result with
  | .error e => (.error e, fed.decoder.release fed.storage)
  | .ok .complete => fed.decoder.intoForm fed.storage
  | .ok .needsMore =>
    match error? with
    | some cause => (.error (.resource .readBody cause), fed.decoder.release fed.storage)
    | none =>
      let o := fed.decoder.finish fed.storage fed.buffer
      match o.result with
      | .ok form => (.ok form, o.storage)
      | .error e => (.error e, o.decoder.release o.storage)

namespace Outcome

variable {fed fed' : Outcome Progress}

theorem decoded_of_error {e : UploadError} (h : fed.result = .error e) (error? : Option IoError) :
    fed.decoded error? = (.error e, fed.decoder.release fed.storage) := by
  simp only [decoded, h]

theorem decoded_of_complete (h : fed.result = .ok .complete) (error? : Option IoError) :
    fed.decoded error? = fed.decoder.intoForm fed.storage := by
  simp only [decoded, h]

theorem decoded_of_failure (h : fed.result = .ok .needsMore) (cause : IoError) :
    fed.decoded (some cause) =
      (.error (.resource .readBody cause), fed.decoder.release fed.storage) := by
  simp only [decoded, h]

/-- Where the body ends, the decoder is finished. -/
theorem decoded_of_end (h : fed.result = .ok .needsMore) :
    let done := fed.decoder.finish fed.storage fed.buffer
    (fed.decoded none).1 = done.result ∧
      ∀ form, done.result = .ok form → (fed.decoded none).2 = done.storage := by
  intro done
  simp only [decoded, h]
  cases hres : (fed.decoder.finish fed.storage fed.buffer).result with
  | ok form => exact ⟨rfl, fun _ _ => rfl⟩
  | error e =>
    refine ⟨rfl, ?_⟩
    rintro form ⟨⟩

/-- Decoders that were fed the same come to the same, whatever their pieces were. -/
theorem Agrees.decoded (h : fed.Agrees fed')
    (hunread : fed.result = .ok .needsMore → fed.buffer.unread = fed'.buffer.unread)
    (error? : Option IoError) :
    (fed.decoded error?).1 = (fed'.decoded error?).1 ∧
      ∀ form, (fed.decoded error?).1 = .ok form →
        (fed.decoded error?).2 = (fed'.decoded error?).2 := by
  cases hres : fed.result with
  | error e =>
    rw [decoded_of_error hres, decoded_of_error (h.result.symm.trans hres)]
    exact ⟨rfl, nofun⟩
  | ok progress =>
    have hres' := h.result.symm.trans hres
    have hdecoder := h.decoder
    have hstorage := h.storage _ hres
    cases progress with
    | complete =>
      rw [decoded_of_complete hres, decoded_of_complete hres', hdecoder, hstorage]
      exact ⟨rfl, fun _ _ => rfl⟩
    | needsMore =>
      cases error? with
      | some cause =>
        rw [decoded_of_failure hres, decoded_of_failure hres']
        exact ⟨rfl, nofun⟩
      | none =>
        have hdone : (fed.decoder.finish fed.storage fed.buffer).Agrees
            (fed.decoder.finish fed.storage fed'.buffer) :=
          Decoder.finish_agrees_of_unread (hunread hres)
        obtain ⟨hresult, hkept⟩ := decoded_of_end hres
        obtain ⟨hresult', hkept'⟩ := decoded_of_end hres'
        rw [← hdecoder, ← hstorage] at hresult' hkept'
        refine ⟨hresult.trans (hdone.result.trans hresult'.symm), fun form hform => ?_⟩
        have hform' := hresult.symm.trans hform
        rw [hkept form hform', hdone.storage form hform']
        exact (hkept' form (hdone.result.symm.trans hform')).symm

end Outcome

namespace Decoder

variable {d d' : Decoder} {s s' : Storage} {buffer buffer' : InputBuffer} {r r' : BodyReader}
  {token : String} {settings : Settings}

/-- Decoding is feeding what is delivered, and what the ending asks for. -/
theorem decodeFrom_eq (d : Decoder) (s : Storage) (buffer : InputBuffer) (r : BodyReader) :
    ((d.decodeFrom s buffer r).result, (d.decodeFrom s buffer r).storage) =
      (d.feedAll s buffer (r.deliver d.settings.readChunkSize).pieces).decoded
        (r.deliver d.settings.readChunkSize).error? := by
  fun_induction decodeFrom d s buffer r with
  | case1 d s buffer r cause herror =>
    rw [BodyReader.deliver_of_error herror]
    rfl
  | case2 d s buffer r hread hend o form hres =>
    have hmore : (d.feedAll s buffer []).result = .ok .needsMore := rfl
    obtain ⟨hresult, hstorage⟩ := Outcome.decoded_of_end hmore
    rw [BodyReader.deliver_of_end hread hend]
    exact Prod.ext (hresult.trans hres).symm (hstorage form hres).symm
  | case3 d s buffer r hread hend o e hres =>
    rw [BodyReader.deliver_of_end hread hend]
    simp only [feedAll, Outcome.decoded]
    rw [show (d.finish s buffer).result = .error e from hres]
  | case4 d s buffer r hread hmore o r' e hres =>
    rw [BodyReader.deliver_of_piece hread hmore, feedAll_cons_of_ne (by rw [hres]; simp)]
    exact (Outcome.decoded_of_error hres _).symm
  | case5 d s buffer r hread hmore o r' hres result storage hform =>
    rw [BodyReader.deliver_of_piece hread hmore, feedAll_cons_of_ne (by rw [hres]; simp),
      Outcome.decoded_of_complete hres]
    exact hform.symm
  | case6 d s buffer r hread hmore o r' hres ih =>
    have hsettings : o.decoder.settings = d.settings := (process_of_needsMore hres).1.settings
    rw [BodyReader.deliver_of_piece hread hmore, feedAll_cons hres]
    rw [hsettings] at ih
    exact ih

/-! ## The same bytes -/

theorem decodeBody_eq (hnew : new token settings = .ok d) {pieces : List Bytes}
    (hpieces : pieces.flatten = (r.deliver settings.readChunkSize).bytes) :
    let decoded := (d.feedAll s .empty pieces).decoded (r.deliver settings.readChunkSize).error?
    (d.decodeBody s r).result = decoded.1 ∧
      ∀ form, (d.decodeBody s r).result = .ok form → (d.decodeBody s r).storage = decoded.2 := by
  have hsettings : d.settings = settings := by rw [eq_of_new hnew]
  intro decoded
  have hall := decodeFrom_eq d s .empty r
  rw [hsettings] at hall
  obtain ⟨hsame, hunread⟩ := feedAll_agrees (s := s) hnew hpieces.symm
  have hdecoded := hsame.decoded hunread (r.deliver settings.readChunkSize).error?
  rw [← hall] at hdecoded
  exact hdecoded

end Decoder

end Multipart

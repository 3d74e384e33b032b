import Multipart.Proofs.Parallel

/-!
# Chunk invariance

How a body is cut into pieces makes no difference to a new decoder, and
neither do the names its temp files get: two decoders that are fed the
same bytes come to the same, up to those names, if the same file numbers
can be opened for both (`Decoder.feedAll_twin`). What one of them finishes
with is what a decoder finishes with that gets all bytes at once.
-/

namespace Multipart

/-- Feedings that come to the same up to the names of temp files. What was
not used up counts while more is needed. -/
structure Outcome.Twin (o o' : Origin) (x x' : Outcome Progress) : Prop where
  result : Answer.Twin o o' Eq x.result x'.result
  decoder : x.decoder.Twin o o' x'.decoder
  disk : x.storage.disk.Twin o o' x'.storage.disk
  unread : x.result = .ok .needsMore → x.buffer.unread = x'.buffer.unread

theorem Storage.Keeps.disk_twin {o o' : Origin} {s s' : Storage} {asked asked' : Nat}
    {held : Nat → Option Bytes} (h : s.Keeps o o.disk.fileAt? asked held)
    (h' : s'.Keeps o' o'.disk.fileAt? asked' held) (hfresh : o.Fresh) (hfresh' : o'.Fresh) :
    s.disk.Twin o o' s'.disk where
  numbered k := (h.read?_path hfresh k).trans (h'.read?_path hfresh' k).symm
  unchanged l hl := h.elsewhere l fun k _ => hl k
  unchanged' l hl := h'.elsewhere l fun k _ => hl k

namespace Decoder

variable {token : String} {settings : Settings} {d : Decoder} {s s' : Storage}

/-- What is fed in different pieces comes to the same if the bytes are. -/
theorem feedAll_agrees (hnew : new token settings = .ok d) {pieces pieces' : List Bytes}
    (hsame : pieces.flatten = pieces'.flatten) :
    (d.feedAll s .empty pieces).Agrees (d.feedAll s .empty pieces') ∧
      ((d.feedAll s .empty pieces).result = .ok .needsMore →
        (d.feedAll s .empty pieces).buffer.unread =
          (d.feedAll s .empty pieces').buffer.unread) := by
  have hopen := hasHandle_new hnew
  have hwait : d.next s InputBuffer.empty.unread false = .wait := next_new hnew
  obtain ⟨h, hunread⟩ := feedAll_agrees_process hopen hwait pieces
  obtain ⟨h', hunread'⟩ := feedAll_agrees_process hopen hwait pieces'
  rw [← hsame] at h' hunread'
  refine ⟨h.trans h'.symm, fun hmore => (hunread hmore).trans (hunread' ?_).symm⟩
  exact (h'.result.trans h.result.symm).trans hmore

/-- On the same storage, what the pieces are makes no difference to the files
that are kept. -/
theorem feedAll_keeps (hnew : new token settings = .ok d) (hfresh : (settings.origin s).Fresh)
    {pieces pieces' : List Bytes} (hsame : pieces.flatten = pieces'.flatten) {c : Ledger}
    (h : (d.feedAll s .empty pieces).decoder.Owns (settings.origin s) s.disk.fileAt? c
      (d.feedAll s .empty pieces).storage) :
    ∃ asked, (d.feedAll s .empty pieces').storage.Keeps (settings.origin s) s.disk.fileAt? asked
      c.held := by
  obtain ⟨hagrees, -⟩ := feedAll_agrees (s := s) hnew hsame
  cases hres : (d.feedAll s .empty pieces).result with
  | ok progress =>
    rw [← hagrees.storage progress hres]
    exact ⟨c.asked, h.covers.keeps⟩
  | error e =>
    -- Neither has kept anything.
    have hpar : d.Parallel (settings.origin s) (settings.origin s) s.disk.fileAt? s.disk.fileAt?
        .start s d s := parallel_new hnew hfresh hfresh
    obtain ⟨c', hfed⟩ := feedAll_parallel (.refl _) pieces' hpar
      (rfl : InputBuffer.empty.unread = InputBuffer.empty.unread)
    have hown := hfed.after.owns
    obtain ⟨d₀, hfail⟩ := decoder_of_feedAll_error (hasHandle_new hnew) (next_new hnew) pieces hres
    rw [hfail] at h
    rw [← hagrees.decoder, hfail] at hown
    have hnone : c.held = c'.held := by
      funext k
      rw [h.covers.held_eq_none k, hown.covers.held_eq_none k]
    rw [hnone]
    exact ⟨c'.asked, hown.covers.keeps⟩

/-- Chunk invariance. -/
theorem feedAll_twin (hnew : new token settings = .ok d)
    (hfresh : (settings.origin s).Fresh) (hfresh' : (settings.origin s').Fresh)
    (halike : (settings.origin s).Alike (settings.origin s'))
    (pieces pieces' : List Bytes) (hsame : pieces.flatten = pieces'.flatten) :
    let o := settings.origin s
    let o' := settings.origin s'
    let fed := d.feedAll s .empty pieces
    let fed' := d.feedAll s' .empty pieces'
    let after := fed.decoder.finish fed.storage fed.buffer
    let once := d.finish s' (InputBuffer.empty.push pieces.flatten)
    fed.Twin o o' fed' ∧
      (∀ e, fed.result = .error e → ∃ e', once.result = .error e' ∧ e.Twin o o' e') ∧
      (∀ progress, fed.result = .ok progress →
        Answer.Twin o o' (Form.Twin o o') after.result once.result ∧
        ∀ form, after.result = .ok form → after.storage.disk.Twin o o' once.storage.disk) := by
  intro o o' fed fed' after once
  have hopen := hasHandle_new hnew
  have hwait : d.next s' InputBuffer.empty.unread false = .wait := next_new hnew
  -- The first pieces, with the names of the second storage.
  let fed₁ := d.feedAll s' .empty pieces
  obtain ⟨c, hfed⟩ := feedAll_parallel halike pieces (parallel_new hnew hfresh hfresh')
    (rfl : InputBuffer.empty.unread = InputBuffer.empty.unread)
  obtain ⟨hagrees, hunread⟩ := feedAll_agrees (s := s') hnew hsame
  refine ⟨⟨?_, ?_, ?_, ?_⟩, ?_, ?_⟩
  · exact hagrees.result ▸ hfed.result
  · exact hagrees.decoder ▸ hfed.after.twin
  · obtain ⟨asked, hkeeps⟩ := feedAll_keeps hnew hfresh' hsame hfed.after.owns'
    exact hfed.after.owns.covers.keeps.disk_twin hkeeps hfresh hfresh'
  · intro hmore
    refine hfed.unread.trans (hunread ?_)
    rcases hfed.result.elim with ⟨progress, progress', hres, hres', rfl⟩ | ⟨e, e', hres, -⟩
    · exact hres'.trans (hres.symm.trans hmore)
    · rw [show fed.result = .error e from hres] at hmore
      cases hmore
  · intro e he
    rcases hfed.result.elim with ⟨progress, -, hres, -⟩ | ⟨e₀, e', hres, hres', htwin⟩
    · rw [show fed.result = .ok progress from hres] at he
      cases he
    · obtain rfl : e₀ = e := Except.error.inj (hres.symm.trans he)
      exact ⟨e', finish_of_feedAll_error hopen hwait pieces hres', htwin⟩
  · intro progress hok
    have hok₁ : fed₁.result = .ok progress := by
      rcases hfed.result.elim with ⟨progress₀, progress', hres, hres', rfl⟩ | ⟨e, -, hres, -⟩
      · exact hres'.trans (hres.symm.trans hok)
      · rw [show fed.result = .error e from hres] at hok
        cases hok
    have honce := finish_agrees_feedAll hopen hwait pieces hok₁
    obtain ⟨c', hresult, hkeeps, hkeeps'⟩ := finish_parallel halike hfed.after hfed.unread
    refine ⟨honce.result ▸ hresult, ?_⟩
    intro form hform
    rcases hresult.elim with ⟨-, form', -, hres', -⟩ | ⟨e, -, hres, -⟩
    · have hstorage : once.storage = (fed₁.decoder.finish fed₁.storage fed₁.buffer).storage :=
        honce.storage form' (honce.result.trans hres')
      rw [hstorage]
      exact hkeeps.disk_twin hkeeps' hfresh hfresh'
    · rw [show after.result = .error e from hres] at hform
      cases hform

/-- Two processes that fill the same folder, one of them byte by byte. -/
theorem feedAll_twin_of_processes :
    let s : Storage := ⟨.ofFolders [["tmp"]], ⟨1, 0, 0⟩⟩
    let s' : Storage := ⟨.ofFolders [["tmp"]], ⟨2, 0, 0⟩⟩
    let body := Text.toBytes
      "--B\r\nContent-Disposition: form-data; name=a; filename=f\r\n\r\nx\r\n--B--"
    ∃ d, new "B" .standard = .ok d ∧
      (d.feedAll s .empty [body]).Twin (Settings.standard.origin s) (Settings.standard.origin s')
        (d.feedAll s' .empty (body.map fun b => [b])) := by
  intro s s' body
  have hnew := new_of_ne .standard (show "B" ≠ "" by decide)
  have halike : (Settings.standard.origin s).Alike (Settings.standard.origin s') :=
    Settings.standard.alike_of_processes 1 2 (by decide)
  have hfresh : (Settings.standard.origin s).Fresh := fun _ _ _ => rfl
  have hfresh' : (Settings.standard.origin s').Fresh := fun _ _ _ => rfl
  have hsame : [body].flatten = (body.map fun b => [b]).flatten := by
    rw [← List.flatMap_def, List.flatMap_singleton', List.flatten_singleton]
  exact ⟨_, hnew, (feedAll_twin hnew hfresh hfresh' halike _ _ hsame).1⟩

end Decoder

end Multipart

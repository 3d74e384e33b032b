import Multipart.Decoder.Step
import Multipart.InputBuffer

/-!
# Running a decoder

`run` takes steps until one of them waits, finishes or fails. A pass over
the input buffer is a run, after which the buffer lets go of what was
used up; an error ends the decoder for good and removes its files. The
operations of a decoder are passes: `process` while the body arrives,
`finish` when it has ended.
-/

namespace Multipart

/-- What a run of steps comes to: why it stopped, what it left, and how
many bytes it used up. -/
structure Run where
  result : Except UploadError Progress
  decoder : Decoder
  storage : Storage
  used : Nat

structure Outcome (α : Type) where
  result : Except UploadError α
  decoder : Decoder
  storage : Storage
  buffer : InputBuffer

namespace Decoder

/-- Takes steps until no further one is possible. -/
def run (d : Decoder) (s : Storage) (window : Bytes) (atEnd : Bool) : Run :=
  match d.nextFitting s window atEnd with
  | ⟨.wait, _⟩ => ⟨.ok .needsMore, d, s, 0⟩
  | ⟨.finished, _⟩ => ⟨.ok .complete, d, s, 0⟩
  | ⟨.fail e d s, _⟩ => ⟨.error e, d, s, 0⟩
  | ⟨.advance n d' s', _fits⟩ =>
    let rest := d'.run s' (window.drop n) atEnd
    { rest with used := n + rest.used }
termination_by (window.length, d.rank)
decreasing_by
  obtain ⟨le, down⟩ := _fits
  rcases Nat.eq_zero_or_pos n with zero | positive
  · subst zero
    exact Prod.Lex.right _ (down rfl)
  · apply Prod.Lex.left
    rw [List.length_drop]
    omega

/-! ## What each move makes of a run -/

theorem run_of_wait {d : Decoder} {s : Storage} {window : Bytes} {atEnd : Bool}
    (h : d.next s window atEnd = .wait) : d.run s window atEnd = ⟨.ok .needsMore, d, s, 0⟩ := by
  have fitting : d.nextFitting s window atEnd = ⟨.wait, trivial⟩ := Subtype.ext h
  rw [run, fitting]

theorem run_of_finished {d : Decoder} {s : Storage} {window : Bytes} {atEnd : Bool}
    (h : d.next s window atEnd = .finished) : d.run s window atEnd = ⟨.ok .complete, d, s, 0⟩ := by
  have fitting : d.nextFitting s window atEnd = ⟨.finished, trivial⟩ := Subtype.ext h
  rw [run, fitting]

theorem run_of_fail {d d' : Decoder} {s s' : Storage} {window : Bytes} {atEnd : Bool}
    {e : UploadError} (h : d.next s window atEnd = .fail e d' s') :
    d.run s window atEnd = ⟨.error e, d', s', 0⟩ := by
  have fitting : d.nextFitting s window atEnd = ⟨.fail e d' s', trivial⟩ := Subtype.ext h
  rw [run, fitting]

/-- After a step that used up bytes, the run is the run on the rest. -/
theorem run_of_advance {d d' : Decoder} {s s' : Storage} {window : Bytes} {atEnd : Bool} {n : Nat}
    (h : d.next s window atEnd = .advance n d' s') :
    d.run s window atEnd =
      { d'.run s' (window.drop n) atEnd with
        used := n + (d'.run s' (window.drop n) atEnd).used } := by
  have fitting : d.nextFitting s window atEnd = ⟨.advance n d' s', next_advance h⟩ :=
    Subtype.ext h
  rw [run, fitting]

/-- To show something of every run, show it of a step from what holds of
the run after it. -/
theorem run_induction (atEnd : Bool) {motive : Decoder → Storage → Bytes → Prop}
    (step : ∀ d s window,
      (∀ n d' s', d.next s window atEnd = .advance n d' s' → motive d' s' (window.drop n)) →
      motive d s window)
    (d : Decoder) (s : Storage) (window : Bytes) : motive d s window := by
  have plain {d : Decoder} {s : Storage} {window : Bytes} {move : Move} {fits}
      (h : d.nextFitting s window atEnd = ⟨move, fits⟩) : d.next s window atEnd = move :=
    congrArg Subtype.val h
  induction d, s, window using run.induct atEnd with
  | case1 d s window _ h =>
    exact step d s window fun n d' s' h' => by rw [plain h] at h'; cases h'
  | case2 d s window _ h =>
    exact step d s window fun n d' s' h' => by rw [plain h] at h'; cases h'
  | case3 d s window _ _ _ _ h =>
    exact step d s window fun n d' s' h' => by rw [plain h] at h'; cases h'
  | case4 d s window n d' s' _ h ih =>
    exact step d s window fun _ _ _ h' => by rw [plain h] at h'; cases h'; exact ih

/-- A run uses up no more than there is. -/
theorem used_run_le (d : Decoder) (s : Storage) (window : Bytes) (atEnd : Bool) :
    (d.run s window atEnd).used ≤ window.length := by
  induction d, s, window using run_induction atEnd with
  | step d s window ih =>
    cases h : d.next s window atEnd with
    | wait => simp [run_of_wait h]
    | finished => simp [run_of_finished h]
    | fail => simp [run_of_fail h]
    | advance n d' s' =>
      have le := ih n d' s' h
      have fits := (next_advance h).1
      rw [List.length_drop] at le
      simp only [run_of_advance h]
      omega

/-! ## Passes -/

def abort (d : Decoder) (s : Storage) : Decoder × Storage := (d.fail, d.release s)

/-- Runs over the unread bytes of a buffer. A decoder that has failed does
not even touch the buffer. -/
def pass (d : Decoder) (s : Storage) (buffer : InputBuffer) (atEnd : Bool) : Outcome Progress :=
  if d.stage.hasFailed then ⟨.error (.protocol .alreadyFailed), d, s, buffer⟩
  else
    let r := d.run s buffer.unread atEnd
    let left := (buffer.advance r.used (d.used_run_le s buffer.unread atEnd)).compact
    match r.result with
    | .ok progress => ⟨.ok progress, r.decoder, r.storage, left⟩
    | .error e =>
      let (decoder, storage) := r.decoder.abort r.storage
      ⟨.error e, decoder, storage, left⟩

def process (d : Decoder) (s : Storage) (buffer : InputBuffer) : Outcome Progress :=
  d.pass s buffer false

/-- Appends bytes to the buffer and decodes what is there. -/
def feed (d : Decoder) (s : Storage) (buffer : InputBuffer) (bytes : Bytes) : Outcome Progress :=
  d.process s (buffer.push bytes)

/-- Feeds pieces one after the other, up to the first that completes the
body or fails. -/
def feedAll (d : Decoder) (s : Storage) (buffer : InputBuffer) : List Bytes → Outcome Progress
  | [] => ⟨.ok .needsMore, d, s, buffer⟩
  | piece :: pieces =>
    let o := d.feed s buffer piece
    match o.result with
    | .ok .needsMore => o.decoder.feedAll o.storage o.buffer pieces
    | _ => o

/-- Decodes what is left once the body has ended, and hands the form over.
The closing boundary must have been seen. -/
def finish (d : Decoder) (s : Storage) (buffer : InputBuffer) : Outcome Form :=
  let o := d.pass s buffer true
  match o.result with
  | .error e => ⟨.error e, o.decoder, o.storage, o.buffer⟩
  | .ok .complete => ⟨.ok o.decoder.form, { o.decoder with form := .empty }, o.storage, o.buffer⟩
  | .ok .needsMore =>
    let (decoder, storage) := o.decoder.abort o.storage
    ⟨.error (.protocol .unexpectedEnd), decoder, storage, o.buffer⟩

/-- Gives the decoder up for its form. Before the closing boundary there
is none to give, and the decoder's files go. -/
def intoForm (d : Decoder) (s : Storage) : Except UploadError Form × Storage :=
  match d.stage with
  | .ended => (.ok d.form, s)
  | _ => (.error (.protocol .incompleteUpload), d.release s)

end Decoder

end Multipart

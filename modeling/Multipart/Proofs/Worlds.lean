import Multipart.Proofs.Finality
import Multipart.Proofs.Renaming

/-!
# Sessions side by side

A slot is the place of one session: its decoder, as long as there is one,
the buffer in which its body arrives, and the answers that it has given.
A world has any number of slots, which share one storage, and in which one
after the other acts (`World.step`). A slot on its own acts on a storage
that nobody else touches (`Slot.run`).

Two slots are the same up to paths if they gave the same answers, and have
the same decoder, up to the paths of temp files (`Slot.Renamed`).
-/

namespace Multipart

/-- What a session decodes: a body with this boundary token, under these
settings. -/
structure Upload where
  token : String
  settings : Settings

/-- What can be done with a session. -/
inductive Slot.Act where
  | new
  /-- More of the body arrives in the buffer. -/
  | push (bytes : Bytes)
  | process
  | finish
  | intoForm
  | drop

/-- What an act is answered with. -/
inductive Slot.Reply where
  | opened (result : Except UploadError Unit)
  | progress (result : Except UploadError Progress)
  | form (result : Except UploadError Form)

/-- A session before it is created, with its decoder, and after that is gone. -/
inductive Slot.State where
  | unused
  | active (decoder : Decoder)
  | gone

/-- The place of one session, with its answers so far. -/
structure Slot where
  state : Slot.State
  buffer : InputBuffer
  replies : List Slot.Reply

namespace Slot

/-- A slot before its session. -/
def unused : Slot := ⟨.unused, .empty, []⟩

def answer (x : Slot) (reply : Reply) : Slot := { x with replies := x.replies ++ [reply] }

/-- One act. A session is created once, and there is nothing to do with a
decoder that is not there. -/
def act (u : Upload) (x : Slot) (s : Storage) (a : Act) : Slot × Storage :=
  match x.state, a with
  | _, .push bytes => ({ x with buffer := x.buffer.push bytes }, s)
  | .unused, .new =>
    match Decoder.new u.token u.settings with
    | .ok d => (answer { x with state := .active d } (.opened (.ok ())), s)
    | .error e => (answer { x with state := .gone } (.opened (.error e)), s)
  | .active d, .process =>
    let o := d.process s x.buffer
    (answer { x with state := .active o.decoder, buffer := o.buffer } (.progress o.result),
      o.storage)
  | .active d, .finish =>
    let o := d.finish s x.buffer
    (answer { x with state := .active o.decoder, buffer := o.buffer } (.form o.result), o.storage)
  | .active d, .intoForm =>
    let (result, s) := d.intoForm s
    (answer { x with state := .gone } (.form result), s)
  | .active d, .drop => ({ x with state := .gone }, d.release s)
  | _, _ => (x, s)

/-- No act gives a name back. -/
theorem issued_le_act (u : Upload) (x : Slot) (s : Storage) (a : Act) :
    s.names.issued ≤ (x.act u s a).2.names.issued := by
  unfold act
  split
  · exact Nat.le_refl _
  · split <;> exact Nat.le_refl _
  · exact Decoder.issued_le_pass ..
  · rw [Decoder.names_finish]
    exact Decoder.issued_le_pass ..
  · rw [Decoder.names_intoForm]
  · rw [Decoder.names_release]
  · exact Nat.le_refl _

/-- The bytes that arrive with an act. -/
def Act.bytes : Act → Bytes
  | push bytes => bytes
  | _ => []

theorem issued_act_le (u : Upload) (x : Slot) (s : Storage) (a : Act) :
    (x.act u s a).2.names.issued ≤ s.names.issued + x.buffer.unread.length := by
  unfold act
  split
  · exact Nat.le_add_right ..
  · split <;> exact Nat.le_add_right ..
  · exact Decoder.issued_pass_le ..
  · rw [Decoder.names_finish]
    exact Decoder.issued_pass_le ..
  · rw [Decoder.names_intoForm]
    exact Nat.le_add_right ..
  · rw [Decoder.names_release]
    exact Nat.le_add_right ..
  · exact Nat.le_add_right ..

/-- What is unread after an act is the end of what was there and what came. -/
theorem unread_act_suffix (u : Upload) (x : Slot) (s : Storage) (a : Act) :
    (x.act u s a).1.buffer.unread <:+ x.buffer.unread ++ a.bytes := by
  have hkept {l : Bytes} (h : l <:+ x.buffer.unread) : l <:+ x.buffer.unread ++ [] := by
    rwa [List.append_nil]
  unfold act
  split
  · exact (InputBuffer.unread_push ..).symm ▸ List.suffix_rfl
  · split <;> exact hkept List.suffix_rfl
  · exact hkept (Decoder.unread_pass_suffix ..)
  · dsimp only [answer]
    rw [Decoder.buffer_finish]
    exact hkept (Decoder.unread_pass_suffix ..)
  · exact hkept List.suffix_rfl
  · exact hkept List.suffix_rfl
  · next a _ _ hpush _ _ _ _ _ =>
    have hnone : a.bytes = [] := by
      cases a with
      | push bytes => exact (hpush bytes rfl).elim
      | _ => rfl
    exact hnone ▸ hkept List.suffix_rfl

theorem unread_act_le (u : Upload) (x : Slot) (s : Storage) (a : Act) :
    (x.act u s a).1.buffer.unread.length ≤ x.buffer.unread.length + a.bytes.length :=
  (x.unread_act_suffix u s a).length_le.trans (Nat.le_of_eq List.length_append)

/-- Acts one after the other, with a storage that nobody else touches. -/
def run (u : Upload) (x : Slot) (s : Storage) (acts : List Act) : Slot × Storage :=
  acts.foldl (fun y a => y.1.act u y.2 a) (x, s)

/-! ## Files -/

/-- What the decoder of a slot has, if there is one. -/
def State.holdings (state : State) (s : Storage) : Holdings :=
  match state with
  | active d => d.holdings s
  | _ => ⟨none, .empty, s⟩

def Reply.form? : Reply → Option Form
  | .form (.ok given) => some given
  | _ => none

/-- The paths of the files in forms that were handed over. -/
def handedPaths (x : Slot) : List FilePath :=
  (x.replies.filterMap Reply.form?).flatMap fun form => form.files.values.map StoredFile.path

/-- The paths of all files that the slot owns or has handed over. -/
def paths (x : Slot) (s : Storage) : List FilePath := (x.state.holdings s).paths ++ x.handedPaths

/-! ## The same up to paths -/

variable (r : FilePath → FilePath → Prop)

inductive Reply.Renamed : Reply → Reply → Prop where
  | opened (result : Except UploadError Unit) : Renamed (.opened result) (.opened result)
  | progress {result result' : Except UploadError Progress}
      (h : Answer.Related (UploadError.Renamed r) Eq result result') :
      Renamed (.progress result) (.progress result')
  | form {result result' : Except UploadError Form}
      (h : Answer.Related (UploadError.Renamed r) (Form.Renamed r) result result') :
      Renamed (.form result) (.form result')

variable {r} in
theorem Reply.Renamed.mono {r' : FilePath → FilePath → Prop} (hr : ∀ p p', r p p' → r' p p')
    {reply reply' : Reply} (h : Reply.Renamed r reply reply') : Reply.Renamed r' reply reply' := by
  cases h with
  | opened result => exact .opened result
  | progress h =>
    cases h with
    | ok h => exact .progress (.ok h)
    | error h => exact .progress (.error (h.mono hr))
  | form h =>
    cases h with
    | ok h => exact .form (.ok (h.mono hr))
    | error h => exact .form (.error (h.mono hr))

/-- Sessions in one state, with related decoders. -/
inductive State.Related (R : Decoder → Decoder → Prop) : State → State → Prop where
  | unused : Related R .unused .unused
  | active {d d' : Decoder} (h : R d d') : Related R (.active d) (.active d')
  | gone : Related R .gone .gone

theorem State.Related.elim {R : Decoder → Decoder → Prop} {state state' : State}
    (h : state.Related R state') :
    (state = .unused ∧ state' = .unused) ∨
      (∃ d d', state = .active d ∧ state' = .active d' ∧ R d d') ∨
      state = .gone ∧ state' = .gone := by
  cases h with
  | unused => exact .inl ⟨rfl, rfl⟩
  | active h => exact .inr (.inl ⟨_, _, rfl, rfl, h⟩)
  | gone => exact .inr (.inr ⟨rfl, rfl⟩)

structure Renamed (x x' : Slot) : Prop where
  state : x.state.Related (Decoder.Renamed r) x'.state
  unread : x.buffer.unread = x'.buffer.unread
  replies : List.Forall₂ (Reply.Renamed r) x.replies x'.replies

end Slot

/-! ## Worlds -/

/-- Slots that share a storage. -/
structure World (ι : Type) where
  slots : ι → Slot
  storage : Storage

namespace World

variable {ι : Type}

def start (s : Storage) : World ι := ⟨fun _ => .unused, s⟩

variable [DecidableEq ι] (u : ι → Upload)

/-- One of the slots acts. -/
def step (w : World ι) (op : ι × Slot.Act) : World ι :=
  let after := (w.slots op.1).act (u op.1) w.storage op.2
  ⟨Function.update w.slots op.1 after.1, after.2⟩

theorem slots_step (w : World ι) (op : ι × Slot.Act) :
    (w.step u op).slots op.1 = ((w.slots op.1).act (u op.1) w.storage op.2).1 :=
  Function.update_self ..

theorem slots_step_of_ne (w : World ι) {op : ι × Slot.Act} {i : ι} (h : i ≠ op.1) :
    (w.step u op).slots i = w.slots i :=
  Function.update_of_ne h ..

def run (w : World ι) (ops : List (ι × Slot.Act)) : World ι := ops.foldl (step u) w

theorem run_append (w : World ι) (ops later : List (ι × Slot.Act)) :
    w.run u (ops ++ later) = (w.run u ops).run u later :=
  List.foldl_append

/-! ## Names that are used up -/

theorem issued_le_step (w : World ι) (op : ι × Slot.Act) :
    w.storage.names.issued ≤ (w.step u op).storage.names.issued :=
  Slot.issued_le_act ..

theorem issued_le_run (w : World ι) (ops : List (ι × Slot.Act)) :
    w.storage.names.issued ≤ (w.run u ops).storage.names.issued := by
  induction ops generalizing w with
  | nil => exact Nat.le_refl _
  | cons op ops ih => exact Nat.le_trans (issued_le_step u w op) (ih (w.step u op))

/-- The bytes of all bodies. -/
def bytes (ops : List (ι × Slot.Act)) : Bytes := ops.flatMap fun op => op.2.bytes

/-- Short bodies use up few names, whatever is in them. -/
theorem issued_run_le (w : World ι) (ops : List (ι × Slot.Act)) {most : Nat}
    (hmost : ∀ i, (w.slots i).buffer.unread.length + (bytes ops).length ≤ most) :
    (w.run u ops).storage.names.issued ≤ w.storage.names.issued + ops.length * most := by
  induction ops generalizing w with
  | nil => exact Nat.le_add_right ..
  | cons op ops ih =>
    simp only [bytes, List.flatMap_cons, List.length_append] at hmost ih
    have hissued := Slot.issued_act_le (u op.1) (w.slots op.1) w.storage op.2
    have hunread := Slot.unread_act_le (u op.1) (w.slots op.1) w.storage op.2
    have hrest := ih (w.step u op) fun i => by
      by_cases hi : i = op.1
      · subst hi
        have := hmost op.1
        rw [slots_step u]
        omega
      · have := hmost i
        rw [slots_step_of_ne u w hi]
        omega
    have hfirst : (w.step u op).storage.names.issued ≤ w.storage.names.issued + most := by
      have := hmost op.1
      exact Nat.le_trans hissued (by omega)
    rw [List.length_cons, Nat.succ_mul]
    exact Nat.le_trans hrest (by omega)

/-- What one of the slots does. -/
def actsOf (i : ι) (ops : List (ι × Slot.Act)) : List Slot.Act :=
  (ops.filter fun op => decide (op.1 = i)).map Prod.snd

/-- What a slot comes to on its own. -/
def alone (u : ι → Upload) (s : Storage) (ops : List (ι × Slot.Act)) (i : ι) : Slot × Storage :=
  Slot.run (u i) .unused s (actsOf i ops)

/-- The storage has room for these uploads: nothing lies where their temp files
will, no upload folder is reached through the name of a temp file, and in each
folder the names with counts up to `bound` are all opened, or all refused for
the same reason. The counter has 64 bits, so that no bound goes beyond
`2 ^ 64`. -/
structure Ready (s : Storage) (bound : Nat) : Prop where
  fresh : ∀ i, ((u i).settings.origin s).Fresh
  outside : ∀ i k,
    s.names.numbered k ∉ Disk.names (FilePath.withSlash (u i).settings.uploadDir)
  opens : ∀ i j k, s.names.issued + j < bound → s.names.issued + k < bound →
    (∃ l l', ((u i).settings.origin s).place j = .ok l ∧
      ((u i).settings.origin s).place k = .ok l') ∨
    ∃ cause, ((u i).settings.origin s).place j = .error cause ∧
      ((u i).settings.origin s).place k = .error cause

variable {u} {s : Storage}

omit [DecidableEq ι] in
/-- There is room where numbers have no more than twenty digits, folders no
overlong paths, and nothing bears the name of a temp file. -/
theorem ready_of_short (hprocess : s.names.process < 10 ^ 20)
    (hclock : ∀ k, s.names.clock.timeOf k < 10 ^ 20)
    (hfolder : ∀ i,
      (FilePath.withSlash (u i).settings.uploadDir).utf8ByteSize + 253 ≤ Disk.maxPathBytes)
    (hfolders : ∀ l ∈ s.disk.folders, ∀ k, l.names.getLast? ≠ some (s.names.numbered k))
    (hfiles : ∀ (l : Location) k, s.disk.fileAt? (l.child (s.names.numbered k)) = none)
    (houtside : ∀ i k,
      s.names.numbered k ∉ Disk.names (FilePath.withSlash (u i).settings.uploadDir)) :
    Ready u s (2 ^ 64) where
  fresh i k l hl := by
    obtain ⟨folder, rfl⟩ := Origin.place_child hl
    exact hfiles folder _
  outside := houtside
  opens i j k hj hk := by
    have hshort {m : Nat} (hm : s.names.issued + m < 2 ^ 64) :
        (s.names.numbered (s.names.issued + m + 1)).utf8ByteSize ≤ 253 :=
      NameSupply.utf8ByteSize_nameOf_le hprocess (hclock _) (by omega)
    have hname {m : Nat} (hm : s.names.issued + m < 2 ^ 64) :
        ¬(s.names.numbered (s.names.issued + m + 1)).utf8ByteSize > Disk.maxNameBytes :=
      Nat.not_lt.mpr (Nat.le_trans (hshort hm) (by decide))
    have hpath {m : Nat} (hm : s.names.issued + m < 2 ^ 64) :
        ¬(FilePath.withSlash (u i).settings.uploadDir ++
          s.names.numbered (s.names.issued + m + 1)).utf8ByteSize > Disk.maxPathBytes := by
      have := hshort hm
      have := hfolder i
      rw [String.utf8ByteSize_append]
      omega
    have hnameable (m : Nat) : s.disk.Nameable (s.names.numbered m) :=
      NameSupply.nameable_nameOf fun l hl => hfolders l hl m
    exact Disk.place_alike (hnameable _) (hnameable _) (iff_of_false (hname hj) (hname hk))
      (iff_of_false (hpath hj) (hpath hk))

end World

end Multipart

import Mathlib.Algebra.GroupWithZero.Nat
import Mathlib.Data.List.Basic
import Mathlib.Data.List.Induction
import Multipart.InputBuffer

/-!
# The history of an input buffer

Bytes are pushed into a buffer and used up, and the buffer is compacted, in any order and as
often as one likes. A `History` is what became of it so far, with the answer that each act
got. At every moment the unread bytes are those that were pushed, in order, without as many
at the front as were used up (`InputBuffer.InOrder`): a compaction moves the cursor and loses
nothing. An act that is refused leaves the buffer as it was.

A machine counts in words. A `WordBuffer` has a cursor of 64 bits, and before bytes are used
up, the amount is added to it. A sum that no word is, is refused in a build with overflow
checks, and wraps around in one without (`Overflow`). As long as the bytes that are held can
be counted, the history of the first is that of a buffer that counts without bounds, and so
is that of the second as long as no sum wraps around (`WordBuffer.counts_run`). A sum that
does lies in front of the cursor, so it passes the comparison with the bytes that are held:
the cursor moves back, and bytes that were used up are unread again
(`WordBuffer.Counts.consume_wrapped`).

The main statement is `InputBuffer.first_in_first_out`.
-/

namespace Multipart

namespace InputBuffer

/-! ## Histories -/

/-- What is asked of a buffer. Every word can be an amount. -/
inductive Act where
  | push (bytes : Bytes)
  | consume (amount : UInt64)
  | compact
  deriving DecidableEq, Repr

/-- The bytes that an act brings. -/
@[simp] def Act.bytes : Act → Bytes
  | push bytes => bytes
  | _ => []

/-- All bytes that are pushed, in order. -/
def pushed (acts : List Act) : Bytes := acts.flatMap Act.bytes

@[simp] theorem pushed_concat (acts : List Act) (a : Act) :
    pushed (acts ++ [a]) = pushed acts ++ a.bytes := by
  simp [pushed]

/-- A buffer in use, with every act so far and its answer. -/
structure History (α : Type) where
  buffer : α
  answers : List (Act × Except Fault Unit)

namespace History

variable {α : Type}

/-- The history after an act with this answer. -/
def record (h : History α) (buffer : α) (a : Act) (answer : Except Fault Unit) : History α :=
  ⟨buffer, h.answers ++ [(a, answer)]⟩

/-- One more act. One that is refused leaves the buffer as it was. -/
def next (act : α → Act → Except Fault α) (h : History α) (a : Act) : History α :=
  match act h.buffer a with
  | .ok buffer => h.record buffer a (.ok ())
  | .error fault => h.record h.buffer a (.error fault)

/-- The amount of a consumption that was not refused. -/
@[simp] def taken : Act × Except Fault Unit → Nat
  | (.consume amount, .ok _) => amount.toNat
  | _ => 0

/-- How many bytes were used up. -/
def consumed (h : History α) : Nat := (h.answers.map taken).sum

/-- How many of them since the last compaction. -/
def consumedSince (h : History α) : Nat :=
  ((h.answers.reverse.takeWhile (·.1 != .compact)).map taken).sum

variable {act : α → Act → Except Fault α} {h : History α} {a : Act} {buffer : α} {fault : Fault}
  {answer : Except Fault Unit}

theorem next_of_ok (hact : act h.buffer a = .ok buffer) :
    h.next act a = h.record buffer a (.ok ()) := by
  rw [next, hact]

theorem next_of_error (hact : act h.buffer a = .error fault) :
    h.next act a = h.record h.buffer a (.error fault) := by
  rw [next, hact]

theorem answers_next (act : α → Act → Except Fault α) (h : History α) (a : Act) :
    (h.next act a).answers = h.answers ++ [(a, (act h.buffer a).map fun _ => ())] := by
  rw [next]
  cases act h.buffer a <;> rfl

@[simp] theorem buffer_record : (h.record buffer a answer).buffer = buffer := rfl

@[simp] theorem answers_record :
    (h.record buffer a answer).answers = h.answers ++ [(a, answer)] := rfl

@[simp] theorem consumed_record :
    (h.record buffer a answer).consumed = h.consumed + taken (a, answer) := by
  simp [consumed]

/-- A compaction starts a new count. -/
@[simp] theorem consumedSince_record :
    (h.record buffer a answer).consumedSince =
      if a = .compact then 0 else h.consumedSince + taken (a, answer) := by
  rw [consumedSince, answers_record, List.reverse_concat, List.takeWhile_cons]
  by_cases hcompact : a = .compact
  · simp [hcompact]
  · simp [hcompact, consumedSince, Nat.add_comm]

end History

/-- Does what is asked, or refuses it. -/
def act (b : InputBuffer) : Act → Except Fault InputBuffer
  | .push bytes => .ok (b.push bytes)
  | .consume amount => b.consume amount.toNat
  | .compact => .ok b.compact

/-- What becomes of an empty buffer by these acts, one after the other. -/
def run (acts : List Act) : History InputBuffer := acts.foldl (History.next act) ⟨empty, []⟩

theorem run_concat (acts : List Act) (a : Act) : run (acts ++ [a]) = (run acts).next act a :=
  List.foldl_concat ..

/-! ## What one act does -/

variable {h : History InputBuffer}

theorem used_eq (b : InputBuffer) : b.used = b.unread.length + b.cursor := by
  rw [used, unread, List.length_drop, Nat.sub_add_cancel b.cursor_le]

theorem next_push (h : History InputBuffer) (bytes : Bytes) :
    h.next act (.push bytes) = h.record (h.buffer.push bytes) (.push bytes) (.ok ()) := rfl

theorem next_compact (h : History InputBuffer) :
    h.next act .compact = h.record h.buffer.compact .compact (.ok ()) := rfl

theorem next_consume {amount : UInt64} (hle : amount.toNat ≤ h.buffer.unread.length) :
    h.next act (.consume amount) =
      h.record (h.buffer.advance amount.toNat hle) (.consume amount) (.ok ()) :=
  History.next_of_ok (dif_pos hle)

theorem next_consume_of_lt {amount : UInt64} (hlt : h.buffer.unread.length < amount.toNat) :
    h.next act (.consume amount) =
      h.record h.buffer (.consume amount) (.error (h.buffer.refusal amount.toNat)) :=
  History.next_of_error (dif_neg (Nat.not_le.mpr hlt))

/-- The unread bytes are those that were pushed, without as many at the front as were used
up, and the cursor stands behind those that were used up since the last compaction. -/
structure InOrder (acts : List Act) (h : History InputBuffer) : Prop where
  unread_eq : h.buffer.unread = (pushed acts).drop h.consumed
  consumed_le : h.consumed ≤ (pushed acts).length
  cursor_eq : h.buffer.cursor = h.consumedSince

theorem InOrder.next {acts : List Act} (hin : InOrder acts h) (a : Act) :
    InOrder (acts ++ [a]) (h.next act a) := by
  obtain ⟨hunread, hle, hcursor⟩ := hin
  cases a with
  | push bytes =>
    rw [next_push]
    refine ⟨?_, ?_, by simpa [push] using hcursor⟩
    · simp [hunread, List.drop_append_of_le_length hle]
    · simpa using Nat.le_add_right_of_le hle
  | consume amount =>
    rcases Nat.lt_or_ge h.buffer.unread.length amount.toNat with hlt | hfits
    · rw [next_consume_of_lt hlt]
      exact ⟨by simpa using hunread, by simpa using hle, by simpa using hcursor⟩
    · rw [next_consume hfits]
      rw [hunread, List.length_drop] at hfits
      refine ⟨by simp [hunread], ?_, by simp [advance, hcursor]⟩
      simpa using (Nat.le_sub_iff_add_le' hle).mp hfits
  | compact =>
    rw [next_compact]
    exact ⟨by simpa using hunread, by simpa using hle, by simp [compact]⟩

/-- What is pushed is used up in order, whatever is done. -/
theorem inOrder_run (acts : List Act) : InOrder acts (run acts) := by
  induction acts using List.reverseRecOn with
  | nil => exact ⟨rfl, Nat.le_refl _, rfl⟩
  | append_singleton acts a ih =>
    rw [run_concat]
    exact ih.next a

theorem answers_run (acts : List Act) : (run acts).answers.map Prod.fst = acts := by
  induction acts using List.reverseRecOn with
  | nil => rfl
  | append_singleton acts a ih =>
    rw [run_concat, History.next]
    split <;> simp [ih]

theorem used_next_le (h : History InputBuffer) (a : Act) :
    (h.next act a).buffer.used ≤ h.buffer.used + a.bytes.length := by
  cases a with
  | push bytes => exact Nat.le_of_eq List.length_append
  | consume amount =>
    rcases Nat.lt_or_ge h.buffer.unread.length amount.toNat with hlt | hfits
    · rw [next_consume_of_lt hlt]
      exact Nat.le_refl _
    · rw [next_consume hfits]
      exact Nat.le_refl _
  | compact =>
    rw [next_compact, History.buffer_record, used_compact, used_eq h.buffer]
    exact Nat.le_add_right ..

/-- No more bytes are held than were pushed. -/
theorem used_run_le (acts : List Act) : (run acts).buffer.used ≤ (pushed acts).length := by
  induction acts using List.reverseRecOn with
  | nil => exact Nat.le_refl _
  | append_singleton acts a ih =>
    rw [run_concat, pushed_concat, List.length_append]
    exact Nat.le_trans (used_next_le _ a) (Nat.add_le_add_right ih _)

/-- The bytes that are held can be counted at every moment. -/
def Countable (acts : List Act) : Prop :=
  ∀ before, before <+: acts → (run before).buffer.used < UInt64.size

theorem countable_of_pushed {acts : List Act} (h : (pushed acts).length < UInt64.size) :
    Countable acts := by
  rintro before ⟨after, rfl⟩
  have hle := used_run_le before
  rw [pushed, List.flatMap_append, List.length_append] at h
  rw [pushed] at hle
  omega

theorem Countable.of_concat {acts : List Act} {a : Act} (h : Countable (acts ++ [a])) :
    Countable acts ∧ (run acts).buffer.used < UInt64.size :=
  ⟨fun _ hbefore => h _ (hbefore.trans (List.prefix_append ..)), h _ (List.prefix_append ..)⟩

/-- No amount that is asked for and the cursor have a sum that is too large for a word. -/
def Summable (acts : List Act) : Prop :=
  ∀ before amount, before ++ [.consume amount] <+: acts →
    (run before).buffer.cursor + amount.toNat < UInt64.size

theorem summable_nil : Summable [] :=
  fun before amount hbefore => absurd (List.prefix_nil.mp hbefore) (by simp)

theorem summable_concat {acts : List Act} {a : Act} :
    Summable (acts ++ [a]) ↔ Summable acts ∧
      ∀ amount, a = .consume amount → (run acts).buffer.cursor + amount.toNat < UInt64.size := by
  constructor
  · intro h
    refine ⟨fun before amount hbefore => h before amount (hbefore.trans (List.prefix_append ..)), ?_⟩
    rintro amount rfl
    exact h acts amount (List.prefix_refl _)
  · rintro ⟨hacts, hlast⟩ before amount hbefore
    rcases List.prefix_concat_iff.mp hbefore with hall | hfront
    · obtain ⟨rfl, hsame⟩ := List.append_inj' hall rfl
      exact hlast amount (List.cons.inj hsame).1.symm
    · exact hacts before amount hfront

end InputBuffer

/-! ## Counting in words -/

/-- What a build makes of a sum that no word is: it refuses it, or goes on with what is left
of it in a word. -/
inductive Overflow where
  | refused
  | wraps
  deriving DecidableEq, Repr

/-- A buffer whose cursor is a 64-bit word. -/
structure WordBuffer where
  held : Bytes
  cursor : UInt64

namespace WordBuffer

open InputBuffer (Act Fault History)

/-- The sum of two words. -/
def add (overflow : Overflow) (a b : UInt64) : Except Fault UInt64 :=
  match overflow with
  | .wraps => .ok (a + b)
  | .refused => if a.toNat + b.toNat < UInt64.size then .ok (a + b) else .error .countOverflow

theorem add_of_lt {a b : UInt64} (h : a.toNat + b.toNat < UInt64.size) (overflow : Overflow) :
    add overflow a b = .ok (a + b) := by
  cases overflow with
  | wraps => rfl
  | refused => exact if_pos h

def used (w : WordBuffer) : UInt64 := .ofNat w.held.length

/-- The bytes that wait to be used. -/
def unread (w : WordBuffer) : Bytes := w.held.drop w.cursor.toNat

/-- Uses up bytes on request. The sum is taken before it is compared with what is held. -/
def consume (overflow : Overflow) (w : WordBuffer) (amount : UInt64) : Except Fault WordBuffer :=
  match add overflow w.cursor amount with
  | .error fault => .error fault
  | .ok cursor => if cursor ≤ w.used then .ok { w with cursor } else .error .overrun

/-- Lets go of the bytes that were used up, if there are any. -/
def compact (w : WordBuffer) : WordBuffer :=
  if w.cursor = 0 then w else ⟨w.held.drop w.cursor.toNat, 0⟩

def act (overflow : Overflow) (w : WordBuffer) : Act → Except Fault WordBuffer
  | .push bytes => .ok { w with held := w.held ++ bytes }
  | .consume amount => w.consume overflow amount
  | .compact => .ok w.compact

def run (overflow : Overflow) (acts : List Act) : History WordBuffer :=
  acts.foldl (History.next (act overflow)) ⟨⟨[], 0⟩, []⟩

theorem run_concat (overflow : Overflow) (acts : List Act) (a : Act) :
    run overflow (acts ++ [a]) = (run overflow acts).next (act overflow) a :=
  List.foldl_concat ..

/-- The same bytes, with the cursor at the same place. -/
structure Counts (w : WordBuffer) (b : InputBuffer) : Prop where
  held : w.held = b.held
  cursor : w.cursor.toNat = b.cursor

variable {w : WordBuffer} {b : InputBuffer} {overflow : Overflow} {amount : UInt64}

theorem Counts.toNat_used (h : w.Counts b) (hused : b.used < UInt64.size) :
    w.used.toNat = b.used := by
  rw [used, h.held]
  exact UInt64.toNat_ofNat_of_lt' hused

/-- Both do the same, or are refused for the same reason. -/
def Alike (x : Except Fault WordBuffer) (y : Except Fault InputBuffer) : Prop :=
  (∃ w b, x = .ok w ∧ y = .ok b ∧ w.Counts b) ∨ ∃ fault, x = .error fault ∧ y = .error fault

/-- A sum that is a word is compared with what is held. -/
theorem Counts.consume_of_lt (h : w.Counts b) (hused : b.used < UInt64.size)
    (hsum : b.cursor + amount.toNat < UInt64.size) (overflow : Overflow) :
    Alike (w.consume overflow amount) (b.consume amount.toNat) := by
  have hlength := b.used_eq
  have hcursor := h.cursor
  have hadd : (w.cursor + amount).toNat = b.cursor + amount.toNat := by
    rw [UInt64.toNat_add, hcursor, Nat.mod_eq_of_lt hsum]
  have hbound : w.cursor + amount ≤ w.used ↔ amount.toNat ≤ b.unread.length := by
    rw [UInt64.le_iff_toNat_le, hadd, h.toNat_used hused]
    omega
  rw [consume, InputBuffer.consume, add_of_lt (by rwa [hcursor]) overflow]
  simp only [hbound]
  by_cases hle : amount.toNat ≤ b.unread.length
  · rw [if_pos hle, dif_pos hle]
    exact .inl ⟨_, _, rfl, rfl, h.held, hadd⟩
  · rw [if_neg hle, dif_neg hle, InputBuffer.refusal, if_pos hsum]
    exact .inr ⟨_, rfl, rfl⟩

/-- With overflow checks, a sum that is no word is refused for that. It is more than what is
held. -/
theorem Counts.consume_refused (h : w.Counts b) (hused : b.used < UInt64.size)
    (hsum : UInt64.size ≤ b.cursor + amount.toNat) :
    w.consume .refused amount = .error .countOverflow ∧
      b.consume amount.toNat = .error .countOverflow := by
  have hlength := b.used_eq
  have hlong : ¬amount.toNat ≤ b.unread.length := by omega
  rw [consume, add, h.cursor, if_neg (Nat.not_lt.mpr hsum), InputBuffer.consume, dif_neg hlong,
    InputBuffer.refusal, if_neg (Nat.not_lt.mpr hsum)]
  exact ⟨rfl, rfl⟩

/-- Without overflow checks, a sum that is no word lies in front of the cursor. It passes the
comparison, and the cursor moves back. -/
theorem Counts.consume_wrapped (h : w.Counts b) (hused : b.used < UInt64.size)
    (hsum : UInt64.size ≤ b.cursor + amount.toNat) :
    w.consume .wraps amount = .ok { w with cursor := w.cursor + amount } ∧
      w.cursor + amount < w.cursor := by
  have hcursor := h.cursor
  have hamount := amount.toNat_lt
  have hless := b.cursor_le
  have hback : (w.cursor + amount).toNat < b.cursor := by
    rw [UInt64.toNat_add, hcursor]
    simp only [UInt64.size] at hsum
    omega
  have hpasses : w.cursor + amount ≤ w.used := by
    rw [UInt64.le_iff_toNat_le, h.toNat_used hused]
    exact Nat.le_of_lt (Nat.lt_of_lt_of_le hback hless)
  refine ⟨?_, UInt64.lt_iff_toNat_lt.mpr (hcursor ▸ hback)⟩
  rw [consume, add]
  exact if_pos hpasses

theorem Counts.compact (h : w.Counts b) : w.compact.Counts b.compact := by
  rw [WordBuffer.compact]
  split
  · next hzero =>
    have hcursor : b.cursor = 0 := by rw [← h.cursor, hzero, UInt64.toNat_zero]
    exact ⟨by simp [InputBuffer.compact, InputBuffer.unread, hcursor, h.held],
      by simp [InputBuffer.compact, hzero]⟩
  · exact ⟨by simp [InputBuffer.compact, InputBuffer.unread, h.held, h.cursor], rfl⟩

/-- Where all bytes have a word to count them, and no sum wraps around, one act does the same
to both. -/
theorem Counts.act (h : w.Counts b) (hused : b.used < UInt64.size) {a : Act}
    (hsum : overflow = .wraps → ∀ amount, a = .consume amount →
      b.cursor + amount.toNat < UInt64.size) :
    Alike (w.act overflow a) (b.act a) := by
  cases a with
  | push bytes => exact .inl ⟨_, _, rfl, rfl, congrArg (· ++ bytes) h.held, h.cursor⟩
  | compact => exact .inl ⟨_, _, rfl, rfl, h.compact⟩
  | consume amount =>
    rcases Nat.lt_or_ge (b.cursor + amount.toNat) UInt64.size with hlt | hlarge
    · exact h.consume_of_lt hused hlt overflow
    · cases overflow with
      | refused => exact .inr ⟨_, h.consume_refused hused hlarge⟩
      | wraps => exact absurd (hsum rfl amount rfl) (Nat.not_lt.mpr hlarge)

/-- As long as the bytes that are held can be counted, and no sum wraps around, a history is
the one of the buffer that counts without bounds. -/
theorem counts_run (overflow : Overflow) {acts : List Act} (h : InputBuffer.Countable acts)
    (hsum : overflow = .wraps → InputBuffer.Summable acts) :
    (run overflow acts).answers = (InputBuffer.run acts).answers ∧
      (run overflow acts).buffer.Counts (InputBuffer.run acts).buffer := by
  induction acts using List.reverseRecOn with
  | nil => exact ⟨rfl, rfl, rfl⟩
  | append_singleton acts a ih =>
    obtain ⟨hcountable, hused⟩ := h.of_concat
    have hsums (hwraps : overflow = .wraps) := InputBuffer.summable_concat.mp (hsum hwraps)
    obtain ⟨hanswers, hcounts⟩ := ih hcountable fun hwraps => (hsums hwraps).1
    rw [run_concat, InputBuffer.run_concat]
    rcases hcounts.act hused fun hwraps => (hsums hwraps).2 with ⟨w', b', hw, hb, hcounts'⟩ |
      ⟨fault, hw, hb⟩
    · rw [History.next_of_ok hw, History.next_of_ok hb]
      exact ⟨by simp [hanswers], hcounts'⟩
    · rw [History.next_of_error hw, History.next_of_error hb]
      exact ⟨by simp [hanswers], hcounts⟩

/-- The first amount whose sum wraps around is taken where it should have been refused. -/
theorem next_wrapped {acts : List Act} (h : InputBuffer.Countable acts)
    (hused : (InputBuffer.run acts).buffer.used < UInt64.size)
    (hsummable : InputBuffer.Summable acts)
    (hsum : UInt64.size ≤ (InputBuffer.run acts).buffer.cursor + amount.toNat) :
    let w := (run .wraps acts).buffer
    run .wraps (acts ++ [.consume amount]) =
      (run .wraps acts).record { w with cursor := w.cursor + amount } (.consume amount) (.ok ()) ∧
      w.cursor + amount < w.cursor := by
  obtain ⟨-, hcounts⟩ := counts_run .wraps h fun _ => hsummable
  obtain ⟨htaken, hback⟩ := hcounts.consume_wrapped hused hsum
  refine ⟨?_, hback⟩
  rw [run_concat]
  exact History.next_of_ok htaken

/-- Without overflow checks the answers are right exactly as long as no sum wraps around. -/
theorem answers_wraps_iff {acts : List Act} (h : InputBuffer.Countable acts) :
    (run .wraps acts).answers = (InputBuffer.run acts).answers ↔ InputBuffer.Summable acts := by
  refine ⟨fun hanswers => ?_, fun hsum => (counts_run .wraps h fun _ => hsum).1⟩
  induction acts using List.reverseRecOn with
  | nil => exact InputBuffer.summable_nil
  | append_singleton acts a ih =>
    obtain ⟨hcountable, hused⟩ := h.of_concat
    have hlast := hanswers
    rw [run_concat, InputBuffer.run_concat, History.answers_next, History.answers_next] at hlast
    obtain ⟨hfront, hlast⟩ := List.append_inj' hlast rfl
    have hsummable := ih hcountable hfront
    refine InputBuffer.summable_concat.mpr ⟨hsummable, ?_⟩
    rintro amount rfl
    by_contra hlarge
    obtain ⟨-, hcounts⟩ := counts_run .wraps hcountable fun _ => hsummable
    have htaken := (hcounts.consume_wrapped hused (Nat.le_of_not_lt hlarge)).1
    have hrefused := (hcounts.consume_refused hused (Nat.le_of_not_lt hlarge)).2
    simp [act, InputBuffer.act, htaken, hrefused, Except.map] at hlast

end WordBuffer

namespace InputBuffer

/-- Bytes leave a buffer in the order in which they came, whatever is done with it. At every
moment the unread bytes are those that were pushed without as many at the front as were used
up, and the bytes that are held are these and the ones that were used up since the last
compaction. Every push is taken and leaves the cursor where it is. Bytes are used up exactly
when there are as many unread ones, and the cursor moves on by their number; every other
amount is refused and changes nothing. A compaction leaves the unread bytes as they are and
holds no others.

If the cursor is a 64-bit word, all this is so in a build with overflow checks, as long as
the bytes that are held can be counted. In a build without them it is so exactly as long as
no sum of the cursor and an amount wraps around: the first amount for which it does is taken,
and the cursor moves back. -/
theorem first_in_first_out (acts : List Act) :
    let h := run acts
    (h.answers.map Prod.fst = acts ∧ h.buffer.unread = (pushed acts).drop h.consumed ∧
      h.consumed ≤ (pushed acts).length ∧
      h.buffer.used = h.buffer.unread.length + h.consumedSince) ∧
    (∀ bytes,
      let after := run (acts ++ [.push bytes])
      after.answers = h.answers ++ [(.push bytes, .ok ())] ∧
        after.buffer.cursor = h.buffer.cursor) ∧
    (∀ amount,
      let after := run (acts ++ [.consume amount])
      if amount.toNat ≤ h.buffer.unread.length then
        after.answers = h.answers ++ [(.consume amount, .ok ())] ∧
          after.buffer.cursor = h.buffer.cursor + amount.toNat
      else
        after.answers =
            h.answers ++ [(.consume amount, .error (h.buffer.refusal amount.toNat))] ∧
          after.buffer = h.buffer) ∧
    (let after := run (acts ++ [.compact])
     after.answers = h.answers ++ [(.compact, .ok ())] ∧
      after.buffer.unread = h.buffer.unread ∧
      after.buffer.used = h.buffer.unread.length) ∧
    (Countable acts →
      let checked := WordBuffer.run .refused acts
      let unchecked := WordBuffer.run .wraps acts
      (checked.answers = h.answers ∧ checked.buffer.Counts h.buffer) ∧
      (unchecked.answers = h.answers ↔ Summable acts) ∧
      (Summable acts → unchecked.buffer.Counts h.buffer ∧
        ∀ amount, UInt64.size ≤ h.buffer.cursor + amount.toNat →
          let after := WordBuffer.run .wraps (acts ++ [.consume amount])
          after.answers = h.answers ++ [(.consume amount, .ok ())] ∧
            after.buffer.cursor < unchecked.buffer.cursor)) := by
  intro h
  obtain ⟨hunread, hle, hcursor⟩ := inOrder_run acts
  refine ⟨⟨answers_run acts, hunread, hle, ?_⟩, fun bytes => ?_, fun amount => ?_, ?_,
    fun hcountable => ⟨WordBuffer.counts_run .refused hcountable nofun,
      WordBuffer.answers_wraps_iff hcountable, fun hsummable => ?_⟩⟩
  · rw [used_eq, hcursor]
  · rw [run_concat, next_push]
    exact ⟨rfl, rfl⟩
  · intro after
    have hafter : after = (run acts).next act (.consume amount) := run_concat ..
    split
    · next hfits =>
      rw [hafter, next_consume hfits]
      exact ⟨rfl, rfl⟩
    · next hlong =>
      rw [hafter, next_consume_of_lt (Nat.lt_of_not_le hlong)]
      exact ⟨rfl, rfl⟩
  · rw [run_concat, next_compact]
    exact ⟨rfl, unread_compact _, used_compact _⟩
  · obtain ⟨hanswers, hcounts⟩ := WordBuffer.counts_run .wraps hcountable
      fun _ => hsummable
    refine ⟨hcounts, fun amount hsum => ?_⟩
    intro after
    obtain ⟨hafter, hback⟩ := WordBuffer.next_wrapped hcountable
      (hcountable acts (List.prefix_refl _)) hsummable hsum
    simp only [after, hafter, History.answers_record, hanswers]
    exact ⟨rfl, hback⟩

/-- An amount whose sum with the cursor is no word. With overflow checks it is refused, between
two others that are taken, and again after a compaction, now because there is less. Without
them it is taken. -/
theorem first_in_first_out_of_wrapping :
    let acts : List Act := [.push [1, 2, 3], .consume 1, .consume 18446744073709551615,
      .consume 1, .compact, .push [4], .consume 18446744073709551615]
    let h := run acts
    (pushed acts = [1, 2, 3, 4] ∧ h.consumed = 2 ∧ h.consumedSince = 0 ∧
      h.buffer.unread = [3, 4] ∧ h.buffer.used = 2 ∧
      h.answers.map Prod.snd = [.ok (), .ok (), .error .countOverflow, .ok (), .ok (), .ok (),
        .error .overrun] ∧
      (WordBuffer.run .refused acts).answers = h.answers) ∧
    let before := acts.take 2
    (WordBuffer.run .wraps before).answers = (run before).answers ∧
      (WordBuffer.run .wraps (before ++ [.consume 18446744073709551615])).answers =
        (run before).answers ++ [(.consume 18446744073709551615, .ok ())] := by
  intro acts h
  have hpushed : pushed acts = [1, 2, 3, 4] := by decide
  have hconsumed : h.consumed = 2 := by decide +kernel
  have hsince : h.consumedSince = 0 := by decide +kernel
  obtain ⟨⟨-, hunread, -, hused⟩, -, -, -, hwords⟩ := first_in_first_out acts
  have hthere : h.buffer.unread = [3, 4] := by
    rw [hunread, hpushed, hconsumed]
    rfl
  have hcountable : Countable acts := countable_of_pushed (by decide)
  refine ⟨⟨hpushed, hconsumed, hsince, hthere, ?_, by decide +kernel, (hwords hcountable).1.1⟩, ?_⟩
  · rw [hused, hthere, hsince]
    rfl
  · intro before
    have hfew : Countable before := countable_of_pushed (by decide)
    have hpush : Summable ([] ++ [.push [1, 2, 3]]) :=
      summable_concat.mpr ⟨summable_nil, fun amount hsame => nomatch hsame⟩
    have hsummable : Summable before :=
      summable_concat.mpr ⟨hpush, fun amount hsame => Act.consume.inj hsame ▸ by decide⟩
    obtain ⟨-, hright, hwrapped⟩ := (first_in_first_out before).2.2.2.2 hfew
    exact ⟨hright.mpr hsummable, ((hwrapped hsummable).2 _ (by decide)).1⟩

/-- Without overflow checks, more can be used up than there is: the cursor moves back to the
start, and a byte that was used up is unread again. -/
theorem consumed_byte_returns :
    let acts : List Act := [.push [1, 2, 3], .consume 1]
    let amount : UInt64 := 18446744073709551615
    let before := WordBuffer.run .wraps acts
    let after := WordBuffer.run .wraps (acts ++ [.consume amount])
    before.buffer.unread = [2, 3] ∧ before.buffer.unread.length < amount.toNat ∧
      after.answers = before.answers ++ [(.consume amount, .ok ())] ∧
      after.buffer.cursor < before.buffer.cursor ∧ after.buffer.unread = [1, 2, 3] := by
  decide +kernel

end InputBuffer

end Multipart

import Multipart.Proofs.Feeding

/-!
# Names are used up

A decoder takes names for its temp files and never gives one back: the
storage after a step has issued at least as many as before
(`Decoder.issued_le_next`), and so has the storage after a run
(`Decoder.issued_le_run`). Only header lines take any, and at most one
each, so that a pass takes no more names than it has bytes to read
(`Decoder.issued_pass_le`).
-/

namespace Multipart

variable {s s' : Storage}

theorem TempFile.names_create (folder : String) (limit : Nat) (s : Storage) :
    (create folder limit s).2.names = s.names.issue := by
  rw [create]
  split <;> rfl

theorem Decoder.names_dropOpenFile (part? : Option FilePart) (s : Storage) :
    (dropOpenFile part? s).names = s.names := by
  cases part? <;> rfl

theorem Decoder.names_release (d : Decoder) (s : Storage) : (d.release s).names = s.names := by
  rw [release, Storage.names_onDisk, names_dropOpenFile]

theorem Heading.issued_le_describe (settings : Settings) (attributes : List Attribute)
    (heading : Option Heading) (s : Storage) :
    s.names.issued ≤ (describe settings attributes heading s).storage.names.issued := by
  fun_induction describe settings attributes heading s with
  | case1 => exact Nat.le_refl _
  | case2 _ _ _ _ _ ih => exact ih
  | case3 _ _ _ _ _ ih => exact ih
  | case4 => exact Nat.le_refl _
  | case5 => exact Nat.le_refl _
  | case6 _ _ s _ _ _ s' hcreate =>
    have hnames := TempFile.names_create settings.uploadDir settings.maxFileSize s
    rw [hcreate] at hnames
    rw [hnames]
    exact Nat.le_succ _
  | case7 _ _ s _ _ _ s' hcreate ih =>
    have hnames := TempFile.names_create settings.uploadDir settings.maxFileSize s
    rw [hcreate] at hnames
    rw [hnames] at ih
    exact Nat.le_of_succ_le ih

theorem Heading.issued_le_read (settings : Settings) (line : List Char)
    (heading : Option Heading) (s : Storage) :
    s.names.issued ≤ (read settings line heading s).storage.names.issued := by
  rw [read]
  split
  · have hle := issued_le_describe settings
    rw [← Decoder.names_dropOpenFile (heading.bind Heading.file) s]
    exact hle _ _ _
  · exact Nat.le_refl _
  · exact Nat.le_refl _

/-- A part has one file at most. -/
theorem Heading.storage_describe_of_file (settings : Settings) {part : FilePart} {name : String}
    (attributes : List Attribute) (s : Storage) :
    (describe settings attributes (some ⟨name, some part⟩) s).storage = s := by
  induction attributes generalizing name with
  | nil => rfl
  | cons a attributes ih =>
    rw [describe]
    split
    · exact ih
    · exact ih
    · rfl

theorem Heading.issued_describe_le (settings : Settings) (attributes : List Attribute)
    (heading : Option Heading) (s : Storage) :
    (describe settings attributes heading s).storage.names.issued ≤ s.names.issued + 1 := by
  fun_induction describe settings attributes heading s with
  | case1 => exact Nat.le_succ _
  | case2 _ _ _ _ _ ih => exact ih
  | case3 _ _ _ _ _ ih => exact ih
  | case4 => exact Nat.le_succ _
  | case5 => exact Nat.le_succ _
  | case6 _ _ s _ _ _ s' hcreate =>
    have hnames := TempFile.names_create settings.uploadDir settings.maxFileSize s
    rw [hcreate] at hnames
    rw [hnames]
    exact Nat.le_refl _
  | case7 _ _ s _ _ _ s' hcreate _ =>
    have hnames := TempFile.names_create settings.uploadDir settings.maxFileSize s
    rw [hcreate] at hnames
    rw [storage_describe_of_file, hnames]
    exact Nat.le_refl _

theorem Heading.issued_read_le (settings : Settings) (line : List Char)
    (heading : Option Heading) (s : Storage) :
    (read settings line heading s).storage.names.issued ≤ s.names.issued + 1 := by
  rw [read]
  split
  · have hle := issued_describe_le settings
    rw [← Decoder.names_dropOpenFile (heading.bind Heading.file) s]
    exact hle _ _ _
  · exact Nat.le_succ _
  · exact Nat.le_succ _

theorem Content.names_write {maxFieldSize : Nat} {data : Bytes} {content content' : Content}
    (h : content.write maxFieldSize data s = .ok (content', s')) : s'.names = s.names := by
  cases content with
  | plain value =>
    rw [write] at h
    split at h <;> cases h
    rfl
  | file part =>
    rw [write] at h
    split at h
    · next happend =>
      cases h
      rw [TempFile.append] at happend
      split at happend
      · cases happend
      · split at happend
        · cases happend
          rfl
        · split at happend <;> cases happend
          rfl
    · cases h

theorem Form.names_publishPart (form : Form) (name : String) (s : Storage) (content : Content) :
    (form.publishPart name s content).2.names = s.names := by
  cases content <;> rfl

/-- Where a move leads, at least so many names have been issued. -/
def Move.IssuesFrom (issued : Nat) : Move → Prop
  | .advance _ _ s | .fail _ _ s => issued ≤ s.names.issued
  | _ => True

/-- Where a move leads, at most so many names have been issued. -/
def Move.IssuesWithin (bound : Nat) : Move → Prop
  | .advance _ _ s | .fail _ _ s => s.names.issued ≤ bound
  | _ => True

/-- A move takes no more names than it uses up bytes, or has before it. -/
def Move.IssuesUpTo (issued : Nat) (w : Bytes) : Move → Prop
  | .advance n _ s => s.names.issued ≤ issued + n
  | .fail _ _ s => s.names.issued ≤ issued + w.length
  | _ => True

namespace Decoder

theorem issued_le_next (d : Decoder) (s : Storage) (w : Bytes) (atEnd : Bool) :
    (d.next s w atEnd).IssuesFrom s.names.issued := by
  rw [next]
  split
  · split
    · trivial
    · exact Nat.le_refl _
    · rw [boundaryLine]
      split <;> exact Nat.le_refl _
  · split
    · trivial
    · exact Nat.le_refl _
    · unfold headerLine
      split
      · split <;> exact Nat.le_refl _
      · dsimp only
        split <;> exact Heading.issued_le_read ..
  · rw [partData]
    split
    · split
      · exact Nat.le_refl _
      · next hwrite =>
        rw [Move.IssuesFrom, Form.names_publishPart, Content.names_write hwrite]
    · dsimp only
      split
      · trivial
      · split
        · exact Nat.le_refl _
        · next hwrite =>
          rw [Move.IssuesFrom, Content.names_write hwrite]
  · trivial
  · exact Nat.le_refl _

theorem issued_le_run (d : Decoder) (s : Storage) (w : Bytes) (atEnd : Bool) :
    s.names.issued ≤ (d.run s w atEnd).storage.names.issued := by
  induction d, s, w using run_induction atEnd with
  | step d s w ih =>
    have hle := issued_le_next d s w atEnd
    cases hnext : d.next s w atEnd with
    | wait => rw [run_of_wait hnext]
    | finished => rw [run_of_finished hnext]
    | fail e d' s' =>
      rw [run_of_fail hnext]
      rwa [hnext] at hle
    | advance n d' s' =>
      rw [run_of_advance hnext]
      rw [hnext] at hle
      exact Nat.le_trans hle (ih n d' s' hnext)

/-- The names that a pass uses up are those of its run. -/
theorem names_pass {d : Decoder} {buffer : InputBuffer} {atEnd : Bool}
    (hd : d.stage.hasFailed = false) :
    (d.pass s buffer atEnd).storage.names = (d.run s buffer.unread atEnd).storage.names := by
  cases hres : (d.run s buffer.unread atEnd).result with
  | ok progress => rw [(pass_of_ok hd hres).2.2.1]
  | error e => rw [(pass_of_error hd hres).2.2, names_release]

theorem issued_le_pass (d : Decoder) (s : Storage) (buffer : InputBuffer) (atEnd : Bool) :
    s.names.issued ≤ (d.pass s buffer atEnd).storage.names.issued := by
  cases hd : d.stage.hasFailed with
  | true =>
    simp only [pass, hd, if_true]
    exact Nat.le_refl _
  | false =>
    rw [names_pass hd]
    exact issued_le_run d s buffer.unread atEnd

theorem issued_next_le (d : Decoder) (s : Storage) (w : Bytes) (atEnd : Bool) :
    (d.next s w atEnd).IssuesUpTo s.names.issued w := by
  rw [next]
  split
  · split
    · trivial
    · exact Nat.le_add_right ..
    · rw [boundaryLine]
      split <;> exact Nat.le_add_right ..
  · split
    · trivial
    · exact Nat.le_add_right ..
    · next hline =>
      obtain ⟨hpos, hle⟩ := Line.length_bounds hline
      unfold headerLine
      split
      · split <;> exact Nat.le_add_right ..
      · have hread := Heading.issued_read_le d.settings
        dsimp only
        split
        · exact Nat.le_trans (hread ..) (Nat.add_le_add_left (by omega) _)
        · exact Nat.le_trans (hread ..) (Nat.add_le_add_left hpos _)
  · rw [partData]
    split
    · split
      · exact Nat.le_add_right ..
      · next hwrite =>
        rw [Move.IssuesUpTo, Form.names_publishPart, Content.names_write hwrite]
        exact Nat.le_add_right ..
    · dsimp only
      split
      · trivial
      · split
        · exact Nat.le_add_right ..
        · next hwrite =>
          rw [Move.IssuesUpTo, Content.names_write hwrite]
          exact Nat.le_add_right ..
  · trivial
  · exact Nat.le_add_right ..

theorem issued_run_le (d : Decoder) (s : Storage) (w : Bytes) (atEnd : Bool) :
    (d.run s w atEnd).storage.names.issued ≤ s.names.issued + w.length := by
  induction d, s, w using run_induction atEnd with
  | step d s w ih =>
    have hle := issued_next_le d s w atEnd
    cases hnext : d.next s w atEnd with
    | wait =>
      rw [run_of_wait hnext]
      exact Nat.le_add_right ..
    | finished =>
      rw [run_of_finished hnext]
      exact Nat.le_add_right ..
    | fail e d' s' =>
      rw [run_of_fail hnext]
      rwa [hnext] at hle
    | advance n d' s' =>
      rw [run_of_advance hnext]
      rw [hnext] at hle
      have hrest := ih n d' s' hnext
      have hused := (next_advance hnext).1
      rw [List.length_drop] at hrest
      simp only [Move.IssuesUpTo] at hle hrest ⊢
      omega

theorem issued_pass_le (d : Decoder) (s : Storage) (buffer : InputBuffer) (atEnd : Bool) :
    (d.pass s buffer atEnd).storage.names.issued ≤ s.names.issued + buffer.unread.length := by
  cases hd : d.stage.hasFailed with
  | true =>
    simp only [pass, hd, if_true]
    exact Nat.le_add_right ..
  | false =>
    rw [names_pass hd]
    exact issued_run_le d s buffer.unread atEnd

/-- A pass uses bytes up from the front. -/
theorem unread_pass_suffix (d : Decoder) (s : Storage) (buffer : InputBuffer) (atEnd : Bool) :
    (d.pass s buffer atEnd).buffer.unread <:+ buffer.unread := by
  rw [pass]
  split
  · exact List.suffix_rfl
  · dsimp only
    split
    · simpa using List.drop_suffix ..
    · simpa using List.drop_suffix ..

theorem unread_pass_le (d : Decoder) (s : Storage) (buffer : InputBuffer) (atEnd : Bool) :
    (d.pass s buffer atEnd).buffer.unread.length ≤ buffer.unread.length :=
  (d.unread_pass_suffix s buffer atEnd).length_le

theorem buffer_finish (d : Decoder) (s : Storage) (buffer : InputBuffer) :
    (d.finish s buffer).buffer = (d.pass s buffer true).buffer := by
  rw [finish]
  dsimp only
  split <;> rfl

theorem names_finish (d : Decoder) (s : Storage) (buffer : InputBuffer) :
    (d.finish s buffer).storage.names = (d.pass s buffer true).storage.names := by
  cases hres : (d.pass s buffer true).result with
  | error e => rw [finish_of_error hres]
  | ok progress =>
    cases progress with
    | complete => rw [finish_of_complete hres]
    | needsMore =>
      rw [finish_of_needsMore hres]
      exact names_release ..

theorem names_intoForm (d : Decoder) (s : Storage) : (d.intoForm s).2.names = s.names := by
  rw [intoForm]
  split
  · rfl
  · exact names_release d s

end Decoder

end Multipart

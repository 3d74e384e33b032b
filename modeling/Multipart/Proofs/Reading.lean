import Mathlib.Data.List.TakeWhile
import Multipart.Decoder.Line
import Multipart.Proofs.Labels

/-!
# Reading lines

A line is what stands in front of a line feed, or at the end of the body,
and fits if it is not too long (`Line.next_of_fits`, `Line.fits_of_next`).
What a decoder makes of header lines is what they say, as a label
(`Heading.label_read`).
-/

namespace Multipart

/-! ## Lines -/

namespace Line

/-- A line, without its line feed, that is not too long. -/
def Fits (maxLength : Nat) (line : Bytes) : Prop := Bytes.lf ∉ line ∧ line.length ≤ maxLength

variable {maxLength : Nat} {line : Bytes}

theorem bne_lf (h : Bytes.lf ∉ line) : ∀ b ∈ line, (b != Bytes.lf) = true := by
  intro b hb
  rw [bne_iff_ne]
  rintro rfl
  exact h hb

theorem body_append_lf (h : Bytes.lf ∉ line) (rest : Bytes) :
    body (line ++ Bytes.lf :: rest) = line := by
  simp [body, List.takeWhile_append_of_pos (bne_lf h)]

/-- One line stands in front of the first line feed. -/
theorem eq_of_append_lf {line' rest rest' : Bytes} (h : Bytes.lf ∉ line) (h' : Bytes.lf ∉ line')
    (heq : line ++ Bytes.lf :: rest = line' ++ Bytes.lf :: rest') :
    line = line' ∧ rest = rest' := by
  obtain rfl : line = line' := by rw [← body_append_lf h rest, heq, body_append_lf h']
  exact ⟨rfl, List.cons_inj_right _ |>.mp (List.append_cancel_left heq)⟩

/-- What has no line feed and stands in front of everything stands in the first line. -/
theorem prefix_of_prefix_append_lf {content rest : Bytes} (h : content <+: line ++ Bytes.lf :: rest)
    (hcontent : Bytes.lf ∉ content) : content <+: line := by
  rcases List.prefix_or_prefix_of_prefix h (List.prefix_append ..) with hshort | ⟨more, rfl⟩
  · exact hshort
  · rw [List.prefix_append_right_inj] at h
    cases more with
    | nil => simp
    | cons b more =>
      obtain rfl : b = Bytes.lf := (List.cons_prefix_cons.mp h).1
      simp at hcontent

theorem isTerminated_append_lf (h : Bytes.lf ∉ line) (rest : Bytes) :
    isTerminated (line ++ Bytes.lf :: rest) = true := by
  simp [isTerminated, List.dropWhile_append_of_pos (bne_lf h)]

theorem isTerminated_of_not_mem (h : Bytes.lf ∉ line) : isTerminated line = false := by
  simpa [isTerminated] using bne_lf h

/-- A line that fits is cut off at its line feed. -/
theorem next_of_fits (h : Fits maxLength line) (rest : Bytes) (atEnd : Bool) :
    next maxLength atEnd (line ++ Bytes.lf :: rest) =
      .whole (Bytes.dropCr line) (line.length + 1) := by
  rw [next, body_append_lf h.1, isTerminated_append_lf h.1, if_neg (Nat.not_lt.mpr h.2), if_pos rfl]

theorem next_of_fits_atEnd (h : Fits maxLength line) (hne : line ≠ []) :
    next maxLength true line = .whole (Bytes.dropCr line) line.length := by
  have hend := isTerminated_of_not_mem h.1
  have hempty : line.isEmpty = false := by simpa using hne
  rw [next, body_eq_self hend, hend, if_neg (Nat.not_lt.mpr h.2), hempty]
  rfl

theorem next_of_unterminated (h : Fits maxLength line) :
    next maxLength false line = .incomplete := by
  have hend := isTerminated_of_not_mem h.1
  rw [next, body_eq_self hend, hend, if_neg (Nat.not_lt.mpr h.2)]
  rfl

/-- What is cut off is a line that fits. -/
theorem fits_of_next {atEnd : Bool} {window content : Bytes} {used : Nat}
    (h : next maxLength atEnd window = .whole content used) :
    ∃ line, Fits maxLength line ∧ content = Bytes.dropCr line ∧
      (window = line ++ Bytes.lf :: window.drop used ∨
        window = line ∧ window.drop used = []) := by
  have hsplit := List.takeWhile_append_dropWhile (p := (· != Bytes.lf)) (l := window)
  have hbody : Bytes.lf ∉ body window := fun hmem => by
    have hne := List.mem_takeWhile_imp hmem
    simp at hne
  rw [next] at h
  split at h
  · cases h
  · next hlong =>
    have hfits : Fits maxLength (body window) := ⟨hbody, Nat.le_of_not_lt hlong⟩
    split at h
    · next hend =>
      cases h
      refine ⟨body window, hfits, rfl, .inl ?_⟩
      cases hrest : window.dropWhile (· != Bytes.lf) with
      | nil =>
        rw [isTerminated, hrest] at hend
        cases hend
      | cons b rest =>
        have hb : b = Bytes.lf := by
          have hhead := List.head_dropWhile_not (· != Bytes.lf) (l := window) (by simp [hrest])
          simpa [hrest] using hhead
        rw [hrest, hb] at hsplit
        have hdrop : window.drop ((body window).length + 1) = rest := by
          have hcut := congrArg (List.drop ((body window).length + 1)) hsplit.symm
          rw [← body] at hcut
          rw [hcut, ← List.drop_drop, List.drop_left]
          rfl
        rw [hdrop]
        exact hsplit.symm
    · next hend =>
      split at h
      · cases h
        have hself := body_eq_self (by simpa using hend)
        exact ⟨body window, hfits, rfl, .inr ⟨hself.symm, by rw [hself, List.drop_length]⟩⟩
      · cases h

end Line

/-! ## What header lines say -/

namespace Heading

variable {settings : Settings} {heading : Option Heading} {s : Storage}

theorem take_label_name {a : Attribute} (h : a.role = .name) (heading : Option Heading) :
    Label.take (heading.map label) a = some ((some (rename heading a.text)).map label) := by
  simp only [Label.take, h]
  cases heading <;> rfl

theorem take_label_filename {a : Attribute} (h : a.role = .filename) (name : String)
    (target : TempFile) :
    Label.take ((some ⟨name, none⟩ : Option Heading).map label) a =
      some ((some ⟨name, some ⟨target, a.text, none⟩⟩ : Option Heading).map label) := by
  simp only [Label.take, h]
  rfl

theorem take_label_filename_again {a : Attribute} (h : a.role = .filename) (name : String)
    (part : FilePart) :
    Label.take ((some ⟨name, some part⟩ : Option Heading).map label) a = none := by
  simp only [Label.take, h]
  rfl

theorem label_describe {attributes : List Attribute}
    (h : (describe settings attributes heading s).error = none) :
    attributes.foldlM Label.take (heading.map label) =
      some ((describe settings attributes heading s).heading.map label) := by
  induction attributes generalizing heading s with
  | nil => rfl
  | cons a rest ih =>
    rw [List.foldlM_cons]
    cases hrole : a.role with
    | other =>
      simp only [describe, hrole] at h ⊢
      simp only [Label.take, hrole]
      exact ih h
    | name =>
      simp only [describe, hrole] at h ⊢
      rw [take_label_name hrole]
      exact ih h
    | filename =>
      obtain _ | ⟨name, _ | part⟩ := heading
      · simp only [describe, hrole] at h
        cases h
      · simp only [describe, hrole] at h ⊢
        cases hcreate : TempFile.create settings.uploadDir settings.maxFileSize s with
        | mk result s' =>
          cases result with
          | error e =>
            simp only [hcreate] at h
            cases h
          | ok target =>
            simp only [hcreate] at h ⊢
            rw [take_label_filename hrole name target]
            exact ih h
      · simp only [describe, hrole] at h
        cases h

/-- Attributes are refused at a file name, and those in front of it are taken. -/
theorem describe_stops {attributes : List Attribute} {e : UploadError}
    (h : (describe settings attributes heading s).error = some e) :
    ∃ before a after, attributes = before ++ a :: after ∧ a.role = .filename ∧
      (describe settings before heading s).error = none ∧
      (describe settings [a] (describe settings before heading s).heading
        (describe settings before heading s).storage).error = some e := by
  fun_induction describe settings attributes heading s with
  | case1 => cases h
  | case2 a rest heading s hrole ih =>
    obtain ⟨before, b, after, rfl, hfilename, htaken, hstops⟩ := ih h
    refine ⟨a :: before, b, after, rfl, hfilename, ?_⟩
    simp only [describe, hrole]
    exact ⟨htaken, hstops⟩
  | case3 a rest heading s hrole ih =>
    obtain ⟨before, b, after, rfl, hfilename, htaken, hstops⟩ := ih h
    refine ⟨a :: before, b, after, rfl, hfilename, ?_⟩
    simp only [describe, hrole]
    exact ⟨htaken, hstops⟩
  | case4 a rest s hrole =>
    refine ⟨[], a, rest, rfl, hrole, rfl, ?_⟩
    simp only [describe, hrole]
    exact h
  | case5 a rest s hrole name part =>
    refine ⟨[], a, rest, rfl, hrole, rfl, ?_⟩
    simp only [describe, hrole]
    exact h
  | case6 a rest s hrole name e' s' hcreate =>
    refine ⟨[], a, rest, rfl, hrole, rfl, ?_⟩
    simp only [describe, hrole, hcreate]
    exact h
  | case7 a rest s hrole name target s' hcreate ih =>
    obtain ⟨before, b, after, rfl, hfilename, htaken, hstops⟩ := ih h
    refine ⟨a :: before, b, after, rfl, hfilename, ?_⟩
    simp only [describe, hrole, hcreate]
    exact ⟨htaken, hstops⟩

theorem label_withContentType (heading : Option Heading) (value : String) :
    (withContentType heading value).map label =
      Label.withContentType (heading.map label) value := by
  obtain _ | ⟨name, _ | part⟩ := heading <;> rfl

/-- What was made of a header line is what it says. -/
theorem label_read {line : Bytes} (h : (read settings (Text.decode line) heading s).error = none) :
    Label.readLine (heading.map label) line =
      some ((read settings (Text.decode line) heading s).heading.map label) := by
  rw [read] at h ⊢
  rw [Label.readLine]
  cases hparse : PartHeader.parse (Text.decode line) with
  | disposition attributes =>
    simp only [hparse] at h
    exact label_describe h
  | contentType value => exact congrArg some (label_withContentType heading _).symm
  | other => rfl

end Heading

end Multipart

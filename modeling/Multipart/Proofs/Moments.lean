import Multipart.Proofs.Excerpts
import Multipart.Proofs.Finality

/-!
# Moments of a session

A session is not only in the states between two calls: within a call its
decoder takes one step after the other. `Session.Visits` are all the states
that a session goes through, each with the excerpt of the current part that
leads there. Every state that calls lead to is among them
(`Session.visits_run`), so what is shown of each moment holds between calls
too.

What every operation on files keeps up, such as that all files are accounted
for, holds at every moment (`Session.Visits.holdings`, `Session.Visits.tidy`),
and the decoder knows its current part from the excerpt (`Session.Visits.known`).
-/

namespace Multipart

namespace Session

/-- The states that a session goes through, each with an excerpt of the current
part. The bytes of a step are the caller's. -/
inductive Visits (start : Session) : Session → Excerpt → Prop where
  | start : Visits start start .empty
  | advance {d d' : Decoder} {s s' : Storage} {handed : List Form} {x : Excerpt} {w : Bytes}
      {atEnd : Bool} {n : Nat} (h : Visits start ⟨some d, s, handed⟩ x)
      (hnext : d.next s w atEnd = .advance n d' s') :
      Visits start ⟨some d', s', handed⟩ (x.after d.stage (w.take n))
  | fail {d d' : Decoder} {s s' : Storage} {handed : List Form} {x : Excerpt} {w : Bytes}
      {atEnd : Bool} {e : UploadError} (h : Visits start ⟨some d, s, handed⟩ x)
      (hnext : d.next s w atEnd = .fail e d' s') :
      Visits start ⟨some (d'.abort s').1, (d'.abort s').2, handed⟩ x
  /-- The body ended before the closing boundary. -/
  | giveUp {d : Decoder} {s : Storage} {handed : List Form} {x : Excerpt}
      (h : Visits start ⟨some d, s, handed⟩ x) :
      Visits start ⟨some (d.abort s).1, (d.abort s).2, handed⟩ x
  | handOver {d : Decoder} {s : Storage} {handed : List Form} {x : Excerpt}
      (h : Visits start ⟨some d, s, handed⟩ x) (hstage : d.stage = .ended) :
      Visits start ⟨some { d with form := .empty }, s, handed ++ [d.form]⟩ x

variable {start t : Session} {d d' : Decoder} {s s' : Storage} {handed : List Form} {x : Excerpt}

/-! ## Calls go through moments -/

theorem visits_of_run (h : Visits start ⟨some d, s, handed⟩ x) (w : Bytes) (atEnd : Bool) :
    ∃ x', match (d.run s w atEnd).result with
      | .ok _ => Visits start ⟨some (d.run s w atEnd).decoder, (d.run s w atEnd).storage, handed⟩ x'
      | .error _ =>
        Visits start ⟨some ((d.run s w atEnd).decoder.abort (d.run s w atEnd).storage).1,
          ((d.run s w atEnd).decoder.abort (d.run s w atEnd).storage).2, handed⟩ x' := by
  induction d, s, w using Decoder.run_induction atEnd generalizing x with
  | step d s w ih =>
    cases hnext : d.next s w atEnd with
    | wait =>
      rw [Decoder.run_of_wait hnext]
      exact ⟨x, h⟩
    | finished =>
      rw [Decoder.run_of_finished hnext]
      exact ⟨x, h⟩
    | fail e d' s' =>
      rw [Decoder.run_of_fail hnext]
      exact ⟨x, h.fail hnext⟩
    | advance n d' s' =>
      rw [Decoder.run_of_advance hnext]
      exact ih n d' s' hnext (h.advance hnext)

theorem visits_pass (h : Visits start ⟨some d, s, handed⟩ x) (buffer : InputBuffer)
    (atEnd : Bool) :
    ∃ x', Visits start
      ⟨some (d.pass s buffer atEnd).decoder, (d.pass s buffer atEnd).storage, handed⟩ x' := by
  cases hd : d.stage.hasFailed with
  | true =>
    simp only [Decoder.pass, hd, if_true]
    exact ⟨x, h⟩
  | false =>
    obtain ⟨x', hrun⟩ := visits_of_run h buffer.unread atEnd
    refine ⟨x', ?_⟩
    cases hres : (d.run s buffer.unread atEnd).result with
    | ok progress =>
      obtain ⟨-, hdec, hsto, -⟩ := Decoder.pass_of_ok hd hres
      rw [hres] at hrun
      rw [hdec, hsto]
      exact hrun
    | error e =>
      obtain ⟨-, hdec, hsto⟩ := Decoder.pass_of_error hd hres
      rw [hres] at hrun
      rw [hdec, hsto]
      exact hrun

/-- As long as there is a decoder, a session is at one of its moments. -/
def Seen (start t : Session) : Prop := ∀ d, t.decoder? = some d → ∃ x, Visits start t x

theorem Seen.step (h : Seen start t) (op : Op) : Seen start (t.step op) := by
  obtain ⟨decoder?, s, handed⟩ := t
  cases decoder? with
  | none => exact h
  | some d =>
    obtain ⟨x, hx⟩ := h d rfl
    intro d' hd'
    cases op with
    | process buffer => exact visits_pass hx buffer false
    | drop => cases hd'
    | intoForm => cases hd'
    | finish buffer =>
      obtain ⟨x', hpass⟩ := visits_pass hx buffer true
      cases hres : (d.pass s buffer true).result with
      | error e =>
        simp only [Session.step, Decoder.finish_of_error hres]
        exact ⟨x', (List.append_nil handed).symm ▸ hpass⟩
      | ok progress =>
        cases progress with
        | needsMore =>
          simp only [Session.step, Decoder.finish_of_needsMore hres]
          exact ⟨x', (List.append_nil handed).symm ▸ hpass.giveUp⟩
        | complete =>
          simp only [Session.step, Decoder.finish_of_complete hres]
          exact ⟨x', hpass.handOver (Decoder.stage_of_result_pass hres)⟩

/-- Calls lead from moment to moment. -/
theorem visits_run (start : Session) (ops : List Op) : Seen start (start.run ops) := by
  have hrun (t : Session) (h : Seen start t) : Seen start (t.run ops) := by
    induction ops generalizing t with
    | nil => exact h
    | cons op ops ih => exact ih (t.step op) (h.step op)
  exact hrun start fun _ _ => ⟨_, .start⟩

/-! ## What holds at every moment -/

/-- What every operation on files keeps up, and handing over too, holds at every
moment. -/
theorem Visits.holdings {settings : Settings} {P : List Form → Holdings → Prop}
    (hP : ∀ handed, Invariant settings (P handed))
    (hgive : ∀ {handed part? form s}, P handed ⟨part?, form, s⟩ →
      P (handed ++ [form]) ⟨part?, .empty, s⟩)
    (hsettings : ∀ d, start.decoder? = some d → d.settings = settings)
    (hstart : P start.handed start.holdings) (h : Visits start t x) :
    (∀ d, t.decoder? = some d → d.settings = settings) ∧ P t.handed t.holdings := by
  induction h with
  | start => exact ⟨hsettings, hstart⟩
  | @advance d d' s s' handed x w atEnd n _ hnext ih =>
    obtain rfl := ih.1 d rfl
    obtain ⟨hsame, hafter⟩ := (hP handed).advance ih.2 hnext
    exact ⟨by rintro _ ⟨⟩; exact hsame, hafter⟩
  | @fail d d' s s' handed x w atEnd e _ hnext ih =>
    obtain rfl := ih.1 d rfl
    obtain ⟨hsame, hafter⟩ := (hP handed).fail ih.2 hnext
    exact ⟨by rintro _ ⟨⟩; exact hsame, Invariant.release (hsame ▸ hP handed) hafter⟩
  | @giveUp d s handed x _ ih =>
    obtain rfl := ih.1 d rfl
    exact ⟨by rintro _ ⟨⟩; rfl, (hP handed).release ih.2⟩
  | @handOver d s handed x _ hstage ih =>
    exact ⟨by rintro _ ⟨⟩; exact ih.1 d rfl, hgive ih.2⟩

/-! ## Sessions of a new decoder -/

section New

variable {token : String} {settings : Settings}

theorem Visits.tidy (hnew : Decoder.new token settings = .ok d)
    (h : Visits ⟨some d, s, []⟩ t x) :
    (∀ d', t.decoder? = some d' → d'.settings = settings) ∧
      t.holdings.Tidy (settings.origin s) (t.handedFiles.map StoredFile.path) := by
  have hsettings : d.settings = settings := by rw [Decoder.eq_of_new hnew]
  refine h.holdings (P := fun handed => Holdings.Tidy (settings.origin s)
    ((handed.flatMap fun form => form.files.values).map StoredFile.path)) ?_ ?_ ?_ ?_
  · exact fun _ => Holdings.invariant_tidy rfl
  · intro handed part? form s' hfiles
    simpa using hfiles.handOver
  · rintro _ ⟨⟩
    exact hsettings
  · exact (tidy_new hnew s).files

/-- At every moment the decoder knows the current part from the excerpt, and has
no form once it has failed. -/
theorem Visits.known (hnew : Decoder.new token settings = .ok d)
    (h : Visits ⟨some d, s, []⟩ t x) :
    ∀ d', t.decoder? = some d' →
      d'.Fillable ∧ d'.Knows t.storage x ∧ (d'.stage.hasFailed = true → d'.form = .empty) := by
  induction h with
  | start =>
    rintro _ ⟨⟩
    refine ⟨Decoder.fillable_new hnew, ?_, ?_⟩
    · rw [Decoder.eq_of_new hnew]
      trivial
    · rw [Decoder.eq_of_new hnew]
      intro hfailed
      cases hfailed
  | @advance d₁ d₂ s₁ s₂ handed x w atEnd n _ hnext ih =>
    obtain ⟨hopen, hknows, -⟩ := ih d₁ rfl
    rintro _ ⟨⟩
    refine ⟨Decoder.fillable_next hopen hnext, Decoder.knows_next hopen hknows hnext, ?_⟩
    intro hfailed
    rw [(Decoder.goesOn_of_advance hnext).alive] at hfailed
    cases hfailed
  | fail =>
    rintro _ ⟨⟩
    exact ⟨FilePart.all_none, trivial, fun _ => rfl⟩
  | giveUp =>
    rintro _ ⟨⟩
    exact ⟨FilePart.all_none, trivial, fun _ => rfl⟩
  | @handOver d₁ s₁ handed x _ hstage ih =>
    obtain ⟨hopen, hknows, -⟩ := ih d₁ rfl
    rintro _ ⟨⟩
    exact ⟨hopen, hknows, fun _ => rfl⟩

/-- A file under a name that was taken is the open one, if it was not
published. -/
theorem Visits.openPaths_eq (hnew : Decoder.new token settings = .ok d)
    (h : Visits ⟨some d, s, []⟩ t x) {k : Nat}
    (hk : s.names.issued + k < t.storage.names.issued)
    (hread : t.storage.disk.read? ((settings.origin s).path k) ≠ none)
    (hnot : (settings.origin s).path k ∉ (t.formFiles ++ t.handedFiles).map StoredFile.path) :
    t.openPaths = [(settings.origin s).path k] := by
  obtain ⟨-, asked, hfiles⟩ := h.tidy hnew
  have hnames := hfiles.names
  have howned := hfiles.owned k
  rw [storage_holdings] at hnames howned
  rw [hnames] at hk
  have hmem := howned (Nat.lt_of_add_lt_add_left hk) hread
  have hpaths : t.holdings.paths = t.openPaths ++ t.formFiles.map StoredFile.path := by
    obtain ⟨decoder?, s', handed⟩ := t
    cases decoder? <;> rfl
  rw [hpaths] at hmem
  rw [List.map_append] at hnot
  simp only [List.mem_append, not_or] at hmem hnot
  rcases hmem with hhanded | hopen | hform
  · exact absurd hhanded hnot.2
  · rw [openPaths, Option.mem_toList] at hopen
    rw [openPaths, hopen]
    rfl
  · exact absurd hform hnot.1

end New

end Session

end Multipart

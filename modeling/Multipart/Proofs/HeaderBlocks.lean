import Mathlib.Data.List.DropRight
import Multipart.Proofs.Accepting
import Multipart.Proofs.Finality

/-!
# The meaning of header lines

Header lines are refused for the first attribute that stands where it may
not (`Label.Fault`). Without one they say what the last Content-Disposition
says, and the Content-Type behind it (`Label.ofLines_eq`).

A decoder that has just read the boundary line of a part does exactly that
with the lines that follow, up to the empty one (`Decoder.headerLines_meaning`).
-/

namespace Multipart

/-! ## The first fault -/

namespace Attribute

variable {attributes : List Attribute} {a : Attribute} {v : Violation}

/-- A file name that stands where it may not, the first one, and what is wrong with
it: no name stands in front of it, or another file name does. -/
def Fault (attributes : List Attribute) (v : Violation) : Prop :=
  ∃ before a after, attributes = before ++ a :: after ∧ InOrder before ∧ a.role = .filename ∧
    (v = .missingName ∧ ¬Has .name before ∨ v = .duplicateFilename ∧ Has .filename before)

theorem Fault.not_inOrder (h : Fault attributes v) : ¬InOrder attributes := by
  obtain ⟨before, a, after, rfl, -, hrole, hv⟩ := h
  intro hall
  obtain ⟨hname, hfile⟩ := hall before a after rfl hrole
  rcases hv with ⟨-, hmissing⟩ | ⟨-, hagain⟩
  · exact hmissing hname
  · exact hfile hagain

/-- Attributes stand in order unless one of them is the first that does not. -/
theorem exists_fault (h : ¬InOrder attributes) : ∃ v, Fault attributes v := by
  induction attributes using List.reverseRecOn with
  | nil => exact absurd Label.Reads.nil.inOrder h
  | append_singleton attributes a ih =>
    by_cases hinit : InOrder attributes
    · rw [inOrder_concat, not_and, Classical.not_imp] at h
      obtain ⟨hrole, hlast⟩ := h hinit
      by_cases hname : Has .name attributes
      · have hagain : Has .filename attributes := by
          by_contra hfirst
          exact hlast ⟨hname, hfirst⟩
        exact ⟨_, attributes, a, [], rfl, hinit, hrole, .inr ⟨rfl, hagain⟩⟩
      · exact ⟨_, attributes, a, [], rfl, hinit, hrole, .inl ⟨rfl, hname⟩⟩
    · obtain ⟨v, before, b, after, rfl, hrest⟩ := ih hinit
      exact ⟨v, before, b, after ++ [a], by simp, hrest⟩

/-- The value of the last attribute with this role. -/
def last? (role : Role) (attributes : List Attribute) : Option String :=
  (attributes.filter (·.role = role)).getLast?.map text

theorem last?_concat_of_eq {role : Role} (h : a.role = role) :
    last? role (attributes ++ [a]) = some a.text := by
  simp [last?, h]

theorem last?_concat_of_ne {role : Role} (h : a.role ≠ role) :
    last? role (attributes ++ [a]) = last? role attributes := by
  simp [last?, h]

theorem isSome_last? {role : Role} :
    (last? role attributes).isSome = true ↔ Has role attributes := by
  rw [last?, Option.isSome_map, List.getLast?_isSome]
  simp [Has]

end Attribute

namespace PartHeader

/-- The value of a header line that is a Content-Type. -/
def contentType? (line : Bytes) : Option String :=
  match parse (Text.decode line) with
  | .contentType value => some (String.ofList value)
  | _ => none

end PartHeader

namespace Label

open Attribute

variable {lines : List Bytes} {v : Violation}

/-- The first fault of header lines. Those in front of it are as they should be. -/
def Fault (lines : List Bytes) (v : Violation) : Prop :=
  ∃ before line after attributes, lines = before ++ line :: after ∧
    (∀ earlier ∈ dispositions before, InOrder earlier) ∧
    PartHeader.disposition? line = some attributes ∧ Attribute.Fault attributes v

theorem exists_fault (h : ¬∀ attributes ∈ dispositions lines, InOrder attributes) :
    ∃ v, Fault lines v := by
  induction lines using List.reverseRecOn with
  | nil => exact absurd (by simp [dispositions]) h
  | append_singleton lines line ih =>
    by_cases hinit : ∀ attributes ∈ dispositions lines, InOrder attributes
    · have hlast : ∃ attributes, PartHeader.disposition? line = some attributes ∧
          ¬InOrder attributes := by
        by_contra hnone
        refine h fun attributes hmem => ?_
        rw [dispositions, List.filterMap_append, List.mem_append] at hmem
        rcases hmem with hmem | hmem
        · exact hinit attributes hmem
        · by_contra hbad
          exact hnone ⟨attributes, by simpa using hmem, hbad⟩
      obtain ⟨attributes, hline, hbad⟩ := hlast
      obtain ⟨v, hv⟩ := Attribute.exists_fault hbad
      exact ⟨v, lines, line, [], attributes, rfl, hinit, hline, hv⟩
    · obtain ⟨v, before, bad, after, attributes, rfl, hrest⟩ := ih hinit
      exact ⟨v, before, bad, after ++ [line], attributes, by simp, hrest⟩

theorem Fault.not_inOrder (h : Fault lines v) :
    ¬∀ attributes ∈ dispositions lines, InOrder attributes := by
  obtain ⟨before, line, after, attributes, rfl, -, hline, hv⟩ := h
  intro hall
  refine hv.not_inOrder (hall attributes ?_)
  rw [dispositions, List.mem_filterMap]
  exact ⟨line, by simp, hline⟩

/-! ## What the lines say -/

/-- The lines behind the last Content-Disposition. -/
def behind (lines : List Bytes) : List Bytes :=
  lines.rtakeWhile fun line => (PartHeader.disposition? line).isNone

/-- The value of the last Content-Type behind the last Content-Disposition. -/
def declaredType (lines : List Bytes) : Option String :=
  ((behind lines).filterMap PartHeader.contentType?).getLast?

theorem lastDisposition_disposition {line : Bytes} {attributes : List Attribute}
    (h : PartHeader.disposition? line = some attributes) (lines : List Bytes) :
    lastDisposition (lines ++ [line]) = attributes := by
  simp [lastDisposition, dispositions, h]

theorem lastDisposition_concat {line : Bytes} (h : PartHeader.disposition? line = none)
    (lines : List Bytes) : lastDisposition (lines ++ [line]) = lastDisposition lines := by
  simp [lastDisposition, dispositions, h]

theorem declaredType_disposition {line : Bytes} {attributes : List Attribute}
    (h : PartHeader.disposition? line = some attributes) (lines : List Bytes) :
    declaredType (lines ++ [line]) = none := by
  rw [declaredType, behind, List.rtakeWhile_concat_neg _ _ _ (by simp [h])]
  rfl

theorem declaredType_concat {line : Bytes} (h : PartHeader.disposition? line = none)
    (lines : List Bytes) :
    declaredType (lines ++ [line]) = (PartHeader.contentType? line).or (declaredType lines) := by
  rw [declaredType, behind, List.rtakeWhile_concat_pos _ _ _ (by simp [h]), List.filterMap_append]
  cases htype : PartHeader.contentType? line with
  | none => simp [htype, declaredType, behind]
  | some value => simp [htype]

/-- Attributes say the last name and the file name. -/
theorem ofAttributes_eq {attributes : List Attribute} {label : Option Label}
    (h : ofAttributes attributes = some label) :
    label = (last? .name attributes).map fun name =>
      ⟨name, (last? .filename attributes).map fun clientName => (clientName, none)⟩ := by
  induction attributes using List.reverseRecOn generalizing label with
  | nil =>
    obtain rfl := Option.some.inj h
    rfl
  | append_singleton attributes a ih =>
    rw [ofAttributes_concat] at h
    obtain ⟨before, hbefore, htake⟩ := Option.bind_eq_some_iff.mp h
    have hreads := reads_of_ofAttributes hbefore
    have hsaid := ih hbefore
    have hfile : before.bind Label.file =
        (last? .filename attributes).map fun clientName => (clientName, none) := by
      cases hname : last? .name attributes with
      | some name =>
        rw [hsaid, hname]
        rfl
      | none =>
        -- Without a name there is no file name either.
        rw [hname] at hsaid
        have hnone : last? .filename attributes = none := by
          rw [← Option.not_isSome_iff_eq_none, isSome_last?, ← hreads.file, hsaid]
          exact Bool.false_ne_true
        rw [hsaid, hnone]
        rfl
    cases hrole : a.role with
    | other =>
      simp only [take, hrole, Option.some.injEq] at htake
      rw [← htake, hsaid, last?_concat_of_ne (by simp [hrole]),
        last?_concat_of_ne (by simp [hrole])]
    | name =>
      simp only [take, hrole, Option.some.injEq] at htake
      rw [← htake, last?_concat_of_eq hrole, last?_concat_of_ne (by simp [hrole]), hfile]
      rfl
    | filename =>
      have hname : last? .name (attributes ++ [a]) = last? .name attributes :=
        last?_concat_of_ne (by simp [hrole])
      rw [hname, last?_concat_of_eq hrole]
      obtain _ | ⟨name, _ | file⟩ := before
      · simp [take, hrole] at htake
      · simp only [take, hrole, Option.some.injEq] at htake
        obtain ⟨name', hlast, hsame⟩ := Option.map_eq_some_iff.mp hsaid.symm
        obtain rfl : name' = name := congrArg Label.name hsame
        rw [← htake, hlast]
        rfl
      · simp [take, hrole] at htake

/-- Header lines say what the last Content-Disposition says, and the type behind it. -/
theorem ofLines_eq {label : Option Label} (h : ofLines lines = some label) :
    label = (last? .name (lastDisposition lines)).map fun name =>
      ⟨name, (last? .filename (lastDisposition lines)).map fun clientName =>
        (clientName, declaredType lines)⟩ := by
  induction lines using List.reverseRecOn generalizing label with
  | nil =>
    obtain rfl := Option.some.inj h
    rfl
  | append_singleton lines line ih =>
    rw [ofLines_concat] at h
    obtain ⟨before, hbefore, hline⟩ := Option.bind_eq_some_iff.mp h
    have hsaid := ih hbefore
    rw [readLine] at hline
    cases hparse : PartHeader.parse (Text.decode line) with
    | disposition attributes =>
      simp only [hparse] at hline
      have hthis : PartHeader.disposition? line = some attributes := by
        simp [PartHeader.disposition?, hparse]
      rw [declaredType_disposition hthis, lastDisposition_disposition hthis]
      exact ofAttributes_eq hline
    | contentType value =>
      simp only [hparse, Option.some.injEq] at hline
      have hthis : PartHeader.disposition? line = none := by
        simp [PartHeader.disposition?, hparse]
      have htype : PartHeader.contentType? line = some (String.ofList value) := by
        simp [PartHeader.contentType?, hparse]
      rw [declaredType_concat hthis, lastDisposition_concat hthis, htype, ← hline, hsaid]
      simp [withContentType, Function.comp_def]
    | other =>
      simp only [hparse, Option.some.injEq] at hline
      have hthis : PartHeader.disposition? line = none := by
        simp [PartHeader.disposition?, hparse]
      have htype : PartHeader.contentType? line = none := by
        simp [PartHeader.contentType?, hparse]
      rw [declaredType_concat hthis, lastDisposition_concat hthis, htype, ← hline, hsaid]
      rfl

end Label

/-! ## What a decoder makes of a fault -/

namespace Heading

variable {settings : Settings} {o : Origin} {c₀ c : Ledger} {count : Nat} {v : Violation}
  {files : OrderedMap String StoredFile} {s : Storage}

/-- Attributes that are taken are taken one after the other. -/
theorem describe_append {attributes : List Attribute} {heading : Option Heading}
    (h : (describe settings attributes heading s).error = none) (later : List Attribute) :
    describe settings (attributes ++ later) heading s =
      describe settings later (describe settings attributes heading s).heading
        (describe settings attributes heading s).storage := by
  fun_induction describe settings attributes heading s with
  | case1 heading s => rfl
  | case2 a rest heading s hrole ih => simp only [List.cons_append, describe, hrole, ih h]
  | case3 a rest heading s hrole ih => simp only [List.cons_append, describe, hrole, ih h]
  | case4 => cases h
  | case5 => cases h
  | case6 => cases h
  | case7 a rest s hrole name target s' hcreate ih =>
    simp only [List.cons_append, describe, hrole, hcreate, ih h]

/-- The first fault of a Content-Disposition is what it is refused for. -/
theorem describe_of_fault (hfolder : settings.uploadDir = o.folder)
    (hlimit : settings.maxFileSize = o.limit) {attributes : List Attribute}
    (haccepts : o.Accepts (c₀.asked + (count + Attribute.filenames attributes)))
    (hfault : Attribute.Fault attributes v) (h : c.Tracks o none files s)
    (hsince : c₀.Since c count) :
    (describe settings attributes none s).error = some (.protocol v) := by
  obtain ⟨before, a, after, rfl, hbefore, hrole, hv⟩ := hfault
  obtain ⟨label?, hlabel⟩ := Label.exists_ofAttributes hbefore
  have hreads := Label.reads_of_ofAttributes hlabel
  have hle : Attribute.filenames before ≤ Attribute.filenames (before ++ a :: after) := by
    rw [Attribute.filenames, Attribute.filenames, List.countP_append]
    exact Nat.le_add_right ..
  have hlabel' : before.foldlM Label.take ((none : Option Heading).map label) = some label? :=
    hlabel
  have h' : c.Tracks o ((part? none).map FilePart.target) files s := h
  obtain ⟨hfront, -⟩ := describe_of_label hfolder hlimit before (fun k hk => haccepts k (by omega))
    hlabel' h' hsince
  have hsaid := label_describe hfront
  rw [Option.map_none, ← Label.ofAttributes, hlabel, Option.some.injEq] at hsaid
  rw [describe_append hfront]
  generalize (describe settings before none s).heading = heading at hsaid
  subst hsaid
  rcases hv with ⟨rfl, hmissing⟩ | ⟨rfl, hagain⟩
  · cases heading with
    | none => simp only [describe, hrole]
    | some heading => exact absurd (hreads.name.mp rfl) hmissing
  · obtain _ | ⟨name, _ | part⟩ := heading
    · exact absurd (hreads.file.mpr hagain) Bool.false_ne_true
    · exact absurd (hreads.file.mpr hagain) Bool.false_ne_true
    · simp only [describe, hrole]

theorem read_of_fault (hfolder : settings.uploadDir = o.folder)
    (hlimit : settings.maxFileSize = o.limit) {line : Bytes} {attributes : List Attribute}
    {heading : Option Heading} (haccepts : o.Accepts (c₀.asked + (count + Label.filenames [line])))
    (hline : PartHeader.disposition? line = some attributes)
    (hfault : Attribute.Fault attributes v)
    (h : c.Tracks o ((part? heading).map FilePart.target) files s) (hsince : c₀.Since c count) :
    (read settings (Text.decode line) heading s).error = some (.protocol v) := by
  have hcount : Label.filenames [line] = Attribute.filenames attributes := by
    simp [Label.filenames, Label.dispositions, hline]
  rw [hcount] at haccepts
  have hparse : PartHeader.parse (Text.decode line) = .disposition attributes := by
    unfold PartHeader.disposition? at hline
    split at hline
    · next hparse => rw [hparse, Option.some.inj hline]
    · cases hline
  simp only [read, hparse]
  exact describe_of_fault hfolder hlimit haccepts hfault h.dropOpenFile hsince.drop

end Heading

theorem Content.file?_ofHeading (heading : Heading) : (ofHeading heading).file? = heading.file := by
  rw [ofHeading]
  cases heading.file <;> rfl

namespace Decoder

variable {d d₁ d' : Decoder} {s s₁ s' : Storage} {token : String} {settings : Settings}
  {body w w₁ rest data blank : Bytes} {lines : List Bytes}

/-- Header lines up to the first that is refused are read, from where the boundary line
of a part has been read. -/
theorem reaches_of_inOrder (hstage : d₁.stage = .headerLines none)
    (hfits : ∀ line ∈ lines, Line.Fits d₁.settings.maxLineLength line)
    (hcontents : ∀ content ∈ lines.map Bytes.dropCr, content ≠ [])
    (haccepts : (d₁.settings.origin s₁).Accepts (Label.filenames (lines.map Bytes.dropCr)))
    (hinOrder : ∀ attributes ∈ Label.dispositions (lines.map Bytes.dropCr),
      Attribute.InOrder attributes) (rest : Bytes) :
    ∃ (heading : Option Heading) (c : Ledger) (s' : Storage),
      d₁.Reaches s₁ (joinLines lines ++ rest) { d₁ with stage := .headerLines heading } s' rest ∧
      Label.ofLines (lines.map Bytes.dropCr) = some (heading.map Heading.label) ∧
      c.Tracks (d₁.settings.origin s₁) ((Heading.part? heading).map FilePart.target) ∅ s' ∧
      Ledger.start.Since c (Label.filenames (lines.map Bytes.dropCr)) := by
  obtain ⟨settings, delimiter, stage, form⟩ := d₁
  obtain rfl : stage = .headerLines none := hstage
  obtain ⟨label, hlabel⟩ := Label.exists_ofLines hinOrder
  have hstart : Ledger.start.Tracks (settings.origin s₁)
      ((Heading.part? none).map FilePart.target) ∅ s₁ := .start _
  have hlines : (lines.map Bytes.dropCr).foldlM Label.readLine
      ((none : Option Heading).map Heading.label) = some label := hlabel
  obtain ⟨heading, c, s', hreaches, rfl, hc, hsince⟩ := reaches_headerLines delimiter form
    (o := settings.origin s₁) rfl rfl lines rest hfits hcontents
    (fun k hk => haccepts k (by simpa [Ledger.start] using hk)) hlines hstart (.refl rfl)
  rw [Nat.zero_add] at hsince
  exact ⟨heading, c, s', hreaches, hlabel, hc, hsince⟩

/-- The first fault of header lines is what the body is refused for. -/
theorem refuses_of_fault (hnew : new token settings = .ok d)
    (hreach : d.Reaches s body d₁ s₁ (joinLines lines ++ rest))
    (hstage : d₁.stage = .headerLines none)
    (hfits : ∀ line ∈ lines, Line.Fits d₁.settings.maxLineLength line)
    (hcontents : ∀ content ∈ lines.map Bytes.dropCr, content ≠ [])
    (haccepts : (d₁.settings.origin s₁).Accepts (Label.filenames (lines.map Bytes.dropCr)))
    {v : Violation} (hfault : Label.Fault (lines.map Bytes.dropCr) v) :
    d.Refuses s .empty body (.protocol v) := by
  obtain ⟨before, content, after, attributes, hsplit, hbefore, hline, hv⟩ := hfault
  obtain ⟨front, tail, rfl, rfl, htail⟩ := List.map_eq_append_iff.mp hsplit
  obtain ⟨line, back, rfl, rfl, rfl⟩ := List.map_eq_cons_iff.mp htail
  have hcount : Label.filenames (List.map Bytes.dropCr (front ++ line :: back)) =
      Label.filenames (front.map Bytes.dropCr) + Label.filenames [Bytes.dropCr line] +
        Label.filenames (back.map Bytes.dropCr) := by
    rw [List.map_append, Label.filenames_append, List.map_cons, Label.filenames_cons, Nat.add_assoc]
  have hbytes : joinLines (front ++ line :: back) ++ rest =
      joinLines front ++ (line ++ Bytes.lf :: (joinLines back ++ rest)) := by
    simp [joinLines]
  rw [hbytes] at hreach
  obtain ⟨heading, c, s', hread, -, hc, hsince⟩ := reaches_of_inOrder hstage
    (fun l hl => hfits l (by simp [hl])) (fun l hl => hcontents l (by simp_all))
    (fun k hk => haccepts k (by omega)) hbefore (line ++ Bytes.lf :: (joinLines back ++ rest))
  have herror : (Heading.read d₁.settings (Text.decode (Bytes.dropCr line)) heading s').error =
      some (.protocol v) :=
    Heading.read_of_fault rfl rfl
      (fun k hk => haccepts k (by simp only [Ledger.start] at hk; omega))
      hline hv hc hsince
  refine (hreach.trans hread).refuses hnew fun atEnd => ?_
  have hnext := Line.next_of_fits (hfits line (by simp)) (joinLines back ++ rest) atEnd
  have hne : Bytes.dropCr line ≠ [] := hcontents _ (by simp)
  rw [next_headerLines (d := { d₁ with stage := .headerLines heading }) rfl hnext]
  simp only [headerLine, List.isEmpty_iff, hne, if_false, herror]
  exact ⟨_, _, rfl⟩

/-- What every operation on files keeps up holds at every point that is reached. -/
theorem Reaches.holdings {P : Holdings → Prop} (h : d.Reaches s w d' s' rest)
    (hP : Invariant d.settings P) (hstart : P (d.holdings s)) : P (d'.holdings s') := by
  induction h with
  | refl => exact hstart
  | step hnext _ ih =>
    obtain ⟨hsettings, hafter⟩ := hP.advance hstart hnext
    exact ih (hsettings ▸ hP) hafter

/-- A file under a name that was taken on the way is the open one or was published. -/
theorem Reaches.owned (hnew : new token settings = .ok d) (h : d.Reaches s w d' s' rest) {k : Nat}
    (hk : s.names.issued + k < s'.names.issued)
    (hread : s'.disk.read? ((settings.origin s).path k) ≠ none) :
    (∃ part, d'.stage.openFile? = some part ∧ part.target.path = (settings.origin s).path k) ∨
      (settings.origin s).path k ∈ d'.form.files.values.map StoredFile.path := by
  have hsettings : d.settings.uploadDir = (settings.origin s).folder := by
    rw [eq_of_new hnew]
    rfl
  have htidy : Invariant d.settings (Holdings.Tidy (settings.origin s) []) :=
    Holdings.invariant_tidy hsettings
  obtain ⟨asked, hfiles⟩ := h.holdings htidy (Session.tidy_new hnew s).files
  have hnames : s'.names = (settings.origin s).names.ahead asked := hfiles.names
  rw [hnames] at hk
  have howned := hfiles.owned k (Nat.lt_of_add_lt_add_left hk) hread
  rw [List.nil_append, Holdings.paths, List.mem_append, Option.mem_toList] at howned
  exact howned.imp_left Option.map_eq_some_iff.mp

/-- The meaning of the header lines of a part. The first fault among them, going through
the lines and through the attributes of each, is what the body is refused for. Without
one, the name of the part is the last one of the last Content-Disposition; if that has
none, the body is refused at the empty line. The part is a file if the last
Content-Disposition has a file name, and then it has the last Content-Type behind it. Its
file is empty, and no file of an earlier Content-Disposition is left. -/
theorem headerLines_meaning (hnew : new token settings = .ok d)
    (hreach : d.Reaches s body d₁ s₁ (joinLines lines ++ (blank ++ Bytes.lf :: data)))
    (hstage : d₁.stage = .headerLines none)
    (hfits : ∀ line ∈ lines ++ [blank], Line.Fits settings.maxLineLength line)
    (hcontents : ∀ content ∈ lines.map Bytes.dropCr, content ≠ [])
    (hblank : Bytes.dropCr blank = [])
    (haccepts : (settings.origin s₁).Accepts (Label.filenames (lines.map Bytes.dropCr))) :
    let contents := lines.map Bytes.dropCr
    let last := Label.lastDisposition contents
    (∀ v, Label.Fault contents v → d.Refuses s .empty body (.protocol v)) ∧
    ((∀ v, ¬Label.Fault contents v) → ¬Attribute.Has .name last →
      d.Refuses s .empty body (.protocol .missingName)) ∧
    ((∀ v, ¬Label.Fault contents v) → Attribute.Has .name last →
      ∃ heading d' s', d.Continues s .empty body d' s' data ∧
        d'.stage = .partData heading.name (.ofHeading heading) ∧
        (Content.ofHeading heading).Holds [] s' ∧
        Attribute.last? .name last = some heading.name ∧
        (heading.file.isSome = true ↔ Attribute.Has .filename last) ∧
        (∀ part, heading.file = some part →
          Attribute.last? .filename last = some part.clientName ∧
          part.contentType = Label.declaredType contents) ∧
        ∀ k, s.names.issued + k < s'.names.issued →
          s'.disk.read? ((settings.origin s).path k) ≠ none →
          (∃ part, heading.file = some part ∧ part.target.path = (settings.origin s).path k) ∨
            (settings.origin s).path k ∈ d'.form.files.values.map StoredFile.path) ∧
    Violation.missingName.text = "Missing name field" ∧
    Violation.duplicateFilename.text = "Duplicate filename attribute" := by
  intro contents last
  have hd := hasFailed_of_next_wait (next_new (s := s) hnew)
  have hsettings : d₁.settings = settings := by
    rw [(hreach.goesOn hd).settings, eq_of_new hnew]
  rw [← hsettings] at hfits haccepts
  have hfits' (line : Bytes) (hline : line ∈ lines) : Line.Fits d₁.settings.maxLineLength line :=
    hfits line (List.mem_append_left _ hline)
  -- Without a fault the lines are read, up to the empty one.
  have hread (hnone : ∀ v, ¬Label.Fault contents v) : ∃ heading s',
      d.Reaches s body { d₁ with stage := .headerLines heading } s' (blank ++ Bytes.lf :: data) ∧
      Label.ofLines contents = some (heading.map Heading.label) := by
    have hinOrder : ∀ attributes ∈ Label.dispositions contents, Attribute.InOrder attributes := by
      by_contra hbad
      obtain ⟨v, hv⟩ := Label.exists_fault hbad
      exact hnone v hv
    obtain ⟨heading, c, s', hlines, hlabel, -⟩ := reaches_of_inOrder hstage hfits' hcontents
      haccepts hinOrder (blank ++ Bytes.lf :: data)
    exact ⟨heading, s', hreach.trans hlines, hlabel⟩
  refine ⟨fun v => refuses_of_fault hnew hreach hstage hfits' hcontents haccepts,
    fun hnone hname => ?_, fun hnone hname => ?_, rfl, rfl⟩
  · obtain ⟨heading, s', hend, hlabel⟩ := hread hnone
    rw [← (Label.reads_of_ofLines hlabel).2.1, Option.isSome_map] at hname
    obtain rfl : heading = none := by simpa using hname
    refine hend.refuses hnew fun atEnd => ?_
    have hnext := Line.next_of_fits (hfits blank (by simp)) data atEnd
    rw [next_headerLines (d := { d₁ with stage := .headerLines none }) rfl hnext]
    simp only [headerLine, hblank, List.isEmpty_nil, if_true]
    exact ⟨_, _, rfl⟩
  · obtain ⟨heading, s', hend, hlabel⟩ := hread hnone
    obtain ⟨-, hnamed, hfile⟩ := Label.reads_of_ofLines hlabel
    rw [← hnamed, Option.isSome_map, Option.isSome_iff_exists] at hname
    obtain ⟨heading, rfl⟩ := hname
    have hopens : d.Opens s body heading
        { d₁ with stage := .partData heading.name (.ofHeading heading) } s' data :=
      ⟨_, blank, hend, rfl, hfits blank (by simp), hblank, rfl⟩
    have hsaid := Label.ofLines_eq hlabel
    obtain ⟨name, hlast, hlabel'⟩ := Option.map_eq_some_iff.mp hsaid.symm
    have hsameFile : (Attribute.last? .filename last).map (fun clientName =>
        (clientName, Label.declaredType contents)) =
          heading.file.map fun part => (part.clientName, part.contentType) :=
      congrArg Label.file hlabel'
    refine ⟨heading, _, s', hopens.reaches.continues_new hnew, rfl, (hopens.holds hnew).2,
      hlast.trans (congrArg some (congrArg Label.name hlabel')), ?_, fun part hpart => ?_,
      fun k hk hleft => ?_⟩
    · rw [← hfile, Option.map_some, Option.bind_some, Heading.label, Option.isSome_map]
    · rw [hpart, Option.map_some] at hsameFile
      obtain ⟨clientName, hclient, hpair⟩ := Option.map_eq_some_iff.mp hsameFile
      obtain ⟨rfl, htype⟩ := Prod.mk.inj hpair
      exact ⟨hclient, htype.symm⟩
    · rw [← Content.file?_ofHeading]
      exact hopens.reaches.owned hnew hk hleft

/-- Two header blocks: in one, the last of two Content-Dispositions counts, with the last
of its names and the Content-Type behind it; in the other, the file name comes first. -/
theorem headerLines_meaning_of_two_dispositions :
    let s : Storage := ⟨.ofFolders [["tmp"]], ⟨1, 0, 0⟩⟩
    let body (lines : List String) := Text.toBytes "--B\n" ++
      (joinLines (lines.map Text.toBytes) ++ Text.toBytes "\nx")
    ∃ d, new "B" .standard = .ok d ∧
      (∃ heading d' s', d.Continues s .empty (body
          ["Content-Disposition: x; name=a; filename=f", "Content-Type: t",
            "Content-Disposition: x; name=b; filename=g; name=c", "Content-Type: u"])
          d' s' (Text.toBytes "x") ∧
        d'.stage = .partData heading.name (.ofHeading heading) ∧ heading.name = "c" ∧
        ∃ part, heading.file = some part ∧ part.clientName = "g" ∧ part.contentType = some "u") ∧
      d.Refuses s .empty (body ["Content-Disposition: x; filename=f; name=a"])
        (.protocol .missingName) := by
  intro s body
  have hnew := new_of_ne .standard (show "B" ≠ "" by decide)
  refine ⟨_, hnew, ?_⟩
  generalize hd : Decoder.mk _ _ _ _ = d at hnew
  have hreach (rest : Bytes) : d.Reaches s (Text.toBytes "--B\n" ++ rest)
      { d with stage := .headerLines none } s rest := by
    rw [← hd]
    exact .step (n := 4) rfl (.refl ..)
  constructor
  · let lines := ["Content-Disposition: x; name=a; filename=f", "Content-Type: t",
      "Content-Disposition: x; name=b; filename=g; name=c", "Content-Type: u"].map Text.toBytes
    have haccepts : (Settings.standard.origin s).Accepts
        (Label.filenames (lines.map Bytes.dropCr)) := Origin.accepts_of_isOk (by decide +kernel)
    obtain ⟨-, -, hread, -⟩ := headerLines_meaning hnew (hreach (joinLines lines ++
      ([] ++ Bytes.lf :: Text.toBytes "x"))) rfl (by simp only [Line.Fits]; decide +kernel)
      (by decide +kernel) (by decide +kernel) haccepts
    have hlabel : Label.ofLines (lines.map Bytes.dropCr) =
        some (some ⟨"c", some ("g", some "u")⟩) := by decide +kernel
    obtain ⟨hinOrder, hname, hfile⟩ := Label.reads_of_ofLines hlabel
    obtain ⟨heading, d', s', hdata, hstage, -, hlast, hisFile, hpart, -⟩ :=
      hread (fun v hfault => hfault.not_inOrder hinOrder) (hname.mp rfl)
    obtain ⟨part, hsome⟩ := Option.isSome_iff_exists.mp (hisFile.mpr (hfile.mp rfl))
    obtain ⟨hclient, htype⟩ := hpart part hsome
    refine ⟨heading, d', s', hdata, hstage, ?_, part, hsome, ?_, ?_⟩
    · exact Option.some.inj (hlast.symm.trans (by decide +kernel))
    · exact Option.some.inj (hclient.symm.trans (by decide +kernel))
    · exact htype.trans (by decide +kernel)
  · let lines := ["Content-Disposition: x; filename=f; name=a"].map Text.toBytes
    have haccepts : (Settings.standard.origin s).Accepts
        (Label.filenames (lines.map Bytes.dropCr)) := Origin.accepts_of_isOk (by decide +kernel)
    obtain ⟨hrefuses, -⟩ := headerLines_meaning hnew (hreach (joinLines lines ++
      ([] ++ Bytes.lf :: Text.toBytes "x"))) rfl (by simp only [Line.Fits]; decide +kernel)
      (by decide +kernel) (by decide +kernel) haccepts
    have hline : PartHeader.disposition? (Text.toBytes
        "Content-Disposition: x; filename=f; name=a") =
          some [⟨['x'], []⟩, ⟨Attribute.filenameToken, ['f']⟩, ⟨Attribute.nameToken, ['a']⟩] := by
      decide +kernel
    have hfirst : Label.ofAttributes [⟨['x'], []⟩] = some none := by decide
    refine hrefuses .missingName ⟨[], _, [], _, rfl, nofun, hline, [⟨['x'], []⟩], _, _, rfl,
      (Label.reads_of_ofAttributes hfirst).inOrder, by decide, .inl ⟨rfl, ?_⟩⟩
    exact fun hname => absurd ((Label.reads_of_ofAttributes hfirst).name.mpr hname) nofun

end Decoder

end Multipart

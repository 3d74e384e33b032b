import Multipart.Proofs.Feeding
import Multipart.Proofs.Grammar
import Multipart.Proofs.Reaching
import Multipart.Proofs.Tracking

/-!
# What is framed is accepted

The other half of the grammar: a new decoder takes every framed body
without an error, as long as the folder takes the files that the body
names. The lemmas follow the body line by line; `Ledger.Since` is what
becomes of the ledger on the way, so that it is known which file has
which number and what it holds.
-/

namespace Multipart

open Function (update)

/-- The next files can be opened. -/
def Origin.Accepts (o : Origin) (count : Nat) : Prop := ∀ k < count, ∃ l, o.place k = .ok l

theorem Origin.accepts_of_isOk {o : Origin} {count : Nat}
    (h : ∀ k < count, (o.place k).isOk = true) : o.Accepts count := by
  intro k hk
  have hplace := h k hk
  cases hl : o.place k with
  | ok l => exact ⟨l, rfl⟩
  | error cause =>
    rw [hl] at hplace
    cases hplace

/-- What becomes of a ledger without an open file in the header lines of a
part: so many names are asked for, the file that is open has the last one,
and is empty. -/
structure Ledger.Since (c₀ c : Ledger) (count : Nat) : Prop where
  asked : c.asked = c₀.asked + count
  stored : c.stored = c₀.stored
  held : ∀ k < c₀.asked, c.held k = c₀.held k
  opened : ∀ k, c.opened = some k → k + 1 = c.asked ∧ c₀.asked ≤ k ∧ c.held k = some []

namespace Ledger.Since

variable {c₀ c : Ledger} {count : Nat}

theorem refl (h : c.opened = none) : c.Since c 0 :=
  ⟨rfl, rfl, fun _ _ => rfl, fun k hk => by rw [h] at hk; cases hk⟩

theorem drop (h : c₀.Since c count) : c₀.Since c.drop count := by
  rw [Ledger.drop]
  cases hopen : c.opened with
  | none => exact h
  | some k =>
    refine ⟨h.asked, h.stored, ?_, by rintro j ⟨⟩⟩
    intro j hj
    have hne : j ≠ k := Nat.ne_of_lt (Nat.lt_of_lt_of_le hj (h.opened k hopen).2.1)
    exact (Function.update_of_ne hne ..).trans (h.held j hj)

theorem create (h : c₀.Since c count) : c₀.Since c.create (count + 1) := by
  have hle : c₀.asked ≤ c.asked := by
    rw [h.asked]
    exact Nat.le_add_right ..
  refine ⟨congrArg (· + 1) h.asked, h.stored, fun j hj => ?_, ?_⟩
  · exact (Function.update_of_ne (Nat.ne_of_lt (Nat.lt_of_lt_of_le hj hle)) ..).trans (h.held j hj)
  · rintro k ⟨⟩
    exact ⟨rfl, hle, Function.update_self ..⟩

end Ledger.Since

variable {o : Origin} {c₀ c : Ledger} {count : Nat}
  {files : OrderedMap String StoredFile} {s : Storage} {settings : Settings}

namespace Heading

/-- Attributes that say something are taken without an error. -/
theorem describe_of_label (hfolder : settings.uploadDir = o.folder)
    (hlimit : settings.maxFileSize = o.limit) (attributes : List Attribute)
    {heading : Option Heading} {label' : Option Label}
    (haccepts : o.Accepts (c₀.asked + (count + Attribute.filenames attributes)))
    (hlabel : attributes.foldlM Label.take (heading.map label) = some label')
    (h : c.Tracks o ((part? heading).map FilePart.target) files s)
    (hsince : c₀.Since c count) :
    (describe settings attributes heading s).error = none ∧
    ∃ c' : Ledger,
      c'.Tracks o ((part? (describe settings attributes heading s).heading).map
        FilePart.target) files (describe settings attributes heading s).storage ∧
      c₀.Since c' (count + Attribute.filenames attributes) := by
  induction attributes generalizing heading s c count with
  | nil => exact ⟨rfl, c, h, hsince⟩
  | cons a rest ih =>
    rw [List.foldlM_cons] at hlabel
    cases hrole : a.role with
    | other =>
      have hcount : Attribute.filenames (a :: rest) = Attribute.filenames rest := by
        simp [Attribute.filenames, hrole]
      simp only [Label.take, hrole] at hlabel
      simp only [describe, hrole, hcount] at haccepts ⊢
      exact ih haccepts hlabel h hsince
    | name =>
      have hcount : Attribute.filenames (a :: rest) = Attribute.filenames rest := by
        simp [Attribute.filenames, hrole]
      have hpart : part? (some (rename heading a.text)) = part? heading := by
        cases heading <;> rfl
      rw [take_label_name hrole] at hlabel
      simp only [describe, hrole, hcount] at haccepts ⊢
      exact ih haccepts hlabel (hpart ▸ h) hsince
    | filename =>
      have hcount : count + Attribute.filenames (a :: rest) =
          count + 1 + Attribute.filenames rest := by
        simp only [Attribute.filenames, List.countP_cons, hrole]
        simp
        omega
      obtain _ | ⟨name, _ | part⟩ := heading
      · simp [Label.take, hrole] at hlabel
      · rw [hcount] at haccepts ⊢
        have hplace : ∃ l, o.place c.asked = .ok l := haccepts c.asked (by rw [hsince.asked]; omega)
        obtain ⟨l, hl⟩ := hplace
        obtain ⟨t, s', hcreate, hc⟩ := h.create hl
        rw [← hfolder, ← hlimit] at hcreate
        simp only [describe, hrole, hcreate]
        rw [take_label_filename hrole name t] at hlabel
        exact ih haccepts hlabel hc hsince.create
      · rw [take_label_filename_again hrole] at hlabel
        cases hlabel

/-- A header line that says something is taken without an error. -/
theorem read_of_label (hfolder : settings.uploadDir = o.folder)
    (hlimit : settings.maxFileSize = o.limit) (line : Bytes) {heading : Option Heading}
    {label' : Option Label}
    (haccepts : o.Accepts (c₀.asked + (count + Label.filenames [line])))
    (hlabel : Label.readLine (heading.map label) line = some label')
    (h : c.Tracks o ((part? heading).map FilePart.target) files s)
    (hsince : c₀.Since c count) :
    (read settings (Text.decode line) heading s).error = none ∧
    ∃ c' : Ledger,
      c'.Tracks o ((part? (read settings (Text.decode line) heading s).heading).map
        FilePart.target) files (read settings (Text.decode line) heading s).storage ∧
      c₀.Since c' (count + Label.filenames [line]) := by
  rw [Label.readLine] at hlabel
  rw [read]
  cases hparse : PartHeader.parse (Text.decode line) with
  | disposition attributes =>
    have hcount : Label.filenames [line] = Attribute.filenames attributes := by
      simp [Label.filenames, Label.dispositions, PartHeader.disposition?, hparse]
    rw [hcount] at haccepts ⊢
    simp only [hparse] at hlabel
    have hdrop : c.drop.Tracks o ((part? none).map FilePart.target) files
        (Decoder.dropOpenFile (heading.bind Heading.file) s) := h.dropOpenFile
    exact describe_of_label hfolder hlimit attributes haccepts hlabel hdrop hsince.drop
  | contentType value =>
    have hcount : Label.filenames [line] = 0 :=
      Label.filenames_eq_zero (by simp [PartHeader.disposition?, hparse])
    rw [hcount]
    refine ⟨rfl, c, ?_, hsince⟩
    rwa [target_withContentType]
  | other =>
    have hcount : Label.filenames [line] = 0 :=
      Label.filenames_eq_zero (by simp [PartHeader.disposition?, hparse])
    rw [hcount]
    exact ⟨rfl, c, h, hsince⟩

end Heading

/-! ## Runs that go on -/

namespace Decoder

/-- A run goes on as another one. -/
def Leads (d : Decoder) (s : Storage) (w : Bytes) (d' : Decoder) (s' : Storage) (w' : Bytes) :
    Prop :=
  ∃ used, d.run s w true = { d'.run s' w' true with used }

section Leads

variable {d d' d'' : Decoder} {s s' s'' : Storage} {w w' w'' : Bytes} {n : Nat}

theorem Leads.trans (h : d.Leads s w d' s' w') (h' : d'.Leads s' w' d'' s'' w'') :
    d.Leads s w d'' s'' w'' := by
  obtain ⟨used, hused⟩ := h
  obtain ⟨used', hused'⟩ := h'
  exact ⟨used, by rw [hused, hused']⟩

theorem Leads.of_advance (h : d.next s w true = .advance n d' s') (hw : w.drop n = w') :
    d.Leads s w d' s' w' :=
  ⟨_, hw ▸ run_of_advance h⟩

theorem Leads.of_reaches (h : d.Reaches s w d' s' w') : d.Leads s w d' s' w' := by
  induction h with
  | refl d s w => exact ⟨_, rfl⟩
  | step hnext _ ih => exact (of_advance (next_of_advance hnext true) rfl).trans ih

theorem Leads.of_line {line rest : Bytes} (h : d.next s (line ++ Bytes.lf :: rest) true =
    .advance (line.length + 1) d' s') : d.Leads s (line ++ Bytes.lf :: rest) d' s' rest := by
  refine .of_advance h ?_
  rw [← List.drop_drop, List.drop_left]
  rfl

end Leads

variable (delimiter : Bytes) {form : Form}

/-- The empty line ends the header lines of a part that is named. -/
theorem leads_blankLine {blank : Bytes} (hfits : Line.Fits settings.maxLineLength blank)
    (hblank : Bytes.dropCr blank = []) (heading : Heading) (rest : Bytes) :
    Leads ⟨settings, delimiter, .headerLines (some heading), form⟩ s (blank ++ Bytes.lf :: rest)
      ⟨settings, delimiter, .partData heading.name (.ofHeading heading), form⟩ s rest := by
  refine .of_line ?_
  rw [next_headerLines rfl (Line.next_of_fits hfits rest true)]
  simp only [headerLine, hblank, List.isEmpty_nil, if_true]

/-- One header line that says something leads to the next. -/
theorem next_headerLine (form : Form) {line : Bytes} {heading : Option Heading}
    (hfits : Line.Fits settings.maxLineLength line) (hne : Bytes.dropCr line ≠ [])
    (herror : (Heading.read settings (Text.decode (Bytes.dropCr line)) heading s).error = none)
    (rest : Bytes) :
    next ⟨settings, delimiter, .headerLines heading, form⟩ s (line ++ Bytes.lf :: rest) false =
      .advance (line.length + 1)
        ⟨settings, delimiter,
          .headerLines (Heading.read settings (Text.decode (Bytes.dropCr line)) heading s).heading,
          form⟩
        (Heading.read settings (Text.decode (Bytes.dropCr line)) heading s).storage := by
  rw [next_headerLines rfl (Line.next_of_fits hfits rest false)]
  simp only [headerLine, List.isEmpty_iff, hne, if_false, herror]

theorem leads_headerLine (form : Form) {line : Bytes} {heading : Option Heading}
    (hfits : Line.Fits settings.maxLineLength line) (hne : Bytes.dropCr line ≠ [])
    (herror : (Heading.read settings (Text.decode (Bytes.dropCr line)) heading s).error = none)
    (rest : Bytes) :
    Leads ⟨settings, delimiter, .headerLines heading, form⟩ s (line ++ Bytes.lf :: rest)
      ⟨settings, delimiter,
        .headerLines (Heading.read settings (Text.decode (Bytes.dropCr line)) heading s).heading,
        form⟩
      (Heading.read settings (Text.decode (Bytes.dropCr line)) heading s).storage rest :=
  .of_line (next_of_advance (next_headerLine delimiter form hfits hne herror rest) true)

/-- Header lines that say something are read. -/
theorem reaches_headerLines (form : Form) (hfolder : settings.uploadDir = o.folder)
    (hlimit : settings.maxFileSize = o.limit) (lines : List Bytes) (rest : Bytes)
    (hfits : ∀ line ∈ lines, Line.Fits settings.maxLineLength line)
    (hcontents : ∀ content ∈ lines.map Bytes.dropCr, content ≠ [])
    {heading : Option Heading} {label : Option Label}
    (haccepts : o.Accepts (c₀.asked + (count + Label.filenames (lines.map Bytes.dropCr))))
    (hlabel : (lines.map Bytes.dropCr).foldlM Label.readLine (heading.map Heading.label) =
      some label)
    (h : c.Tracks o ((Heading.part? heading).map FilePart.target) files s)
    (hsince : c₀.Since c count) :
    ∃ (heading' : Option Heading) (c' : Ledger) (s' : Storage),
      Reaches ⟨settings, delimiter, .headerLines heading, form⟩ s (joinLines lines ++ rest)
        ⟨settings, delimiter, .headerLines heading', form⟩ s' rest ∧
      heading'.map Heading.label = label ∧
      c'.Tracks o ((Heading.part? heading').map FilePart.target) files s' ∧
      c₀.Since c' (count + Label.filenames (lines.map Bytes.dropCr)) := by
  induction lines generalizing heading s c count with
  | nil => exact ⟨heading, c, s, .refl .., Option.some.inj hlabel, h, hsince⟩
  | cons line lines ih =>
    have hcount : count + Label.filenames ((line :: lines).map Bytes.dropCr) =
        count + Label.filenames [Bytes.dropCr line] + Label.filenames (lines.map Bytes.dropCr) := by
      rw [List.map_cons, Label.filenames_cons, Nat.add_assoc]
    rw [hcount] at haccepts ⊢
    rw [List.map_cons, List.foldlM_cons] at hlabel
    obtain ⟨label', hread, hlabel⟩ := Option.bind_eq_some_iff.mp hlabel
    obtain ⟨herror, c', hc, hsince'⟩ := Heading.read_of_label hfolder hlimit (Bytes.dropCr line)
      (fun k hk => haccepts k (by omega)) hread h hsince
    have hlabel' := Heading.label_read herror
    rw [hread] at hlabel'
    rw [Option.some.inj hlabel'] at hlabel
    obtain ⟨heading', c'', s'', hreaches, hrest⟩ := ih (fun l hl => hfits l (by simp [hl]))
      (fun l hl => hcontents l (by simp_all)) haccepts hlabel hc hsince'
    refine ⟨heading', c'', s'', ?_, hrest⟩
    rw [joinLines_cons_append]
    refine .step (next_headerLine delimiter form (hfits line (by simp)) (hcontents _ (by simp))
      herror _) ?_
    rwa [← List.drop_drop, List.drop_left]

/-- Header lines that say something, with a name, lead to the data. -/
theorem leads_headerLines (hfolder : settings.uploadDir = o.folder)
    (hlimit : settings.maxFileSize = o.limit) (lines : List Bytes) {blank : Bytes} (rest : Bytes)
    (hfits : ∀ line ∈ lines ++ [blank], Line.Fits settings.maxLineLength line)
    (hcontents : ∀ content ∈ lines.map Bytes.dropCr, content ≠ [])
    (hblank : Bytes.dropCr blank = []) {heading : Option Heading} {label : Label}
    (haccepts : o.Accepts (c₀.asked + (count + Label.filenames (lines.map Bytes.dropCr))))
    (hlabel : (lines.map Bytes.dropCr).foldlM Label.readLine (heading.map Heading.label) =
      some (some label))
    (h : c.Tracks o ((Heading.part? heading).map FilePart.target) form.files s)
    (hsince : c₀.Since c count) :
    ∃ (heading' : Heading) (c' : Ledger) (s' : Storage),
      Leads ⟨settings, delimiter, .headerLines heading, form⟩ s
        (joinLines lines ++ (blank ++ Bytes.lf :: rest))
        ⟨settings, delimiter, .partData heading'.name (.ofHeading heading'), form⟩ s' rest ∧
      heading'.label = label ∧ c'.Tracks o (heading'.file.map FilePart.target) form.files s' ∧
      c₀.Since c' (count + Label.filenames (lines.map Bytes.dropCr)) := by
  obtain ⟨heading', c', s', hreaches, hlabel', hc, hsince'⟩ := reaches_headerLines delimiter form
    hfolder hlimit lines (blank ++ Bytes.lf :: rest)
    (fun line hline => hfits line (List.mem_append_left _ hline)) hcontents haccepts hlabel h hsince
  obtain ⟨heading', rfl, rfl⟩ := Option.map_eq_some_iff.mp hlabel'
  refine ⟨heading', c', s', (Leads.of_reaches hreaches).trans ?_, rfl, hc, hsince'⟩
  exact leads_blankLine delimiter (hfits blank (by simp)) hblank heading' rest

end Decoder

/-! ## What parts are published as -/

namespace Label

/-- The form with a part. If it is a file, it is the one with this number. -/
def publish (label : Label) (o : Origin) (number : Nat) (data : Bytes) (form : Form) : Form :=
  match label.file with
  | none => form.publishField label.name data
  | some (clientName, contentType) =>
    form.withFile label.name ⟨clientName, o.path number, contentType, data.length⟩

/-- What the files of fields hold, with a part. -/
def save (label : Label) (data : Bytes) (saved : OrderedMap String Bytes) :
    OrderedMap String Bytes :=
  match label.file with
  | none => saved
  | some _ => saved.insert label.name data

end Label

/-- The files of the form hold this, by field. -/
def Ledger.Holds (c : Ledger) (saved : OrderedMap String Bytes) : Prop :=
  c.stored.EntryWise (fun k data => c.held k = some data) saved

/-- A file that is filled and published is the one of its field. -/
theorem Ledger.Holds.publish {base : Location → Option Bytes} {t : TempFile}
    {saved : OrderedMap String Bytes} {k : Nat} (hc : c.Holds saved)
    (h : c.Covers o base (some t) files s) (hopen : c.opened = some k)
    (hempty : c.held k = some []) (field : String) (data : Bytes) :
    ((c.write data).publish field).Holds (saved.insert field data) := by
  have hwrite : c.write data = { c with held := update c.held k (some data) } := by
    rw [Ledger.write, hopen]
    simp only [hempty, Option.map_some, List.nil_append]
  have hstays {j : Nat} (hj : c.stored.get? field ≠ some j) :
      Ledger.heldWithout { c with held := update c.held k (some data) } field j =
        update c.held k (some data) j :=
    Ledger.heldWithout_of_ne hj
  rw [hwrite]
  simp only [Ledger.publish, hopen]
  refine OrderedMap.EntryWise.insert hc field ?_ fun other j bytes hne hj _ hheld => ?_
  · exact (hstays fun hfield => h.apart field k hfield hopen).trans (Function.update_self ..)
  · have hjk : j ≠ k := by
      rintro rfl
      exact h.apart other j hj hopen
    have hother : c.stored.get? field ≠ some j := fun hfield =>
      hne (h.distinct other field j hj hfield)
    exact (hstays hother).trans ((Function.update_of_ne hjk ..).trans hheld)

namespace Decoder

variable (delimiter : Bytes) {form : Form}

/-- Data up to the delimiter makes a part of the form. -/
theorem leads_partData (hlimit : settings.maxFileSize = o.limit) (hm : delimiter ≠ [])
    {data rest : Bytes} (hleft : Delimiter.Leftmost delimiter (data ++ rest) data.length)
    {heading : Heading}
    (hsize : (Bytes.trimCrlf data).length ≤ settings.ceiling heading.label.file.isSome)
    (h : c.Tracks o (heading.file.map FilePart.target) form.files s)
    (hempty : ∀ k, c.opened = some k → k + 1 = c.asked ∧ c.held k = some [])
    {saved : OrderedMap String Bytes} (hholds : o.Fresh → c.Holds saved) :
    ∃ (c' : Ledger) (s' : Storage),
      Leads ⟨settings, delimiter, .partData heading.name (.ofHeading heading), form⟩ s
        (data ++ rest)
        ⟨settings, delimiter, .boundaryLine,
          heading.label.publish o (c.asked - 1) (Bytes.trimCrlf data) form⟩ s' rest ∧
      c'.Tracks o none
        (heading.label.publish o (c.asked - 1) (Bytes.trimCrlf data) form).files s' ∧
      c'.asked = c.asked ∧
      (o.Fresh → c'.Holds (heading.label.save (Bytes.trimCrlf data) saved)) := by
  have hfind : Delimiter.find? (data ++ rest) delimiter = some data.length :=
    Delimiter.find?_eq_some_iff.mpr ⟨hm, hleft⟩
  have hdrop : (data ++ rest).drop data.length = rest := List.drop_left ..
  have htake : (data ++ rest).take data.length = data := List.take_left ..
  obtain ⟨name, _ | part⟩ := heading
  · refine ⟨c, s, .of_advance ?_ hdrop, h, rfl, hholds⟩
    have hwrite : Content.write settings.maxFieldSize
        (Bytes.trimCrlf ((data ++ rest).take data.length)) s (.plain []) =
          .ok (.plain (Bytes.trimCrlf data), s) := by
      rw [htake]
      exact if_neg (by simpa [Settings.ceiling, Heading.label] using hsize)
    rw [next_partData rfl]
    exact partData_of_found (d := ⟨settings, delimiter, _, form⟩) hfind hwrite
  · obtain ⟨k, held, hopen, hheld, hnumber, -, hzero, -⟩ := h.filled part.target rfl
    obtain ⟨hlast, hnew⟩ := hempty k hopen
    obtain rfl : held = [] := Option.some.inj (hheld.symm.trans hnew)
    rw [List.length_nil] at hzero
    have hfits : part.target.size + (Bytes.trimCrlf data).length ≤ o.limit := by
      rw [hzero, Nat.zero_add, ← hlimit]
      exact hsize
    obtain ⟨t, s', happend, hpath, hlength, hc⟩ := h.append hfits
    have hstored : FilePart.stored { part with target := t } =
        ⟨part.clientName, o.path (c.asked - 1), part.contentType,
          (Bytes.trimCrlf data).length⟩ := by
      have hk : c.asked - 1 = k := by omega
      rw [FilePart.stored, TempFile.finish, TempFile.close, hpath, hlength, hzero, Nat.zero_add,
        hnumber, hk]
    have hpublish := hc.publishFile name (f := FilePart.stored { part with target := t }) rfl rfl
    have hwritten (hfresh : o.Fresh) :=
      (hholds hfresh).publish (h.covers hfresh) hopen hnew name (Bytes.trimCrlf data)
    rw [hstored] at hpublish
    refine ⟨(c.write (Bytes.trimCrlf data)).publish name, _, .of_advance ?_ hdrop, hpublish, ?_,
      hwritten⟩
    · have hwrite : Content.write settings.maxFieldSize
          (Bytes.trimCrlf ((data ++ rest).take data.length)) s (.file part) =
            .ok (.file { part with target := t }, s') := by
        rw [htake]
        simp only [Content.write, happend]
      rw [next_partData rfl]
      refine (partData_of_found (d := ⟨settings, delimiter, _, form⟩) hfind hwrite).trans ?_
      simp only [Form.publishPart, Form.publishFile, hstored]
      rfl
    · rw [Ledger.asked_publish, Ledger.asked_write]

end Decoder

/-! ## Whole parts -/

namespace RawPart

/-- What its header lines say. -/
def label? (p : RawPart) : Option Label := (Label.ofLines p.contents).join

/-- The form with a part, for which names are asked for from this number on. -/
def publish (o : Origin) (asked : Nat) (p : RawPart) (form : Form) : Form :=
  match p.label? with
  | some label => label.publish o (asked + p.filenames - 1) (Bytes.trimCrlf p.data) form
  | none => form

/-- What the files of fields hold, with a part. -/
def save (p : RawPart) (saved : OrderedMap String Bytes) : OrderedMap String Bytes :=
  match p.label? with
  | some label => label.save (Bytes.trimCrlf p.data) saved
  | none => saved

/-- The form with some parts. -/
def publishAll (o : Origin) : Nat → List RawPart → Form → Form
  | _, [], form => form
  | asked, p :: parts, form =>
    publishAll o (asked + p.filenames) parts (p.publish o asked form)

/-- What the files of fields hold, with some parts. -/
def saveAll (parts : List RawPart) (saved : OrderedMap String Bytes) : OrderedMap String Bytes :=
  parts.foldl (fun saved p => p.save saved) saved

theorem WellFormed.label {marker : Bytes} {p : RawPart} (h : p.WellFormed settings marker) :
    ∃ label, Label.ofLines p.contents = some (some label) ∧
      (Bytes.trimCrlf p.data).length ≤ settings.ceiling label.file.isSome := by
  obtain ⟨label?, hlabel⟩ := Label.exists_ofLines h.inOrder
  obtain ⟨-, hname, hfile⟩ := Label.reads_of_ofLines hlabel
  obtain ⟨label, rfl⟩ := Option.isSome_iff_exists.mp (hname.mpr h.named)
  refine ⟨label, hlabel, ?_⟩
  cases hisFile : label.file.isSome with
  | true => exact h.file (hfile.mp hisFile)
  | false =>
    refine h.plain ?_
    intro hp
    have hsome : label.file.isSome = true := hfile.mpr hp
    rw [hisFile] at hsome
    cases hsome

end RawPart

/-- What the files hold is the same as long as only newer ones change. -/
theorem Ledger.Holds.of_since {saved : OrderedMap String Bytes} (h : c.Holds saved)
    {base : Location → Option Bytes} {target? : Option TempFile}
    (hc : c.Covers o base target? files s) {c' : Ledger}
    (hsince : c.Since c' count) : c'.Holds saved := by
  rw [Ledger.Holds, hsince.stored]
  refine ⟨h.keys, ?_⟩
  intro field k data hk hdata
  rw [hsince.held k (hc.lt_asked_of_stored hk)]
  exact h.related field k data hk hdata

namespace Decoder

variable {delimiter : Bytes} {form : Form}

/-- The first line of a part leads to its header lines. -/
theorem leads_opening {p : RawPart} (hp : p.WellFormed settings delimiter) (rest : Bytes)
    (form : Form) (s : Storage) :
    Leads ⟨settings, delimiter, .boundaryLine, form⟩ s (p.bytes ++ rest)
      ⟨settings, delimiter, .headerLines none, form⟩ s
      (joinLines p.headers ++ (p.blank ++ Bytes.lf :: (p.data ++ rest))) := by
  rw [RawPart.bytes_append]
  refine .of_line ?_
  rw [next_boundaryLine rfl (Line.next_of_fits (hp.fits p.opening (by simp)) _ true), boundaryLine,
    BoundaryLine.ofLine_eq_opening_iff.mpr ⟨hp.opening, hp.notClosing⟩]

/-- A part leads to the next boundary line. -/
theorem leads_part (hfolder : settings.uploadDir = o.folder)
    (hlimit : settings.maxFileSize = o.limit) (hm : delimiter ≠ []) {p : RawPart}
    (hp : p.WellFormed settings delimiter) {rest : Bytes}
    (hleft : Delimiter.Leftmost delimiter (p.data ++ rest) p.data.length)
    (haccepts : o.Accepts (c.asked + p.filenames))
    (h : c.Tracks o none form.files s) {saved : OrderedMap String Bytes}
    (hholds : o.Fresh → c.Holds saved) :
    ∃ (c' : Ledger) (s' : Storage),
      Leads ⟨settings, delimiter, .boundaryLine, form⟩ s (p.bytes ++ rest)
        ⟨settings, delimiter, .boundaryLine, p.publish o c.asked form⟩ s' rest ∧
      c'.Tracks o none (p.publish o c.asked form).files s' ∧
      c'.asked = c.asked + p.filenames ∧ (o.Fresh → c'.Holds (p.save saved)) := by
  obtain ⟨label, hlabel, hsize⟩ := hp.label
  have hlabel? : p.label? = some label := by rw [RawPart.label?, hlabel]; rfl
  have hfirst := leads_opening hp rest form s
  have hlines : (p.headers.map Bytes.dropCr).foldlM Label.readLine
      ((none : Option Heading).map Heading.label) = some (some label) := hlabel
  have haccepts' : o.Accepts (c.asked + (0 + Label.filenames (p.headers.map Bytes.dropCr))) := by
    rw [Nat.zero_add]
    exact haccepts
  obtain ⟨heading, c₁, s₁, hheaders, rfl, hc₁, hsince⟩ := leads_headerLines delimiter hfolder
    hlimit p.headers (p.data ++ rest) (fun line hline => hp.fits line (by simp_all)) hp.headers
    hp.blank haccepts' hlines h (.refl (h.closed rfl))
  rw [Nat.zero_add] at hsince
  obtain ⟨c₂, s₂, hdata, hc₂, hasked, hholds'⟩ := leads_partData delimiter hlimit hm hleft hsize hc₁
    (fun k hk => ⟨(hsince.opened k hk).1, (hsince.opened k hk).2.2⟩)
    (fun hfresh => (hholds hfresh).of_since (h.covers hfresh) hsince)
  rw [hsince.asked] at hdata hc₂ hasked
  refine ⟨c₂, s₂, ?_, ?_, hasked, ?_⟩
  · rw [RawPart.publish, hlabel?]
    exact hfirst.trans (hheaders.trans hdata)
  · rw [RawPart.publish, hlabel?]
    exact hc₂
  · rw [RawPart.save, hlabel?]
    exact hholds'

/-- The closing line completes the body, whatever comes behind it. -/
theorem run_of_closing {body : Bytes} (h : Line.StartsWith settings.maxLineLength
    (delimiter ++ [Bytes.hyphen, Bytes.hyphen]) body) :
    ∃ used, run ⟨settings, delimiter, .boundaryLine, form⟩ s body true =
      ⟨.ok .complete, ⟨settings, delimiter, .ended, form⟩, s, used⟩ := by
  obtain ⟨line, hfits, hcontent, hbody⟩ := h
  have hline : ∃ used, Line.next settings.maxLineLength true body =
      .whole (Bytes.dropCr line) used := by
    rcases hbody with rfl | ⟨rest, rfl⟩
    · refine ⟨_, Line.next_of_fits_atEnd hfits ?_⟩
      rintro rfl
      exact absurd hcontent (by simp [Bytes.dropCr, Bytes.dropTail])
    · exact ⟨_, Line.next_of_fits hfits rest true⟩
  obtain ⟨used, hline⟩ := hline
  have hnext : next ⟨settings, delimiter, .boundaryLine, form⟩ s body true =
      .advance used ⟨settings, delimiter, .ended, form⟩ s := by
    rw [next_boundaryLine rfl hline, boundaryLine, BoundaryLine.ofLine_eq_closing_iff.mpr hcontent]
  exact ⟨_, by rw [run_of_advance hnext, run_of_ended rfl]⟩

/-- A framed body is complete, and published part by part. -/
theorem run_of_framed (hfolder : settings.uploadDir = o.folder)
    (hlimit : settings.maxFileSize = o.limit) (hm : delimiter ≠ []) {parts : List RawPart}
    {body : Bytes} (hbody : Framed settings delimiter parts body)
    (haccepts : o.Accepts (c.asked + Label.filenames (parts.flatMap RawPart.contents)))
    (h : c.Tracks o none form.files s) {saved : OrderedMap String Bytes}
    (hholds : o.Fresh → c.Holds saved) :
    ∃ (c' : Ledger) (s' : Storage) (used : Nat),
      run ⟨settings, delimiter, .boundaryLine, form⟩ s body true =
        ⟨.ok .complete, ⟨settings, delimiter, .ended, RawPart.publishAll o c.asked parts form⟩, s',
          used⟩ ∧
      c'.Tracks o none (RawPart.publishAll o c.asked parts form).files s' ∧
      (o.Fresh → c'.Holds (RawPart.saveAll parts saved)) := by
  induction parts generalizing body form s c saved with
  | nil =>
    obtain ⟨used, hrun⟩ := run_of_closing hbody
    exact ⟨c, s, used, hrun, h, hholds⟩
  | cons p parts ih =>
    obtain ⟨hp, rest, rfl, hleft, hrest⟩ := hbody
    rw [List.flatMap_cons, Label.filenames_append, ← RawPart.filenames, ← Nat.add_assoc] at haccepts
    obtain ⟨c₁, s₁, ⟨used, hleads⟩, hc₁, hasked, hholds₁⟩ := leads_part hfolder hlimit hm
      hp hleft (fun k hk => haccepts k (Nat.lt_add_right _ hk)) h hholds
    rw [← hasked] at haccepts
    obtain ⟨c', s', used', hrun, hc', hholds'⟩ := ih hrest haccepts hc₁ hholds₁
    rw [hasked] at hrun hc'
    exact ⟨c', s', used, by rw [hleads, hrun]; rfl, hc', hholds'⟩

end Decoder

/-! ## The grammar -/

namespace Decoder

variable {token : String} {d : Decoder}

/-- On a framed body a new decoder finishes with the form of its parts. -/
theorem finish_of_framed (hnew : new token settings = .ok d) {body : Bytes} {parts : List RawPart}
    (hbody : Framed settings (Delimiter.ofToken token) parts body)
    (haccepts : (settings.origin s).Accepts (Label.filenames (parts.flatMap RawPart.contents))) :
    ∃ c' : Ledger,
      (d.finish s (InputBuffer.empty.push body)).result =
        .ok (RawPart.publishAll (settings.origin s) 0 parts (.forFolder settings.uploadDir)) ∧
      c'.Tracks (settings.origin s) none
        (RawPart.publishAll (settings.origin s) 0 parts (.forFolder settings.uploadDir)).files
        (d.finish s (InputBuffer.empty.push body)).storage ∧
      ((settings.origin s).Fresh → c'.Holds (RawPart.saveAll parts ∅)) := by
  rw [eq_of_new hnew]
  have hm : Delimiter.ofToken token ≠ [] := by simp [Delimiter.ofToken]
  have hstart : Ledger.start.Tracks (settings.origin s) none
      (Form.forFolder settings.uploadDir).files s := .start (settings.origin s)
  have hopens : ∀ k < Ledger.start.asked + Label.filenames (parts.flatMap RawPart.contents),
      ∃ l, (settings.origin s).place k = .ok l := by
    rw [show Ledger.start.asked = 0 from rfl, Nat.zero_add]
    exact haccepts
  obtain ⟨c', s', used, hrun, hc', hholds⟩ := run_of_framed rfl rfl hm hbody hopens hstart
    fun _ => .empty
  have hunread : (InputBuffer.empty.push body).unread = body := by simp
  rw [← hunread] at hrun
  obtain ⟨hres, hdec, hsto, -⟩ := pass_of_ok rfl (congrArg Run.result hrun)
  rw [hrun] at hdec hsto
  rw [finish_of_complete hres, hdec, hsto]
  exact ⟨c', rfl, hc', hholds⟩

/-- A new decoder finishes with a form exactly on a framed body, and it is the
form of its parts. -/
theorem finish_eq_ok_iff (hnew : new token settings = .ok d) (body : Bytes)
    (haccepts : (settings.origin s).Accepts body.length) (form : Form) :
    (d.finish s (InputBuffer.empty.push body)).result = .ok form ↔
      ∃ parts, Framed settings (Delimiter.ofToken token) parts body ∧
        form = RawPart.publishAll (settings.origin s) 0 parts (.forFolder settings.uploadDir) := by
  have hforward {parts : List RawPart}
      (hbody : Framed settings (Delimiter.ofToken token) parts body) :
      (d.finish s (InputBuffer.empty.push body)).result =
        .ok (RawPart.publishAll (settings.origin s) 0 parts (.forFolder settings.uploadDir)) := by
    obtain ⟨-, hfinish, -⟩ := finish_of_framed hnew hbody
      fun k hk => haccepts k (Nat.lt_of_lt_of_le hk hbody.filenames_le)
    exact hfinish
  constructor
  · intro h
    have hd := hasFailed_of_next_wait (next_new (s := s) hnew)
    have hcomplete : (d.pass s (InputBuffer.empty.push body) true).result = .ok .complete := by
      cases hres : (d.pass s (InputBuffer.empty.push body) true).result with
      | error e =>
        rw [finish_of_error hres] at h
        cases h
      | ok progress =>
        cases progress with
        | complete => rfl
        | needsMore =>
          rw [finish_of_needsMore hres] at h
          cases h
    rw [result_pass hd] at hcomplete
    have hm : d.delimiter ≠ [] := by
      rw [eq_of_new hnew]
      simp [Delimiter.ofToken]
    have hframed := framedFrom_of_complete hm hcomplete
    rw [eq_of_new hnew, show (InputBuffer.empty.push body).unread = body by simp] at hframed
    obtain ⟨parts, hbody⟩ := hframed
    exact ⟨parts, hbody, Except.ok.inj (h.symm.trans (hforward hbody))⟩
  · rintro ⟨parts, hbody, rfl⟩
    exact hforward hbody

/-- A body with a file whose data looks like framing. -/
theorem finish_eq_ok_of_framed_file :
    let s : Storage := ⟨.ofFolders [["tmp"]], ⟨1, 0, 0⟩⟩
    let part : RawPart :=
      ⟨Text.toBytes "--B\r", [Text.toBytes "Content-Disposition: x; name=a; filename=f"], [],
        Text.toBytes "-\r\n--\r\n"⟩
    let body := part.bytes ++ Text.toBytes "--B--\nx"
    ∃ d, new "B" .standard = .ok d ∧ (Settings.standard.origin s).Accepts body.length ∧
      (d.finish s (InputBuffer.empty.push body)).result =
        .ok (part.publish (Settings.standard.origin s) 0
          (.forFolder Settings.standard.uploadDir)) := by
  intro s part body
  have hnew := new_of_ne .standard (show "B" ≠ "" by decide)
  have haccepts : (Settings.standard.origin s).Accepts body.length :=
    Origin.accepts_of_isOk (by decide +kernel)
  have hlabel : Label.ofLines part.contents = some (some ⟨"a", some ("f", none)⟩) := by
    decide +kernel
  have hpart : part.WellFormed .standard (Delimiter.ofToken "B") :=
    RawPart.wellFormed_of_label _ (by simp only [Line.Fits]; decide +kernel) (by decide +kernel)
      (by decide +kernel) (by decide +kernel) (by decide +kernel) hlabel (by decide +kernel)
  have hframed : Framed .standard (Delimiter.ofToken "B") [part] body := by
    refine ⟨hpart, Text.toBytes "--B--\nx", rfl, ?_, ?_⟩
    · exact (Delimiter.find?_eq_some_iff.mp (by decide +kernel)).2
    · exact ⟨Text.toBytes "--B--", ⟨by decide +kernel, by decide +kernel⟩, by decide +kernel,
        .inr ⟨Text.toBytes "x", by decide +kernel⟩⟩
  exact ⟨_, hnew, haccepts, (finish_eq_ok_iff hnew body haccepts _).mpr ⟨[part], hframed, rfl⟩⟩

end Decoder

end Multipart

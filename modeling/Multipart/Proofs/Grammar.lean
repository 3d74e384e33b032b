import Multipart.Proofs.Chunks
import Multipart.Proofs.Reading

/-!
# The grammar of bodies

`Framed` says which bodies a decoder accepts, without a decoder: a number
of parts, each with its lines and its data, then a closing line, then
anything. This module defines it and shows one half of that, that what is
accepted is framed (`Decoder.framedFrom_of_complete`).

The data of a part ends at the leftmost delimiter behind its lines, which
may lie in the next part or in what follows the last one. So a part is
framed together with everything behind it.
-/

namespace Multipart

/-- Lines with their line feeds. -/
def joinLines (lines : List Bytes) : Bytes := lines.flatMap (· ++ [Bytes.lf])

theorem joinLines_cons_append (line : Bytes) (lines : List Bytes) (rest : Bytes) :
    joinLines (line :: lines) ++ rest = line ++ Bytes.lf :: (joinLines lines ++ rest) := by
  simp [joinLines]

/-- One part as it stands in a body. Its lines are kept without their line
feeds. -/
structure RawPart where
  opening : Bytes
  headers : List Bytes
  blank : Bytes
  data : Bytes

namespace RawPart

/-- The bytes of a part. -/
def bytes (p : RawPart) : Bytes :=
  joinLines (p.opening :: p.headers ++ [p.blank]) ++ p.data

theorem bytes_append (p : RawPart) (rest : Bytes) :
    p.bytes ++ rest = p.opening ++ Bytes.lf ::
      (joinLines p.headers ++ (p.blank ++ Bytes.lf :: (p.data ++ rest))) := by
  simp [bytes, joinLines]

/-- What its header lines hold. -/
def contents (p : RawPart) : List Bytes := p.headers.map Bytes.dropCr

/-- Whether the last Content-Disposition has a file name. -/
def IsFile (p : RawPart) : Prop := Attribute.Has .filename (Label.lastDisposition p.contents)

/-- What a part must be, wherever it stands. -/
structure WellFormed (settings : Settings) (marker : Bytes) (p : RawPart) : Prop where
  fits : ∀ line ∈ p.opening :: p.headers ++ [p.blank], Line.Fits settings.maxLineLength line
  opening : marker <+: Bytes.dropCr p.opening
  notClosing : Bytes.dropCr p.opening ≠ marker ++ [Bytes.hyphen, Bytes.hyphen]
  headers : ∀ content ∈ p.contents, content ≠ []
  blank : Bytes.dropCr p.blank = []
  inOrder : ∀ attributes ∈ Label.dispositions p.contents, Attribute.InOrder attributes
  named : Attribute.Has .name (Label.lastDisposition p.contents)
  file : p.IsFile → (Bytes.trimCrlf p.data).length ≤ settings.maxFileSize
  plain : ¬p.IsFile → (Bytes.trimCrlf p.data).length ≤ settings.maxFieldSize

end RawPart

/-- A line with this content stands at the front, or is all there is. -/
def Line.StartsWith (maxLength : Nat) (content body : Bytes) : Prop :=
  ∃ line, Fits maxLength line ∧ Bytes.dropCr line = content ∧
    (body = line ∨ ∃ rest, body = line ++ Bytes.lf :: rest)

/-- These parts, then a closing line, then anything. -/
def Framed (settings : Settings) (marker : Bytes) : List RawPart → Bytes → Prop
  | [], body =>
    Line.StartsWith settings.maxLineLength (marker ++ [Bytes.hyphen, Bytes.hyphen]) body
  | p :: parts, body =>
    p.WellFormed settings marker ∧ ∃ rest, body = p.bytes ++ rest ∧
      Delimiter.Leftmost marker (p.data ++ rest) p.data.length ∧ Framed settings marker parts rest

/-- The ceiling of a part. -/
def Settings.ceiling (settings : Settings) (isFile : Bool) : Nat :=
  if isFile then settings.maxFileSize else settings.maxFieldSize

/-- A part whose header lines say something is well formed if its data is not
too large for that. -/
theorem RawPart.wellFormed_of_label {settings : Settings} {marker : Bytes} {p : RawPart}
    (label : Label)
    (hfits : ∀ line ∈ p.opening :: p.headers ++ [p.blank], Line.Fits settings.maxLineLength line)
    (hopening : marker <+: Bytes.dropCr p.opening)
    (hnotClosing : Bytes.dropCr p.opening ≠ marker ++ [Bytes.hyphen, Bytes.hyphen])
    (hheaders : ∀ content ∈ p.contents, content ≠ []) (hblank : Bytes.dropCr p.blank = [])
    (hlabel : Label.ofLines p.contents = some (some label))
    (hsize : (Bytes.trimCrlf p.data).length ≤ settings.ceiling label.file.isSome) :
    p.WellFormed settings marker := by
  obtain ⟨hinOrder, hname, hfile⟩ := Label.reads_of_ofLines hlabel
  have hceiling : label.file.isSome = true ↔ p.IsFile := hfile
  refine ⟨hfits, hopening, hnotClosing, hheaders, hblank, hinOrder, hname.mp rfl,
    fun hisFile => ?_, fun hplain => ?_⟩
  · rwa [hceiling.mpr hisFile] at hsize
  · rwa [Bool.eq_false_iff.mpr fun hsome => hplain (hceiling.mp hsome)] at hsize

/-! ## Checking bodies -/

section Decidable

instance (maxLength : Nat) (line : Bytes) : Decidable (Line.Fits maxLength line) :=
  inferInstanceAs (Decidable (_ ∧ _))

/-- What stands in front of the first line feed is the line. -/
theorem Line.startsWith_iff {maxLength : Nat} {content window : Bytes} :
    StartsWith maxLength content window ↔
      (body window).length ≤ maxLength ∧ Bytes.dropCr (body window) = content := by
  constructor
  · rintro ⟨line, hfits, hcontent, rfl | ⟨rest, rfl⟩⟩
    · rw [body_eq_self (isTerminated_of_not_mem hfits.1)]
      exact ⟨hfits.2, hcontent⟩
    · rw [body_append_lf hfits.1]
      exact ⟨hfits.2, hcontent⟩
  · rintro ⟨hlength, hcontent⟩
    have hlf : Bytes.lf ∉ body window := fun h => by simpa using List.mem_takeWhile_imp h
    have hsplit : window = body window ++ window.dropWhile (· != Bytes.lf) :=
      List.takeWhile_append_dropWhile.symm
    refine ⟨body window, ⟨hlf, hlength⟩, hcontent, ?_⟩
    cases hrest : window.dropWhile (· != Bytes.lf) with
    | nil => exact .inl (by rwa [hrest, List.append_nil] at hsplit)
    | cons b rest =>
      have hb : ¬(b != Bytes.lf) = true := by
        have hhead := List.head?_dropWhile_not (· != Bytes.lf) window
        simpa [hrest] using hhead
      obtain rfl : b = Bytes.lf := by simpa using hb
      exact .inr ⟨rest, by rwa [hrest] at hsplit⟩

instance (maxLength : Nat) (content window : Bytes) :
    Decidable (Line.StartsWith maxLength content window) :=
  decidable_of_iff _ Line.startsWith_iff.symm

instance (role : Role) (attributes : List Attribute) : Decidable (Attribute.Has role attributes) :=
  inferInstanceAs (Decidable (∃ a ∈ attributes, a.role = role))

/-- Attributes are in order if they can be read. -/
theorem Attribute.inOrder_iff {attributes : List Attribute} :
    InOrder attributes ↔ (Label.ofAttributes attributes).isSome = true := by
  rw [Option.isSome_iff_exists]
  exact ⟨Label.exists_ofAttributes, fun ⟨_, h⟩ => (Label.reads_of_ofAttributes h).inOrder⟩

instance (attributes : List Attribute) : Decidable (Attribute.InOrder attributes) :=
  decidable_of_iff _ Attribute.inOrder_iff.symm

instance (marker window : Bytes) (place : Nat) :
    Decidable (Delimiter.Leftmost marker window place) :=
  inferInstanceAs (Decidable (marker <+: window.drop place ∧
    ∀ earlier < place, ¬marker <+: window.drop earlier))

variable (settings : Settings) (marker : Bytes)

instance (p : RawPart) : Decidable p.IsFile :=
  inferInstanceAs (Decidable (Attribute.Has .filename (Label.lastDisposition p.contents)))

instance (p : RawPart) : Decidable (p.WellFormed settings marker) :=
  decidable_of_iff
    (((∀ line ∈ p.opening :: p.headers ++ [p.blank], Line.Fits settings.maxLineLength line) ∧
      marker <+: Bytes.dropCr p.opening ∧
      Bytes.dropCr p.opening ≠ marker ++ [Bytes.hyphen, Bytes.hyphen]) ∧
      ((∀ content ∈ p.contents, content ≠ []) ∧ Bytes.dropCr p.blank = [] ∧
      (∀ attributes ∈ Label.dispositions p.contents, Attribute.InOrder attributes) ∧
      Attribute.Has .name (Label.lastDisposition p.contents)) ∧
      (p.IsFile → (Bytes.trimCrlf p.data).length ≤ settings.maxFileSize) ∧
      (¬p.IsFile → (Bytes.trimCrlf p.data).length ≤ settings.maxFieldSize))
    ⟨fun ⟨⟨h₁, h₂, h₃⟩, ⟨h₄, h₅, h₆, h₇⟩, h₈, h₉⟩ => ⟨h₁, h₂, h₃, h₄, h₅, h₆, h₇, h₈, h₉⟩,
      fun h => ⟨⟨h.fits, h.opening, h.notClosing⟩, ⟨h.headers, h.blank, h.inOrder, h.named⟩,
        h.file, h.plain⟩⟩

/-- What follows a part is what is left of the body behind it. -/
theorem framed_cons_iff {p : RawPart} {parts : List RawPart} {body : Bytes} :
    Framed settings marker (p :: parts) body ↔
      p.WellFormed settings marker ∧ p.bytes <+: body ∧
        Delimiter.Leftmost marker (p.data ++ body.drop p.bytes.length) p.data.length ∧
        Framed settings marker parts (body.drop p.bytes.length) := by
  constructor
  · rintro ⟨hp, rest, rfl, hleft, hrest⟩
    rw [List.drop_left]
    exact ⟨hp, List.prefix_append .., hleft, hrest⟩
  · rintro ⟨hp, ⟨rest, rfl⟩, hleft, hrest⟩
    rw [List.drop_left] at hleft hrest
    exact ⟨hp, rest, rfl, hleft, hrest⟩

instance Framed.decidable :
    (parts : List RawPart) → (body : Bytes) → Decidable (Framed settings marker parts body)
  | [], body => inferInstanceAs (Decidable (Line.StartsWith settings.maxLineLength
      (marker ++ [Bytes.hyphen, Bytes.hyphen]) body))
  | p :: parts, body =>
    have := Framed.decidable parts (body.drop p.bytes.length)
    decidable_of_iff _ (framed_cons_iff settings marker).symm

end Decidable

/-! ## What is left of a body inside a part -/

/-- Data of a part, and what comes behind the part. -/
def FramedData (settings : Settings) (marker : Bytes) (isFile : Bool) (body : Bytes) : Prop :=
  ∃ data rest parts, body = data ++ rest ∧
    (Bytes.trimCrlf data).length ≤ settings.ceiling isFile ∧
    Delimiter.Leftmost marker (data ++ rest) data.length ∧ Framed settings marker parts rest

/-- Header lines of a part, behind those that said `label`, the empty line, and
its data. -/
def FramedHeaders (settings : Settings) (marker : Bytes) (label : Option Label) (body : Bytes) :
    Prop :=
  ∃ headers blank rest label', body = joinLines headers ++ (blank ++ Bytes.lf :: rest) ∧
    (∀ line ∈ headers ++ [blank], Line.Fits settings.maxLineLength line) ∧
    (∀ content ∈ headers.map Bytes.dropCr, content ≠ []) ∧ Bytes.dropCr blank = [] ∧
    (headers.map Bytes.dropCr).foldlM Label.readLine label = some (some label') ∧
    FramedData settings marker label'.file.isSome rest

namespace BoundaryLine

variable {marker line : Bytes}

theorem ofLine_eq_closing_iff :
    ofLine marker line = .closing ↔ line = marker ++ [Bytes.hyphen, Bytes.hyphen] := by
  rw [ofLine]
  constructor
  · intro h
    split at h
    · cases h
    · next hstarts =>
      split at h
      · next hdrop =>
        have hmarker : marker <+: line := by simpa using hstarts
        obtain ⟨rest, rfl⟩ := hmarker
        rw [List.drop_left] at hdrop
        rw [hdrop]
      · cases h
  · rintro rfl
    simp

theorem ofLine_eq_opening_iff :
    ofLine marker line = .opening ↔
      marker <+: line ∧ line ≠ marker ++ [Bytes.hyphen, Bytes.hyphen] := by
  rw [Ne, ← ofLine_eq_closing_iff, ← List.isPrefixOf_iff_prefix]
  rw [ofLine]
  cases marker.isPrefixOf line with
  | false => simp
  | true =>
    simp only [Bool.not_true, Bool.false_eq_true, if_false, true_and]
    split <;> simp

end BoundaryLine

/-! ## What is accepted is framed -/

/-- The content of a part before its data: nothing, or a new temp file. -/
def Content.Fresh (settings : Settings) : Content → Prop
  | .plain value => value = []
  | .file part => part.target.size = 0 ∧ part.target.limit = settings.maxFileSize

/-- A part that was written at once is no larger than allowed. -/
theorem Content.length_le_of_write {settings : Settings} {content content' : Content}
    {data : Bytes} {s s' : Storage} (hfresh : content.Fresh settings)
    (h : content.write settings.maxFieldSize data s = .ok (content', s')) :
    data.length ≤ settings.ceiling content.file?.isSome := by
  cases content with
  | plain value =>
    obtain rfl : value = [] := hfresh
    rw [write] at h
    split at h
    · cases h
    · next hsmall =>
      rw [List.length_nil, Nat.zero_add] at hsmall
      exact Nat.le_of_not_lt hsmall
  | file part =>
    obtain ⟨hsize, hlimit⟩ := hfresh
    simp only [write, TempFile.append, hsize, hlimit, Nat.zero_add] at h
    split at h
    · next happend =>
      split at happend
      · cases happend
      · next hsmall => exact Nat.le_of_not_lt hsmall
    · cases h

namespace Decoder

variable {d d' : Decoder} {s s' : Storage} {w : Bytes} {atEnd : Bool} {n : Nat}

/-- The run after a step of a run that completes completes too. -/
theorem complete_of_advance (h : (d.run s w atEnd).result = .ok .complete)
    (hnext : d.next s w atEnd = .advance n d' s') :
    (d'.run s' (w.drop n) atEnd).result = .ok .complete := by
  rwa [run_of_advance hnext] at h

/-- A run that completes takes a step, or stands past the closing boundary. -/
theorem advance_of_complete (h : (d.run s w atEnd).result = .ok .complete)
    (hstage : d.stage ≠ .ended) :
    ∃ n d' s', d.next s w atEnd = .advance n d' s' := by
  cases hnext : d.next s w atEnd with
  | wait => rw [run_of_wait hnext] at h; cases h
  | finished => exact absurd (stage_of_next_finished hnext) hstage
  | fail => rw [run_of_fail hnext] at h; cases h
  | advance n d' s' => exact ⟨n, d', s', rfl⟩

/-- Without a delimiter behind it, part data is never complete. -/
theorem find?_of_complete {name : String} {content : Content}
    (hstage : d.stage = .partData name content) (h : (d.run s w atEnd).result = .ok .complete) :
    ∃ place, Delimiter.find? w d.delimiter = some place := by
  obtain ⟨n, d', s', hnext⟩ := advance_of_complete h (by rw [hstage]; exact nofun)
  have hdata := hnext
  rw [next_partData hstage] at hdata
  rcases partData_cases (by rw [hdata]; exact nofun) with hfound | ⟨cut, hnone, hpos, hcut⟩
  · exact hfound
  · -- what is held back waits for more
    cases hwrite : content.write d.settings.maxFieldSize (w.take cut) s with
    | error e =>
      rw [partData_of_flush_error hnone hcut hpos hwrite] at hdata
      cases hdata
    | ok result =>
      rw [partData_of_flush hnone hcut hpos hwrite] at hdata
      cases hdata
      have hrest := complete_of_advance h hnext
      rw [run_of_wait (next_of_heldBack hnone hcut)] at hrest
      cases hrest

end Decoder

theorem FramedData.ne_nil {settings : Settings} {marker body : Bytes} {isFile : Bool}
    (h : FramedData settings marker isFile body) (hm : marker ≠ []) : body ≠ [] := by
  obtain ⟨data, rest, parts, rfl, -, hleft, -⟩ := h
  have hle := hleft.1.add_length_le hm
  have hpos := List.length_pos_iff.mpr hm
  intro hnil
  rw [hnil, List.length_nil] at hle
  omega

theorem FramedHeaders.ne_nil {settings : Settings} {marker body : Bytes} {label : Option Label}
    (h : FramedHeaders settings marker label body) : body ≠ [] := by
  obtain ⟨headers, blank, rest, label', rfl, -⟩ := h
  simp

theorem FramedHeaders.cons {settings : Settings} {marker line rest : Bytes}
    {label label' : Option Label} (h : FramedHeaders settings marker label' rest)
    (hfits : Line.Fits settings.maxLineLength line) (hne : Bytes.dropCr line ≠ [])
    (hread : Label.readLine label (Bytes.dropCr line) = some label') :
    FramedHeaders settings marker label (line ++ Bytes.lf :: rest) := by
  obtain ⟨headers, blank, rest, label'', rfl, hall, hcontents, hblank, hlabel, hdata⟩ := h
  refine ⟨line :: headers, blank, rest, label'', (joinLines_cons_append ..).symm, ?_, ?_, hblank,
    ?_, hdata⟩
  · exact List.forall_mem_cons.mpr ⟨hfits, hall⟩
  · exact List.forall_mem_cons.mpr ⟨hne, hcontents⟩
  · rw [List.map_cons, List.foldlM_cons, hread]
    exact hlabel

theorem FramedHeaders.framed {settings : Settings} {marker line rest : Bytes}
    (h : FramedHeaders settings marker none rest) (hfits : Line.Fits settings.maxLineLength line)
    (hopening : BoundaryLine.ofLine marker (Bytes.dropCr line) = .opening) :
    ∃ parts, Framed settings marker parts (line ++ Bytes.lf :: rest) := by
  obtain ⟨headers, blank, body, label, rfl, hall, hcontents, hblank, hlabel, hdata⟩ := h
  obtain ⟨data, rest, parts, rfl, hsize, hleft, hrest⟩ := hdata
  obtain ⟨hstarts, hne⟩ := BoundaryLine.ofLine_eq_opening_iff.mp hopening
  refine ⟨⟨line, headers, blank, data⟩ :: parts, ?_, rest, ?_, hleft, hrest⟩
  · exact RawPart.wellFormed_of_label label (List.forall_mem_cons.mpr ⟨hfits, hall⟩) hstarts hne
      hcontents hblank hlabel hsize
  · rw [RawPart.bytes_append]

namespace Decoder

variable {d d' : Decoder} {s s' : Storage} {w : Bytes} {n : Nat}

/-- What is left of the body, seen from where a decoder is. -/
def FramedFrom (d : Decoder) (w : Bytes) : Prop :=
  match d.stage with
  | .boundaryLine => ∃ parts, Framed d.settings d.delimiter parts w
  | .headerLines heading =>
    FilePart.All (fun t => t.size = 0 ∧ t.limit = d.settings.maxFileSize) (Heading.part? heading) →
      FramedHeaders d.settings d.delimiter (heading.map Heading.label) w
  | .partData _ content =>
    content.Fresh d.settings → FramedData d.settings d.delimiter content.file?.isSome w
  | .ended => True
  | .failed _ => False

theorem framedData_of_complete {name : String} {content : Content}
    (hstage : d.stage = .partData name content) (hfresh : content.Fresh d.settings)
    (h : (d.run s w true).result = .ok .complete)
    (hrest : ∀ {n d' s'}, d.next s w true = .advance n d' s' → d'.FramedFrom (w.drop n)) :
    FramedData d.settings d.delimiter content.file?.isSome w := by
  obtain ⟨place, hfound⟩ := find?_of_complete hstage h
  obtain ⟨n, d', s', hnext⟩ := advance_of_complete h (by rw [hstage]; exact nofun)
  have hdata := hnext
  rw [next_partData hstage] at hdata
  cases hwrite : content.write d.settings.maxFieldSize (Bytes.trimCrlf (w.take place)) s with
  | error e =>
    rw [partData_of_found_error hfound hwrite] at hdata
    cases hdata
  | ok result =>
    rw [partData_of_found hfound hwrite] at hdata
    cases hdata
    obtain ⟨parts, hparts⟩ := hrest hnext
    have hlength : (w.take place).length = place := by
      rw [List.length_take]
      exact Nat.min_eq_left (Nat.le_of_lt (Delimiter.find?_lt hfound))
    refine ⟨w.take place, w.drop place, parts, (List.take_append_drop ..).symm,
      Content.length_le_of_write hfresh hwrite, ?_, hparts⟩
    rw [List.take_append_drop, hlength]
    exact (Delimiter.find?_eq_some_iff.mp hfound).2

/-- A step that goes on from a line has cut one off. -/
theorem line_of_advance (hnext : d.next s w true = .advance n d' s') (hstage : d.AtLine) :
    ∃ line, Line.Fits d.settings.maxLineLength line ∧
      Line.next d.settings.maxLineLength true w = .whole (Bytes.dropCr line) n ∧
      (w = line ++ Bytes.lf :: w.drop n ∨ w.drop n = []) := by
  rw [next_of_line hstage] at hnext
  cases hline : Line.next d.settings.maxLineLength true w with
  | incomplete =>
    rw [hline] at hnext
    cases hnext
  | tooLong =>
    rw [hline] at hnext
    cases hnext
  | whole content used =>
    rw [hline] at hnext
    obtain rfl := takeLine_advance hnext
    obtain ⟨line, hfits, rfl, hrest⟩ := Line.fits_of_next hline
    exact ⟨line, hfits, rfl, hrest.imp_right And.right⟩

theorem framedFrom_boundaryLine (hstage : d.stage = .boundaryLine)
    (hnext : d.next s w true = .advance n d' s') (hrest : d'.FramedFrom (w.drop n)) :
    ∃ parts, Framed d.settings d.delimiter parts w := by
  obtain ⟨line, hfits, hline, hcut⟩ := line_of_advance hnext (.inl hstage)
  rw [next_boundaryLine hstage hline, boundaryLine] at hnext
  cases hkind : BoundaryLine.ofLine d.delimiter (Bytes.dropCr line) with
  | malformed =>
    rw [hkind] at hnext
    cases hnext
  | closing =>
    obtain ⟨line', hfits', hcontent, hwhole⟩ := Line.fits_of_next hline
    refine ⟨[], line', hfits', ?_, ?_⟩
    · rw [← hcontent]
      exact BoundaryLine.ofLine_eq_closing_iff.mp hkind
    · rcases hwhole with hw | ⟨hw, -⟩
      · exact .inr ⟨_, hw⟩
      · exact .inl hw
  | opening =>
    rw [hkind] at hnext
    cases hnext
    have hheaders : FramedHeaders d.settings d.delimiter none (w.drop n) :=
      hrest FilePart.all_none
    rw [hcut.resolve_right hheaders.ne_nil]
    exact hheaders.framed hfits hkind

theorem framedFrom_headerLines (hm : d.delimiter ≠ []) {heading : Option Heading}
    (hstage : d.stage = .headerLines heading)
    (hfresh : FilePart.All (fun t => t.size = 0 ∧ t.limit = d.settings.maxFileSize)
      (Heading.part? heading))
    (hnext : d.next s w true = .advance n d' s') (hrest : d'.FramedFrom (w.drop n)) :
    FramedHeaders d.settings d.delimiter (heading.map Heading.label) w := by
  obtain ⟨line, hfits, hline, hcut⟩ := line_of_advance hnext (.inr ⟨heading, hstage⟩)
  rw [next_headerLines hstage hline] at hnext
  by_cases hempty : Bytes.dropCr line = []
  · cases heading with
    | none =>
      simp only [headerLine, hempty, List.isEmpty_nil, if_true] at hnext
      cases hnext
    | some heading =>
      simp only [headerLine, hempty, List.isEmpty_nil, if_true] at hnext
      cases hnext
      have hdata : FramedData d.settings d.delimiter heading.label.file.isSome (w.drop n) := by
        obtain ⟨name, _ | part⟩ := heading
        · exact hrest rfl
        · exact hrest (hfresh part rfl)
      rw [hcut.resolve_right (hdata.ne_nil hm)]
      exact ⟨[], line, w.drop n, heading.label, rfl, by simpa using hfits, by simp, hempty, rfl,
        by simpa using hdata⟩
  · simp only [headerLine, List.isEmpty_iff, hempty, if_false] at hnext
    cases herror : (Heading.read d.settings (Text.decode (Bytes.dropCr line)) heading s).error with
    | some e =>
      rw [herror] at hnext
      cases hnext
    | none =>
      rw [herror] at hnext
      cases hnext
      have hheaders := hrest (Heading.all_read
        (fun _ _ _ hcreate => (TempFile.create_spec hcreate).2) hfresh)
      rw [hcut.resolve_right hheaders.ne_nil]
      exact hheaders.cons hfits hempty (Heading.label_read herror)

/-- What is accepted is framed, from wherever the decoder is. -/
theorem framedFrom_of_complete (hm : d.delimiter ≠ [])
    (h : (d.run s w true).result = .ok .complete) : d.FramedFrom w := by
  induction d, s, w using run_induction true with
  | step d s w ih =>
    by_cases hended : d.stage = .ended
    · simp only [FramedFrom, hended]
    obtain ⟨n, d', s', hnext⟩ := advance_of_complete h hended
    have hrest {n d' s'} (hnext : d.next s w true = .advance n d' s') : d'.FramedFrom (w.drop n) :=
      ih n d' s' hnext ((goesOn_of_advance hnext).delimiter ▸ hm) (complete_of_advance h hnext)
    cases hstage : d.stage with
    | ended => exact absurd hstage hended
    | failed phase =>
      simp only [next, hstage] at hnext
      cases hnext
    | boundaryLine =>
      simp only [FramedFrom, hstage]
      exact framedFrom_boundaryLine hstage hnext (hrest hnext)
    | headerLines heading =>
      simp only [FramedFrom, hstage]
      exact fun hfresh => framedFrom_headerLines hm hstage hfresh hnext (hrest hnext)
    | partData name content =>
      simp only [FramedFrom, hstage]
      exact fun hfresh => framedData_of_complete hstage hfresh h hrest

end Decoder

/-! ## File names -/

namespace RawPart

variable {settings : Settings}

/-- How many file names its header lines have. Each of them takes a number. -/
def filenames (p : RawPart) : Nat := Label.filenames p.contents

theorem length_le_joinLines (lines : List Bytes) : lines.length ≤ (joinLines lines).length := by
  induction lines with
  | nil => exact Nat.zero_le _
  | cons line lines ih =>
    simp only [joinLines, List.flatMap_cons, List.length_append, List.length_cons] at ih ⊢
    omega

/-- Every file that a part names takes up at least one byte of it. -/
theorem filenames_le {marker : Bytes} {p : RawPart} (h : p.WellFormed settings marker) :
    p.filenames ≤ p.bytes.length := by
  have hsum : p.filenames ≤ (Label.dispositions p.contents).length :=
    Attribute.filenames_flatten_le h.inOrder
  have hlines : (Label.dispositions p.contents).length ≤ p.headers.length := by
    have hfilter := List.length_filterMap_le PartHeader.disposition? p.contents
    rwa [contents, List.length_map] at hfilter
  have hbytes : p.headers.length ≤ p.bytes.length := by
    have hjoin := length_le_joinLines (p.opening :: p.headers ++ [p.blank])
    simp only [bytes, List.length_append, List.length_cons] at hjoin ⊢
    omega
  omega

end RawPart

/-- Every file that a body names takes up at least one byte of it. -/
theorem Framed.filenames_le {settings : Settings} {marker body : Bytes} {parts : List RawPart}
    (h : Framed settings marker parts body) :
    Label.filenames (parts.flatMap RawPart.contents) ≤ body.length := by
  induction parts generalizing body with
  | nil => exact Nat.zero_le _
  | cons p parts ih =>
    obtain ⟨hp, rest, rfl, -, hrest⟩ := h
    rw [List.flatMap_cons, Label.filenames_append, List.length_append]
    exact Nat.add_le_add (RawPart.filenames_le hp) (ih hrest)

end Multipart

import Multipart.Proofs.Grammar
import Multipart.Proofs.HeaderText
import Multipart.Proofs.Utf8

/-!
# Writing bodies

How a sender writes parts down. A part is a label and data; a `Layout` is
what the sender may choose freely: how lines end, how words are spelt, and
which other header lines stand among those that matter. The header lines of
a part say its label, whatever its layout (`Layout.ofLines_contents`), and
what is written is framed (`framed_renderBody`): its data ends where the
sender ended it, since no delimiter stands in it.
-/

namespace Multipart

/-- A plain field or a file, with its data. -/
structure Part where
  label : Label
  data : Bytes

/-- A text that can stand between quotes in a header line. -/
structure Text.Quotable (text : List Char) : Prop where
  quote : '"' ∉ text
  lf : '\n' ∉ text

/-- A text that can be the value of a header line. -/
structure Text.IsValue (text : List Char) : Prop where
  trimmed : Trimmed text
  lf : '\n' ∉ text

/-- What can be sent as a part behind this delimiter. -/
structure Part.Sendable (marker : Bytes) (p : Part) : Prop where
  name : Text.Quotable p.label.name.toList
  clientName : ∀ file, p.label.file = some file → Text.Quotable file.1.toList
  contentType : ∀ file type, p.label.file = some file → file.2 = some type →
    Text.IsValue type.toList
  data : ¬marker <:+: p.data

/-! ## Lines -/

/-- What ends a line: a line feed, or a carriage return in front of one. -/
inductive LineEnd where
  | lf
  | crlf
  deriving DecidableEq, Repr

/-- A line with this end, without its line feed. -/
def LineEnd.after (content : Bytes) : LineEnd → Bytes
  | lf => content
  | crlf => content ++ [Bytes.cr]

/-- Bytes that are the content of every line they stand in. -/
structure Line.IsContent (content : Bytes) : Prop where
  lf : Bytes.lf ∉ content
  cr : ¬[Bytes.cr] <:+ content

/-- A header line that is passed over. -/
structure IdleLine where
  content : Bytes
  ending : LineEnd
  ne_nil : content ≠ []
  lf : Bytes.lf ∉ content
  cr : Bytes.cr ∉ content
  other : PartHeader.parse (Text.decode content) = .other

theorem LineEnd.prefix_after (ending : LineEnd) (content : Bytes) :
    content <+: ending.after content := by
  cases ending with
  | lf => exact List.prefix_refl _
  | crlf => exact List.prefix_append ..

namespace Line

variable {content : Bytes}

theorem IsContent.dropCr (h : IsContent content) (ending : LineEnd) :
    Bytes.dropCr (ending.after content) = content := by
  cases ending with
  | lf => exact Bytes.dropTail_of_not_suffix h.cr
  | crlf => exact Bytes.dropTail_append ..

theorem IsContent.lf_not_mem (h : IsContent content) (ending : LineEnd) :
    Bytes.lf ∉ ending.after content := by
  cases ending with
  | lf => exact h.lf
  | crlf =>
    rw [LineEnd.after, List.mem_append, not_or]
    exact ⟨h.lf, by decide⟩

theorem isContent_of_not_mem (hlf : Bytes.lf ∉ content) (hcr : Bytes.cr ∉ content) :
    IsContent content where
  lf := hlf
  cr h := hcr (h.subset (List.mem_singleton_self _))

theorem isContent_nil : IsContent [] := isContent_of_not_mem (by simp) (by simp)

theorem isContent_encode {text : List Char} (hlf : '\n' ∉ text) (hcr : text.getLast? ≠ some '\r') :
    IsContent (Text.encode text) where
  lf h := hlf (Text.mem_of_mem_encode (by decide) (by decide) h)
  cr h := hcr (Text.getLast?_of_suffix_encode (by decide) (by decide) h)

end Line

/-! ## Layouts -/

/-- The choices of a sender for one part. -/
structure Layout where
  opening : LineEnd
  front : List IdleLine
  disposition : Spelling PartHeader.dispositionName
  formData : Spelling PartHeader.formData
  name : Spelling Attribute.nameToken
  filename : Spelling Attribute.filenameToken
  dispositionEnd : LineEnd
  middle : List IdleLine
  contentType : Spelling PartHeader.contentTypeName
  contentTypeEnd : LineEnd
  /-- A content type for a plain field, which counts for nothing. -/
  plainType : Option { type : String // Text.IsValue type.toList }
  back : List IdleLine
  blank : LineEnd

namespace Layout

/-- The attributes that describe a part. -/
def attributes (l : Layout) (label : Label) : List Attribute :=
  ⟨l.name.text, label.name.toList⟩ ::
    match label.file with
    | none => []
    | some file => [⟨l.filename.text, file.1.toList⟩]

/-- The text of the Content-Disposition. -/
def dispositionText (l : Layout) (label : Label) : List Char :=
  PartHeader.line l.disposition.text (Attribute.writtenList l.formData.text (l.attributes label))

/-- The text of a Content-Type. -/
def contentTypeText (l : Layout) (type : String) : List Char :=
  PartHeader.line l.contentType.text type.toList

/-- The content type that is written, if one is. -/
def type? (l : Layout) (label : Label) : Option String :=
  match label.file with
  | none => l.plainType.map Subtype.val
  | some file => file.2

/-- The header lines of a part: what they hold and how they end. -/
def headers (l : Layout) (label : Label) : List (Bytes × LineEnd) :=
  l.front.map (fun idle => (idle.content, idle.ending)) ++
    (Text.encode (l.dispositionText label), l.dispositionEnd) ::
      (l.middle.map (fun idle => (idle.content, idle.ending)) ++
        (((l.type? label).map fun type =>
          (Text.encode (l.contentTypeText type), l.contentTypeEnd)).toList ++
            l.back.map fun idle => (idle.content, idle.ending)))

/-- A part as it is written. -/
def render (l : Layout) (marker : Bytes) (p : Part) : RawPart where
  opening := l.opening.after marker
  headers := (l.headers p.label).map fun header => header.2.after header.1
  blank := l.blank.after []
  data := p.data ++ Bytes.crlf

/-! ## What header lines say -/

section label

variable {marker : Bytes} {p : Part} (l : Layout)

theorem role_name (value : List Char) :
    Attribute.role ⟨l.name.text, value⟩ = .name := if_pos l.name.same

theorem role_filename (value : List Char) :
    Attribute.role ⟨l.filename.text, value⟩ = .filename := by
  have hother : Text.sameLetters l.filename.text Attribute.nameToken = false :=
    l.filename.not_same (by decide)
  rw [Attribute.role, if_neg (by simp [hother]), if_pos l.filename.same]

theorem role_formData : Attribute.role ⟨l.formData.text, []⟩ = .other := by
  have hname : Text.sameLetters l.formData.text Attribute.nameToken = false :=
    l.formData.not_same (by decide)
  have hfilename : Text.sameLetters l.formData.text Attribute.filenameToken = false :=
    l.formData.not_same (by decide)
  rw [Attribute.role, if_neg (by simp [hname]), if_neg (by simp [hfilename])]

theorem writable_attributes (h : p.Sendable marker) :
    ∀ a ∈ l.attributes p.label, a.Writable := by
  have hname : Attribute.Writable ⟨l.name.text, p.label.name.toList⟩ :=
    ⟨l.name.isWord (by decide), h.name.quote⟩
  rw [attributes]
  cases hfile : p.label.file with
  | none => simpa using hname
  | some file =>
    have hfilename : Attribute.Writable ⟨l.filename.text, file.1.toList⟩ :=
      ⟨l.filename.isWord (by decide), (h.clientName file hfile).quote⟩
    simpa using ⟨hname, hfilename⟩

/-- The attributes say the label without its content type. -/
theorem ofAttributes_attributes (label : Label) :
    Label.ofAttributes (⟨l.formData.text, []⟩ :: l.attributes label) =
      some (some ⟨label.name, label.file.map fun file => (file.1, none)⟩) := by
  simp only [Label.ofAttributes, List.foldlM_cons, Label.take, role_formData, attributes, role_name]
  cases label.file with
  | none => simp [Attribute.text]
  | some file => simp [Label.take, role_filename, Attribute.text]

theorem formData_isWord : Text.IsWord l.formData.text ∧ l.formData.text ≠ [] := by
  refine ⟨l.formData.isWord (by decide), ?_⟩
  intro hnil
  have hsame := l.formData.same
  rw [hnil] at hsame
  exact absurd hsame (by decide)

theorem parse_dispositionText (h : p.Sendable marker) :
    PartHeader.parse (Text.decode (Text.encode (l.dispositionText p.label))) =
      .disposition (⟨l.formData.text, []⟩ :: l.attributes p.label) := by
  obtain ⟨hword, hne⟩ := l.formData_isWord
  rw [Text.decode_encode, dispositionText, PartHeader.parse_disposition,
    Attribute.parseAll_written hword hne (l.writable_attributes h)]

theorem parse_contentTypeText {type : String} (h : Text.IsValue type.toList) :
    PartHeader.parse (Text.decode (Text.encode (l.contentTypeText type))) =
      .contentType type.toList := by
  rw [Text.decode_encode, contentTypeText, PartHeader.parse_contentType _ h.trimmed]

theorem isValue_type (h : p.Sendable marker) {type : String} (htype : l.type? p.label = some type) :
    Text.IsValue type.toList := by
  rw [type?] at htype
  cases hfile : p.label.file with
  | none =>
    simp only [hfile] at htype
    obtain ⟨value, -, rfl⟩ := Option.map_eq_some_iff.mp htype
    exact value.2
  | some file =>
    simp only [hfile] at htype
    exact h.contentType file type hfile htype

theorem foldlM_idle (idle : List IdleLine) (label : Option Label) :
    (idle.map IdleLine.content).foldlM Label.readLine label = some label := by
  induction idle with
  | nil => rfl
  | cons line idle ih =>
    rw [List.map_cons, List.foldlM_cons, Label.readLine, line.other]
    exact ih

theorem map_fst_headers (label : Label) :
    (l.headers label).map Prod.fst =
      l.front.map IdleLine.content ++ Text.encode (l.dispositionText label) ::
        (l.middle.map IdleLine.content ++
          (((l.type? label).map fun type => Text.encode (l.contentTypeText type)).toList ++
            l.back.map IdleLine.content)) := by
  simp only [headers, List.map_append, List.map_cons, List.map_map]
  cases l.type? label <;> rfl

/-- The content type, if it is written, completes the label. -/
theorem foldlM_type (h : p.Sendable marker) :
    (((l.type? p.label).map fun type => Text.encode (l.contentTypeText type)).toList).foldlM
      Label.readLine (some ⟨p.label.name, p.label.file.map fun file => (file.1, none)⟩) =
        some (some p.label) := by
  have hread {type : String} (hwritten : l.type? p.label = some type) (label : Option Label) :
      Label.readLine label (Text.encode (l.contentTypeText type)) =
        some (Label.withContentType label type) := by
    rw [Label.readLine, l.parse_contentTypeText (l.isValue_type h hwritten)]
    simp only [String.ofList_toList]
  rcases hlabel : p.label with ⟨name, file⟩
  rw [hlabel] at hread
  obtain _ | ⟨clientName, _ | type⟩ := file
  · -- a plain field has no content type to complete
    cases hwritten : l.type? ⟨name, none⟩ with
    | none => rfl
    | some type =>
      rw [Option.map_some, Option.toList_some, List.foldlM_cons, hread hwritten]
      rfl
  · rfl
  · have hwritten : l.type? ⟨name, some (clientName, some type)⟩ = some type := rfl
    simp only [hwritten, Option.map_some, Option.toList_some, List.foldlM_cons, hread hwritten]
    rfl

/-- They say the label of the part. -/
theorem ofLines_headers (h : p.Sendable marker) :
    Label.ofLines ((l.headers p.label).map Prod.fst) = some (some p.label) := by
  have hdisposition (label : Option Label) :
      Label.readLine label (Text.encode (l.dispositionText p.label)) =
        some (some ⟨p.label.name, p.label.file.map fun file => (file.1, none)⟩) := by
    rw [Label.readLine, l.parse_dispositionText h]
    exact l.ofAttributes_attributes p.label
  rw [map_fst_headers, Label.ofLines, List.foldlM_append, foldlM_idle, Option.bind_eq_bind,
    Option.bind_some, List.foldlM_cons, hdisposition, Option.bind_eq_bind, Option.bind_some,
    List.foldlM_append, foldlM_idle, Option.bind_eq_bind, Option.bind_some, List.foldlM_append,
    l.foldlM_type h, Option.bind_eq_bind, Option.bind_some, foldlM_idle]

/-- They name one file for a file, and none for a plain field. -/
theorem filenames_headers (h : p.Sendable marker) :
    Label.filenames ((l.headers p.label).map Prod.fst) = if p.label.file.isSome then 1 else 0 := by
  have hidle (idle : List IdleLine) : Label.filenames (idle.map IdleLine.content) = 0 := by
    refine Label.filenames_eq_zero ?_
    intro content hcontent
    obtain ⟨line, -, rfl⟩ := List.mem_map.mp hcontent
    rw [PartHeader.disposition?, line.other]
  have htype : Label.filenames
      ((l.type? p.label).map fun type => Text.encode (l.contentTypeText type)).toList = 0 := by
    refine Label.filenames_eq_zero ?_
    intro content hcontent
    obtain ⟨type, hwritten, rfl⟩ := Option.map_eq_some_iff.mp (Option.mem_toList.mp hcontent)
    rw [PartHeader.disposition?, l.parse_contentTypeText (l.isValue_type h hwritten)]
  have hdisposition : Label.filenames [Text.encode (l.dispositionText p.label)] =
      Attribute.filenames (⟨l.formData.text, []⟩ :: l.attributes p.label) := by
    simp [Label.filenames, Label.dispositions, PartHeader.disposition?, l.parse_dispositionText h]
  rw [map_fst_headers, Label.filenames_append, hidle, Label.filenames_cons, hdisposition,
    Label.filenames_append, hidle, Label.filenames_append, htype, hidle]
  cases hfile : p.label.file <;>
    simp [Attribute.filenames, attributes, hfile, role_formData, role_name, role_filename]

theorem last_line_ne {name value : List Char} (h : Text.Trimmed value) :
    (PartHeader.line name value).getLast? ≠ some '\r' := by
  have hsplit : PartHeader.line name value = (name ++ [':', ' ']) ++ value := by
    simp [PartHeader.line]
  rw [hsplit]
  rcases List.eq_nil_or_concat value with rfl | ⟨init, c, rfl⟩
  · simp
  · rw [List.concat_eq_append] at h ⊢
    rw [← List.append_assoc, List.getLast?_concat]
    rintro ⟨⟩
    exact absurd (h.last '\r' (List.getLast?_concat ..)) (by decide)

theorem lf_not_mem_line {word : List Char} (name : Spelling word) {value : List Char}
    (hword : Text.IsWord word ∧ Text.foldCase word = word) (hvalue : '\n' ∉ value) :
    '\n' ∉ PartHeader.line name.text value := by
  have hname : '\n' ∉ name.text := (name.isWord hword).not_mem (by decide)
  simp [PartHeader.line, hname, hvalue]

theorem lf_not_mem_attributes (h : p.Sendable marker) :
    '\n' ∉ Attribute.writtenList l.formData.text (l.attributes p.label) := by
  have hformData : '\n' ∉ l.formData.text := l.formData_isWord.1.not_mem (by decide)
  have hname : '\n' ∉ l.name.text := (l.name.isWord (by decide)).not_mem (by decide)
  have hfilename : '\n' ∉ l.filename.text := (l.filename.isWord (by decide)).not_mem (by decide)
  cases hfile : p.label.file with
  | none => simp [Attribute.writtenList, attributes, Attribute.written, hfile, hformData, hname,
      h.name.lf]
  | some file =>
    simp [Attribute.writtenList, attributes, Attribute.written, hfile, hformData, hname,
      hfilename, h.name.lf, (h.clientName file hfile).lf]

theorem encode_line_ne_nil (name value : List Char) :
    Text.encode (PartHeader.line name value) ≠ [] := by
  intro hnil
  have hback := Text.decode_encode (PartHeader.line name value)
  rw [hnil] at hback
  simp [PartHeader.line] at hback

/-- A header line holds something, and nothing that would end it early. -/
theorem isContent_headers (h : p.Sendable marker) :
    ∀ content ∈ (l.headers p.label).map Prod.fst, content ≠ [] ∧ Line.IsContent content := by
  have hidle {idle : List IdleLine} {content : Bytes} (hmem : content ∈ idle.map IdleLine.content) :
      content ≠ [] ∧ Line.IsContent content := by
    obtain ⟨line, -, rfl⟩ := List.mem_map.mp hmem
    exact ⟨line.ne_nil, Line.isContent_of_not_mem line.lf line.cr⟩
  intro content hmem
  rw [map_fst_headers, List.mem_append, List.mem_cons, List.mem_append, List.mem_append] at hmem
  rcases hmem with hfront | rfl | hmiddle | htype | hback
  · exact hidle hfront
  · have htrimmed := Attribute.trimmed_writtenList l.formData_isWord.1 (l.writable_attributes h)
    exact ⟨encode_line_ne_nil _ _, Line.isContent_encode
      (lf_not_mem_line _ (by decide) (l.lf_not_mem_attributes h)) (last_line_ne htrimmed)⟩
  · exact hidle hmiddle
  · obtain ⟨type, hwritten, rfl⟩ := Option.map_eq_some_iff.mp (Option.mem_toList.mp htype)
    have hvalue := l.isValue_type h hwritten
    exact ⟨encode_line_ne_nil _ _, Line.isContent_encode
      (lf_not_mem_line _ (by decide) hvalue.lf) (last_line_ne hvalue.trimmed)⟩
  · exact hidle hback

end label

end Layout

/-- Parts, each in its layout, and the closing line. -/
def renderBody (marker : Bytes) (sent : List (Part × Layout)) (closing : LineEnd) : Bytes :=
  sent.flatMap (fun x => (x.2.render marker x.1).bytes) ++
    (closing.after (marker ++ [Bytes.hyphen, Bytes.hyphen]) ++ [Bytes.lf])

/-- The settings leave room for a part in its layout. -/
structure Settings.Admits (settings : Settings) (marker : Bytes) (x : Part × Layout) : Prop where
  lines : ∀ line ∈ (x.2.render marker x.1).opening :: (x.2.render marker x.1).headers ++
    [(x.2.render marker x.1).blank], line.length ≤ settings.maxLineLength
  data : x.1.data.length ≤ settings.ceiling x.1.label.file.isSome

/-! ## What is written is framed -/

section framed

variable {settings : Settings} {marker : Bytes}

/-- Data without a delimiter in it ends at the one behind it: no line end is
part of a delimiter. -/
theorem leftmost_of_not_infix (hlf : Bytes.lf ∉ marker) (hcr : Bytes.cr ∉ marker)
    {data rest : Bytes} (hdata : ¬marker <:+: data) (hrest : marker <+: rest) :
    Delimiter.Leftmost marker (data ++ Bytes.crlf ++ rest) (data ++ Bytes.crlf).length := by
  refine ⟨by rwa [Delimiter.OccursAt, List.drop_left], ?_⟩
  intro place hplace hocc
  rw [List.append_assoc] at hocc
  by_cases hinside : place + marker.length ≤ data.length
  · have hocc' := (Delimiter.occursAt_append_iff hinside).mp hocc
    exact hdata (hocc'.isInfix.trans (List.drop_suffix ..).isInfix)
  · -- a delimiter that starts here reaches over the line end
    obtain ⟨behind, hbehind⟩ := hocc
    have hbyte (i : Nat) (hi : i < marker.length) :
        marker[i]? = (data ++ (Bytes.crlf ++ rest))[place + i]? := by
      rw [← List.getElem?_drop, ← hbehind, List.getElem?_append_left hi]
    have hlength : (data ++ Bytes.crlf).length = data.length + 2 := List.length_append
    rcases Nat.lt_or_ge data.length place with hlate | hearly
    · have hplace' : place + 0 = data.length + 1 := by omega
      have hfirst := hbyte 0 (by
        rw [List.length_pos_iff]
        rintro rfl
        exact hdata (List.nil_infix ..))
      rw [hplace', List.getElem?_append_right (by omega), Nat.add_sub_cancel_left] at hfirst
      exact hlf (List.mem_of_getElem? hfirst)
    · have hcut := hbyte (data.length - place) (by omega)
      rw [Nat.add_sub_cancel' hearly, List.getElem?_append_right (Nat.le_refl _),
        Nat.sub_self] at hcut
      exact hcr (List.mem_of_getElem? hcut)

theorem contents_render (l : Layout) {p : Part} (h : p.Sendable marker) :
    (l.render marker p).contents = (l.headers p.label).map Prod.fst := by
  rw [RawPart.contents, Layout.render, List.map_map]
  refine List.map_congr_left ?_
  intro header hheader
  exact (l.isContent_headers h _ (List.mem_map_of_mem hheader)).2.dropCr header.2

theorem wellFormed_render (hm : Line.IsContent marker) {p : Part} {l : Layout}
    (h : p.Sendable marker) (hadmits : settings.Admits marker (p, l)) :
    (l.render marker p).WellFormed settings marker := by
  have hopening : Bytes.dropCr (l.render marker p).opening = marker := hm.dropCr l.opening
  have hcontents := contents_render l h
  have hdata : Bytes.trimCrlf (l.render marker p).data = p.data := Bytes.dropTail_append ..
  have hlf : ∀ line ∈ (l.render marker p).opening :: (l.render marker p).headers ++
      [(l.render marker p).blank], Bytes.lf ∉ line := by
    intro line hline
    rw [List.cons_append, List.mem_cons, List.mem_append, List.mem_singleton] at hline
    rcases hline with rfl | hheader | rfl
    · exact hm.lf_not_mem l.opening
    · obtain ⟨header, hmem, rfl⟩ := List.mem_map.mp hheader
      exact (l.isContent_headers h _ (List.mem_map_of_mem hmem)).2.lf_not_mem header.2
    · exact Line.isContent_nil.lf_not_mem l.blank
  refine RawPart.wellFormed_of_label p.label
    (fun line hline => ⟨hlf line hline, hadmits.lines line hline⟩) ?_ ?_ ?_
    (Line.isContent_nil.dropCr l.blank) ?_ ?_
  · simp [hopening]
  · rw [hopening]
    simp
  · rw [hcontents]
    exact fun content hcontent => (l.isContent_headers h content hcontent).1
  · rw [hcontents]
    exact l.ofLines_headers h
  · rw [hdata]
    exact hadmits.data

theorem prefix_renderBody (sent : List (Part × Layout)) (closing : LineEnd) :
    marker <+: renderBody marker sent closing := by
  cases sent with
  | nil =>
    have hline := (List.prefix_append marker [Bytes.hyphen, Bytes.hyphen]).trans
      (closing.prefix_after _)
    exact hline.trans (List.prefix_append ..)
  | cons x sent =>
    have hopening := x.2.opening.prefix_after marker
    refine hopening.trans ?_
    simp [renderBody, RawPart.bytes, joinLines, Layout.render]

/-- What is written is framed. -/
theorem framed_renderBody (hlf : Bytes.lf ∉ marker) (hcr : Bytes.cr ∉ marker)
    {sent : List (Part × Layout)} {closing : LineEnd}
    (h : ∀ x ∈ sent, x.1.Sendable marker) (hadmits : ∀ x ∈ sent, settings.Admits marker x)
    (hclosing : (closing.after (marker ++ [Bytes.hyphen, Bytes.hyphen])).length ≤
      settings.maxLineLength) :
    Framed settings marker (sent.map fun x => x.2.render marker x.1)
      (renderBody marker sent closing) := by
  induction sent with
  | nil =>
    have hcontent : Line.IsContent (marker ++ [Bytes.hyphen, Bytes.hyphen]) :=
      Line.isContent_of_not_mem (by simp [hlf]; decide) (by simp [hcr]; decide)
    exact ⟨_, ⟨hcontent.lf_not_mem closing, hclosing⟩, hcontent.dropCr closing, .inr ⟨[], rfl⟩⟩
  | cons x sent ih =>
    obtain ⟨hx, hsent⟩ := List.forall_mem_cons.mp h
    obtain ⟨hxadmits, hsentadmits⟩ := List.forall_mem_cons.mp hadmits
    refine ⟨wellFormed_render (Line.isContent_of_not_mem hlf hcr) hx hxadmits,
      renderBody marker sent closing, ?_, ?_, ih hsent hsentadmits⟩
    · simp [renderBody]
    · exact leftmost_of_not_infix hlf hcr hx.data (prefix_renderBody sent closing)

end framed

end Multipart

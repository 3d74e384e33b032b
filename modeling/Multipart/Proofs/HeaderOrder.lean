import Mathlib.Data.List.Perm.Basic
import Multipart.Proofs.BodyEnd
import Multipart.Proofs.HeaderBlocks

/-!
# The order of header lines

A Content-Type counts if it stands behind the Content-Disposition that it
belongs to. As long as it does, the order of the header lines of a file
makes no difference to the form (`Decoder.decodeBody_perm_headers`). In front
of it, it is lost (`Decoder.contentType_lost_in_front`).

A body whose part is exchanged for one with the same data stays framed
(`Framed.exchange`), since the data in front of a part ends at its first
bytes, which are those of the delimiter.
-/

namespace Multipart

/-! ## Parts that are exchanged -/

/-- Where data ends does not depend on what stands behind the delimiter. -/
theorem Delimiter.leftmost_append_congr {marker data rest rest' : Bytes} (h : marker <+: rest)
    (h' : marker <+: rest') :
    Leftmost marker (data ++ rest) data.length ↔ Leftmost marker (data ++ rest') data.length := by
  obtain ⟨more, rfl⟩ := h
  obtain ⟨more', rfl⟩ := h'
  have hfits : data.length + marker.length ≤ (data ++ marker).length := by
    rw [List.length_append]
  rw [← List.append_assoc, ← List.append_assoc, leftmost_append_iff hfits,
    leftmost_append_iff hfits]

namespace Framed

variable {settings : Settings} {marker body rest : Bytes} {before after parts : List RawPart}
  {p p' : RawPart}

theorem marker_prefix (h : Framed settings marker parts body) : marker <+: body := by
  cases parts with
  | nil => exact (List.prefix_append ..).trans (Line.StartsWith.content_prefix h)
  | cons p parts =>
    obtain ⟨hp, rest, rfl, -⟩ := h
    rw [RawPart.bytes_append]
    exact hp.opening.trans ((Bytes.dropTail_prefix ..).trans (List.prefix_append ..))

theorem exchange
    (h : Framed settings marker (before ++ p :: after)
      (before.flatMap RawPart.bytes ++ (p.bytes ++ rest)))
    (hp' : p'.WellFormed settings marker) (hdata : p'.data = p.data) :
    Framed settings marker (before ++ p' :: after)
      (before.flatMap RawPart.bytes ++ (p'.bytes ++ rest)) := by
  induction before with
  | nil =>
    obtain ⟨-, rest', heq, hleft, hrest⟩ := h
    obtain rfl : rest = rest' := List.append_cancel_left heq
    exact ⟨hp', rest, rfl, hdata ▸ hleft, hrest⟩
  | cons q before ih =>
    obtain ⟨hq, rest', heq, hleft, hrest⟩ := h
    rw [List.flatMap_cons, List.append_assoc] at heq ⊢
    obtain rfl := List.append_cancel_left heq
    have hrest' := ih hrest
    exact ⟨hq, _, rfl, (Delimiter.leftmost_append_congr hrest.marker_prefix
      hrest'.marker_prefix).mp hleft, hrest'⟩

/-- The part is one of those of the body. -/
theorem wellFormed (h : Framed settings marker (before ++ p :: after) body) :
    p.WellFormed settings marker := by
  induction before generalizing body with
  | nil => exact h.1
  | cons q before ih =>
    obtain ⟨-, rest, -, -, hrest⟩ := h
    exact ih hrest

end Framed

/-! ## Header lines in another order -/

namespace Label

variable {lines lines' : List Bytes}

/-- A Content-Disposition stands in front of every Content-Type. -/
def TypeBehind (lines : List Bytes) : Prop :=
  ∃ front line back, lines = front ++ line :: back ∧ PartHeader.disposition? line ≠ none ∧
    front.filterMap PartHeader.contentType? = []

theorem dispositions_perm (h : lines.Perm lines') (hone : (dispositions lines').length = 1) :
    dispositions lines = dispositions lines' := by
  obtain ⟨attributes, hsingle⟩ := List.length_eq_one_iff.mp hone
  have hperm : (dispositions lines).Perm (dispositions lines') := h.filterMap _
  rw [hsingle] at hperm ⊢
  exact List.perm_singleton.mp hperm

theorem lastDisposition_perm (h : lines.Perm lines') (hone : (dispositions lines').length = 1) :
    lastDisposition lines = lastDisposition lines' := by
  rw [lastDisposition, dispositions_perm h hone]
  rfl

theorem filenames_perm (h : lines.Perm lines') (hone : (dispositions lines').length = 1) :
    filenames lines = filenames lines' := by
  rw [filenames, dispositions_perm h hone]
  rfl

/-- One type at most is the same type in any order. -/
theorem types_perm (h : lines.Perm lines') {type? : Option String}
    (htype : lines'.filterMap PartHeader.contentType? = type?.toList) :
    lines.filterMap PartHeader.contentType? = type?.toList := by
  have hperm := h.filterMap PartHeader.contentType?
  rw [htype] at hperm
  cases type? with
  | none => exact List.perm_nil.mp hperm
  | some type => exact List.perm_singleton.mp hperm

theorem contentType?_of_disposition {line : Bytes} (h : PartHeader.disposition? line ≠ none) :
    PartHeader.contentType? line = none := by
  unfold PartHeader.disposition? at h
  unfold PartHeader.contentType?
  split at h
  · next hparse => rw [hparse]
  · exact absurd rfl h

/-- The type is the last one behind the last Content-Disposition. -/
theorem declaredType_split {front back : List Bytes} {line : Bytes}
    (hline : PartHeader.disposition? line ≠ none) (hback : dispositions back = []) :
    declaredType (front ++ line :: back) = (back.filterMap PartHeader.contentType?).getLast? := by
  induction back using List.reverseRecOn with
  | nil =>
    obtain ⟨attributes, hthis⟩ := Option.ne_none_iff_exists'.mp hline
    exact declaredType_disposition hthis front
  | append_singleton back l ih =>
    rw [dispositions, List.filterMap_append, List.append_eq_nil_iff] at hback
    have hl : PartHeader.disposition? l = none := by simpa using hback.2
    rw [← List.cons_append, ← List.append_assoc, declaredType_concat hl, ih hback.1,
      List.filterMap_append]
    cases htype : PartHeader.contentType? l with
    | none => simp [htype]
    | some value => simp [htype]

/-- Behind the only Content-Disposition, the only Content-Type counts. -/
theorem declaredType_of_typeBehind (hone : (dispositions lines).length = 1)
    (hbehind : TypeBehind lines) {type? : Option String}
    (htype : lines.filterMap PartHeader.contentType? = type?.toList) :
    declaredType lines = type? := by
  obtain ⟨front, line, back, rfl, hline, hfront⟩ := hbehind
  have hback : dispositions back = [] := by
    obtain ⟨attributes, hthis⟩ := Option.ne_none_iff_exists'.mp hline
    rw [dispositions, List.filterMap_append, List.length_append,
      List.filterMap_cons_some hthis, List.length_cons] at hone
    exact List.eq_nil_of_length_eq_zero (by rw [dispositions]; omega)
  rw [List.filterMap_append, hfront, List.nil_append,
    List.filterMap_cons_none (contentType?_of_disposition hline)] at htype
  rw [declaredType_split hline hback, htype]
  cases type? <;> rfl

end Label

namespace RawPart

variable {settings : Settings} {marker : Bytes} {p : RawPart} {headers : List Bytes}

theorem WellFormed.perm (hp : p.WellFormed settings marker) (hperm : headers.Perm p.headers)
    (hone : (Label.dispositions p.contents).length = 1) :
    { p with headers }.WellFormed settings marker := by
  have hcontents : (headers.map Bytes.dropCr).Perm p.contents := hperm.map _
  have hsame : Label.dispositions { p with headers }.contents = Label.dispositions p.contents :=
    Label.dispositions_perm hcontents hone
  have hlast : Label.lastDisposition { p with headers }.contents =
      Label.lastDisposition p.contents := Label.lastDisposition_perm hcontents hone
  have hisFile : { p with headers }.IsFile ↔ p.IsFile := by rw [IsFile, IsFile, hlast]
  constructor
  · intro line hline
    exact hp.fits line (by simpa [hperm.mem_iff] using hline)
  · exact hp.opening
  · exact hp.notClosing
  · intro content hcontent
    exact hp.headers content (hcontents.mem_iff.mp hcontent)
  · exact hp.blank
  · rw [hsame]
    exact hp.inOrder
  · rw [hlast]
    exact hp.named
  · exact fun h => hp.file (hisFile.mp h)
  · exact fun h => hp.plain (mt hisFile.mpr h)

/-- What a file part with one Content-Disposition says, if its Content-Type stands behind
that. -/
theorem WellFormed.label_of_typeBehind (hp : p.WellFormed settings marker) (hfile : p.IsFile)
    (hone : (Label.dispositions p.contents).length = 1) (hbehind : Label.TypeBehind p.contents)
    {type? : Option String} (htype : p.contents.filterMap PartHeader.contentType? = type?.toList) :
    ∃ name clientName, Attribute.last? .name (Label.lastDisposition p.contents) = some name ∧
      Attribute.last? .filename (Label.lastDisposition p.contents) = some clientName ∧
      p.label? = some ⟨name, some (clientName, type?)⟩ := by
  obtain ⟨label, hlabel, -⟩ := hp.label
  obtain ⟨name, hname⟩ := Option.isSome_iff_exists.mp (Attribute.isSome_last?.mpr hp.named)
  obtain ⟨clientName, hclient⟩ := Option.isSome_iff_exists.mp (Attribute.isSome_last?.mpr hfile)
  refine ⟨name, clientName, hname, hclient, ?_⟩
  rw [label?, hlabel, Label.ofLines_eq hlabel, hname, hclient,
    Label.declaredType_of_typeBehind hone hbehind htype]
  rfl

end RawPart

/-! ## The type of a file in the form -/

namespace Form

variable {form : Form} {name other : String} {f : StoredFile}

theorem contentTypeKey_mem (name : String) (f : StoredFile) :
    (contentTypeKey name, f.contentType.getD "") ∈ fileVariables name f := by
  simp [fileVariables]

/-- The file of a field has this type, and so says its variable. -/
def Declares (form : Form) (name : String) (type? : Option String) : Prop :=
  (∃ f, form.files.get? name = some f ∧ f.contentType = type?) ∧
    form.vars.get? (contentTypeKey name) = some (type?.getD "")

theorem declares_withFile (form : Form) (name : String) (f : StoredFile) :
    (form.withFile name f).Declares name f.contentType := by
  constructor
  · exact ⟨f, by simp [withFile, OrderedMap.get?_insert], rfl⟩
  · have hwrite := lastWrite?_of_mem (nodup_keys_fileVariables name f) (contentTypeKey_mem name f)
    simp only [withFile, OrderedMap.get?_foldl_insert, hwrite, Option.some_or]

theorem Declares.withFile {type? : Option String} (h : form.Declares name type?)
    (hother : other ≠ name) (f : StoredFile) : (form.withFile other f).Declares name type? := by
  obtain ⟨⟨g, hg, htype⟩, hvar⟩ := h
  have hkey : contentTypeKey name ∉ (fileVariables other f).map Prod.fst := by
    intro hkey
    exact hother (name_eq_of_key hkey (List.mem_map_of_mem (contentTypeKey_mem name f)))
  refine ⟨⟨g, ?_, htype⟩, ?_⟩
  · rw [Form.withFile, OrderedMap.get?_insert, if_neg (Ne.symm hother)]
    exact hg
  · simp only [Form.withFile, OrderedMap.get?_foldl_insert, lastWrite?_eq_none hkey, Option.none_or]
    exact hvar

theorem Declares.publishField {type? : Option String} (h : form.Declares name type?)
    (hother : other ≠ contentTypeKey name) (value : Bytes) :
    (form.publishField other value).Declares name type? := by
  refine ⟨h.1, ?_⟩
  rw [Form.publishField, OrderedMap.get?_insert, if_neg (Ne.symm hother)]
  exact h.2

end Form

namespace RawPart

variable {o : Origin} {form : Form} {name clientName : String} {type? : Option String}
  {before after : List RawPart} {p : RawPart}

/-- No part belongs to this field, or writes the variable of its type. -/
def Spare (name : String) (parts : List RawPart) : Prop :=
  ∀ q ∈ parts, ∀ label, q.label? = some label →
    label.name ≠ name ∧ label.name ≠ Form.contentTypeKey name

theorem declares_publishAll (hspare : Spare name after) (h : form.Declares name type?)
    (asked : Nat) : (publishAll o asked after form).Declares name type? := by
  induction after generalizing form asked with
  | nil => exact h
  | cons q after ih =>
    refine ih (fun q' hq' => hspare q' (List.mem_cons_of_mem _ hq')) ?_ _
    rw [publish]
    cases hlabel : q.label? with
    | none => exact h
    | some label =>
      obtain ⟨hname, hkey⟩ := hspare q List.mem_cons_self label hlabel
      obtain ⟨other, _ | ⟨otherName, contentType⟩⟩ := label
      · exact h.publishField hkey _
      · exact h.withFile hname _

/-- The last file of a field is the one with the type that it says. -/
theorem declares_of_label (hlabel : p.label? = some ⟨name, some (clientName, type?)⟩)
    (hspare : Spare name after) (asked : Nat) (form : Form) :
    (publishAll o asked (before ++ p :: after) form).Declares name type? := by
  induction before generalizing form asked with
  | nil =>
    refine declares_publishAll hspare ?_ _
    rw [publish, hlabel]
    exact Form.declares_withFile ..
  | cons q before ih => exact ih _ _

/-- Parts that say the same and have the same data are published alike. -/
theorem publishAll_exchange {p' : RawPart} (hlabel : p'.label? = p.label?)
    (hcount : p'.filenames = p.filenames) (hdata : p'.data = p.data) (asked : Nat) (form : Form) :
    publishAll o asked (before ++ p' :: after) form =
      publishAll o asked (before ++ p :: after) form := by
  induction before generalizing form asked with
  | nil => simp only [List.nil_append, publishAll, publish, hlabel, hcount, hdata]
  | cons q before ih => exact ih _ _

end RawPart

/-! ## Bodies -/

theorem Origin.Alike.accepts {o o' : Origin} (h : o.Alike o') {count : Nat}
    (haccepts : o.Accepts count) : o'.Accepts count := by
  intro k hk
  obtain ⟨l, hl⟩ := haccepts k hk
  rcases h.opens k with ⟨-, l', -, hl'⟩ | ⟨cause, hcause, -⟩
  · exact ⟨l', hl'⟩
  · rw [hl] at hcause
    cases hcause

namespace Decoder

variable {d : Decoder} {s s' : Storage} {token : String} {settings : Settings} {r r' : BodyReader}
  {before after : List RawPart} {p : RawPart} {headers : List Bytes} {rest : Bytes}
  {type? : Option String}

/-- The header lines of a file part, one of which is a Content-Disposition and at most one
a Content-Type, can stand in any order in which the Content-Type is behind the
Content-Disposition. The form is the same up to the names of temp files, and the file
has the type that was declared, or none; so says the variable of its field, unless a
later part belongs to the field or writes the variable. -/
theorem decodeBody_perm_headers (hnew : new token settings = .ok d)
    (hfresh : (settings.origin s).Fresh) (hfresh' : (settings.origin s').Fresh)
    (halike : (settings.origin s).Alike (settings.origin s'))
    (hbody : Framed settings (Delimiter.ofToken token) (before ++ p :: after)
      (before.flatMap RawPart.bytes ++ (p.bytes ++ rest)))
    (haccepts : (settings.origin s).Accepts
      (Label.filenames ((before ++ p :: after).flatMap RawPart.contents)))
    (hfile : p.IsFile) (hone : (Label.dispositions p.contents).length = 1)
    (htype : p.contents.filterMap PartHeader.contentType? = type?.toList)
    (hperm : headers.Perm p.headers) (hbehind : Label.TypeBehind p.contents)
    (hbehind' : Label.TypeBehind (headers.map Bytes.dropCr))
    (hsteady : r.Steady) (hsteady' : r'.Steady) (hwhole : r.failure = none)
    (hwhole' : r'.failure = none)
    (hunread : r.unread = before.flatMap RawPart.bytes ++ (p.bytes ++ rest))
    (hunread' : r'.unread =
      before.flatMap RawPart.bytes ++ ({ p with headers }.bytes ++ rest)) :
    ∃ form form' name clientName, (d.decodeBody s r).result = .ok form ∧
      (d.decodeBody s' r').result = .ok form' ∧
      form.Twin (settings.origin s) (settings.origin s') form' ∧
      p.label? = some ⟨name, some (clientName, type?)⟩ ∧
      (RawPart.Spare name after → form.Declares name type? ∧ form'.Declares name type?) := by
  let p' : RawPart := { p with headers }
  have hp := hbody.wellFormed
  have hp' : p'.WellFormed settings (Delimiter.ofToken token) := hp.perm hperm hone
  have hcontents : p'.contents.Perm p.contents := hperm.map _
  have hlast := Label.lastDisposition_perm hcontents hone
  have hcount : p'.filenames = p.filenames := Label.filenames_perm hcontents hone
  have hone' : (Label.dispositions p'.contents).length = 1 := by
    rwa [Label.dispositions_perm hcontents hone]
  have hfile' : p'.IsFile := by
    rwa [RawPart.IsFile, hlast]
  -- Both parts say the same.
  obtain ⟨name, clientName, hname, hclient, hlabel⟩ :=
    hp.label_of_typeBehind hfile hone hbehind htype
  obtain ⟨name', clientName', hname', hclient', hlabel'⟩ :=
    hp'.label_of_typeBehind hfile' hone' hbehind' (Label.types_perm hcontents htype)
  rw [hlast] at hname' hclient'
  obtain rfl : name = name' := Option.some.inj (hname.symm.trans hname')
  obtain rfl : clientName = clientName' := Option.some.inj (hclient.symm.trans hclient')
  have hsame (asked : Nat) (form : Form) :
      RawPart.publishAll (settings.origin s') asked (before ++ p' :: after) form =
        RawPart.publishAll (settings.origin s') asked (before ++ p :: after) form :=
    RawPart.publishAll_exchange (hlabel'.trans hlabel.symm) hcount rfl asked form
  have haccepts' : (settings.origin s').Accepts
      (Label.filenames ((before ++ p' :: after).flatMap RawPart.contents)) := by
    have hall : Label.filenames ((before ++ p' :: after).flatMap RawPart.contents) =
        Label.filenames ((before ++ p :: after).flatMap RawPart.contents) := by
      simp only [List.flatMap_append, List.flatMap_cons, Label.filenames_append]
      rw [← RawPart.filenames, ← RawPart.filenames, hcount]
    rw [hall]
    exact halike.accepts haccepts
  obtain ⟨-, honce, -⟩ := finish_of_framed (s := s) hnew hbody haccepts
  obtain ⟨-, honce₁, -⟩ := finish_of_framed (s := s') hnew hbody (halike.accepts haccepts)
  obtain ⟨-, honce', -⟩ := finish_of_framed (s := s') hnew (hbody.exchange hp' rfl) haccepts'
  have htwin := (finish_twin hnew hfresh hfresh' halike
    (InputBuffer.empty.push (before.flatMap RawPart.bytes ++ (p.bytes ++ rest)))).1
  rw [honce, honce₁] at htwin
  rw [hsame] at honce'
  have hdecoded := (decodeBody_of_steady (s := s) hnew hsteady hwhole).1
  have hdecoded' := (decodeBody_of_steady (s := s') hnew hsteady' hwhole').1
  rw [hunread, honce] at hdecoded
  rw [hunread', honce'] at hdecoded'
  refine ⟨_, _, name, clientName, hdecoded, hdecoded', ?_, hlabel, fun hspare => ⟨?_, ?_⟩⟩
  · cases htwin with
    | ok h => exact h
  · exact RawPart.declares_of_label hlabel hspare 0 _
  · exact RawPart.declares_of_label hlabel hspare 0 _

/-- A file with a header line of another kind, which comes first in one body and last in
the other. -/
theorem decodeBody_perm_headers_of_file :
    let s : Storage := ⟨.ofFolders [["tmp"]], ⟨1, 0, 0⟩⟩
    let s' : Storage := ⟨.ofFolders [["tmp"]], ⟨2, 0, 0⟩⟩
    let body := Text.toBytes ("--B\nContent-Disposition: x; name=a; filename=f\n" ++
      "Content-Type: t\nX: y\n\nx\r\n--B--")
    let body' := Text.toBytes ("--B\nX: y\nContent-Disposition: x; name=a; filename=f\n" ++
      "Content-Type: t\n\nx\r\n--B--")
    ∃ d form form', new "B" .standard = .ok d ∧
      (d.decodeBody s (.ofBytes body (some 20) none)).result = .ok form ∧
      (d.decodeBody s' (.ofBytes body' (some 1) none)).result = .ok form' ∧
      form.Twin (Settings.standard.origin s) (Settings.standard.origin s') form' ∧
      form.Declares "a" (some "t") ∧ form'.Declares "a" (some "t") := by
  intro s s' body body'
  have hnew := new_of_ne .standard (show "B" ≠ "" by decide)
  let disposition := Text.toBytes "Content-Disposition: x; name=a; filename=f"
  let type := Text.toBytes "Content-Type: t"
  let other := Text.toBytes "X: y"
  let p : RawPart := ⟨Text.toBytes "--B", [disposition, type, other], [], Text.toBytes "x\r\n"⟩
  have hlabel : p.label? = some ⟨"a", some ("f", some "t")⟩ := by decide +kernel
  have hbody : Framed .standard (Delimiter.ofToken "B") ([] ++ [p])
      (([] : List RawPart).flatMap RawPart.bytes ++ (p.bytes ++ Text.toBytes "--B--")) := by
    decide +kernel
  have hsaid : Label.ofLines p.contents = some (some ⟨"a", some ("f", some "t")⟩) := by
    decide +kernel
  have htype : p.contents.filterMap PartHeader.contentType? = (some "t").toList := by
    decide +kernel
  have hperm : ([other] ++ [disposition, type]).Perm p.headers :=
    List.perm_append_comm.trans (.refl _)
  have hfresh : (Settings.standard.origin s).Fresh := fun _ _ _ => rfl
  have hfresh' : (Settings.standard.origin s').Fresh := fun _ _ _ => rfl
  let r := BodyReader.ofBytes body (some 20) none
  let r' := BodyReader.ofBytes body' (some 1) none
  have hsteady : r.Steady := BodyReader.steady_ofBytes (by decide)
  have hsteady' : r'.Steady := BodyReader.steady_ofBytes (by decide)
  obtain ⟨form, form', name, clientName, hform, hform', htwin, hname, hdeclares⟩ :=
    decodeBody_perm_headers hnew hfresh hfresh'
      (Settings.standard.alike_of_processes 1 2 (by decide)) hbody
      (Origin.accepts_of_isOk (by decide +kernel)) ((Label.reads_of_ofLines hsaid).2.2.mp rfl)
      (by decide +kernel) htype hperm ⟨[], disposition, _, rfl, by decide +kernel, rfl⟩
      ⟨[other], disposition, _, rfl, by decide +kernel, by decide +kernel⟩ hsteady hsteady' rfl rfl
      (by decide +kernel) (by decide +kernel)
  obtain rfl : "a" = name := by
    rw [hlabel] at hname
    exact congrArg Label.name (Option.some.inj hname)
  obtain ⟨hfile, hfile'⟩ := hdeclares nofun
  exact ⟨_, form, form', hnew, hform, hform', htwin, hfile, hfile'⟩

/-- A Content-Type in front of its Content-Disposition is lost. -/
theorem contentType_lost_in_front :
    let s : Storage := ⟨.ofFolders [["tmp"]], ⟨1, 0, 0⟩⟩
    let front := Text.toBytes ("--B\r\nContent-Type: text/plain\r\n" ++
      "Content-Disposition: form-data; name=\"a\"; filename=\"f\"\r\n\r\nx\r\n--B--\r\n")
    let behind := Text.toBytes ("--B\r\n" ++
      "Content-Disposition: form-data; name=\"a\"; filename=\"f\"\r\n" ++
      "Content-Type: text/plain\r\n\r\nx\r\n--B--\r\n")
    ∃ d form form', new "B" .standard = .ok d ∧
      (d.decodeBody s (.ofBytes front none none)).result = .ok form ∧
      (d.decodeBody s (.ofBytes behind none none)).result = .ok form' ∧
      form.Declares "a" none ∧ form'.Declares "a" (some "text/plain") := by
  intro s front behind
  have hnew := new_of_ne .standard (show "B" ≠ "" by decide)
  let disposition := Text.toBytes "Content-Disposition: form-data; name=\"a\"; filename=\"f\"\r"
  let type := Text.toBytes "Content-Type: text/plain\r"
  let part (headers : List Bytes) : RawPart :=
    ⟨Text.toBytes "--B\r", headers, Text.toBytes "\r", Text.toBytes "x\r\n"⟩
  have hdecoded (headers : List Bytes) (type? : Option String) (body : Bytes)
      (hbody : Framed .standard (Delimiter.ofToken "B") [part headers] body)
      (hlabel : (part headers).label? = some ⟨"a", some ("f", type?)⟩)
      (hcount : (part headers).filenames = 1) :
      ∃ form, ((Decoder.mk .standard (Delimiter.ofToken "B") .boundaryLine
        (.forFolder Settings.standard.uploadDir)).decodeBody s (.ofBytes body none none)).result =
          .ok form ∧ form.Declares "a" type? := by
    have haccepts : (Settings.standard.origin s).Accepts
        (Label.filenames ([part headers].flatMap RawPart.contents)) := by
      rw [List.flatMap_singleton, ← RawPart.filenames, hcount]
      exact Origin.accepts_of_isOk (by decide +kernel)
    obtain ⟨-, honce, -⟩ := finish_of_framed hnew hbody haccepts
    have hsteady : (BodyReader.ofBytes body none none).Steady :=
      BodyReader.steady_ofBytes (by decide)
    refine ⟨_, (decodeBody_of_steady hnew hsteady rfl).1.trans honce, ?_⟩
    have hspare : RawPart.Spare "a" [] := fun _ hq => absurd hq List.not_mem_nil
    show Form.Declares (RawPart.publishAll _ 0 ([] ++ part headers :: []) _) "a" type?
    exact RawPart.declares_of_label hlabel hspare 0 _
  obtain ⟨form, hform, hlost⟩ := hdecoded [type, disposition] none front (by decide +kernel)
    (by decide +kernel) (by decide +kernel)
  obtain ⟨form', hform', htype⟩ := hdecoded [disposition, type] (some "text/plain") behind
    (by decide +kernel) (by decide +kernel) (by decide +kernel)
  exact ⟨_, form, form', hnew, hform, hform', hlost, htype⟩

end Decoder

end Multipart

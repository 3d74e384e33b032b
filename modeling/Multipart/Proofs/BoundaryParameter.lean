import Multipart.Proofs.Decoding
import Multipart.Proofs.HeaderText
import Multipart.Proofs.Utf8

/-!
# The boundary that a request announces

The boundary of an upload is a parameter of its content type. In front of it there can be
any parameters with other names, and behind it anything; its own name can be spelt in any
case, its value stand between quotes, and white space around both. The token that was
written is what the body is decoded with, byte by byte. If no parameter has the name, or
the first one that has it says nothing, there is no boundary, whatever comes later.

The main statement is `ContentType.boundary_announced`.
-/

namespace Multipart

namespace Text

variable {sep : Char} {rest : List Char}

/-! ## Splitting a list of pieces -/

/-- A text behind a piece that belongs to the pieces that follow. -/
def IsApart (sep : Char) (rest : List Char) : Prop := rest = [] ∨ ∃ tail, rest = sep :: tail

theorem splitOn_append {piece : List Char} (h : sep ∉ piece) (hrest : IsApart sep rest) :
    splitOn sep (piece ++ rest) = piece :: (splitOn sep rest).tail := by
  have hfirst : splitOn sep rest = [] :: (splitOn sep rest).tail := by
    rcases hrest with rfl | ⟨tail, rfl⟩
    · rfl
    · rw [splitOn_cons_self, List.tail_cons]
  rw [splitOn_append_of_not_mem h hfirst, List.append_nil]

theorem takeWhile_append {piece : List Char} (h : sep ∉ piece) (hrest : IsApart sep rest) :
    (piece ++ rest).takeWhile (· != sep) = piece := by
  rw [List.takeWhile_append_of_pos (bne_of_not_mem h)]
  rcases hrest with rfl | ⟨tail, rfl⟩ <;> simp

theorem splitOn_pieces {first : List Char} {pieces : List (List Char)}
    (h : ∀ piece ∈ first :: pieces, sep ∉ piece) (hrest : IsApart sep rest) :
    splitOn sep (first ++ pieces.flatMap (sep :: ·) ++ rest) =
      first :: pieces ++ (splitOn sep rest).tail := by
  induction pieces generalizing first with
  | nil => simpa using splitOn_append (h first (List.mem_singleton_self first)) hrest
  | cons piece pieces ih =>
    obtain ⟨hfirst, hpieces⟩ := List.forall_mem_cons.mp h
    have hcut : first ++ (piece :: pieces).flatMap (sep :: ·) ++ rest =
        first ++ sep :: (piece ++ pieces.flatMap (sep :: ·) ++ rest) := by simp
    rw [hcut, splitOn_append_cons, splitOn_of_not_mem hfirst, ih hpieces]
    rfl

end Text

namespace ContentType

open Text (Padding Trimmed Unquoted trim trimQuotes)

/-! ## Parameters -/

theorem parameter?_pair {a b : List Char} (h : '=' ∉ a) :
    parameter? (a ++ '=' :: b) = some (trim a, trimQuotes (trim b)) := by
  rw [parameter?, Text.cutAt?_append h]
  rfl

theorem parameter?_eq_some {piece name value : List Char}
    (h : parameter? piece = some (name, value)) :
    ∃ key rest, piece = key ++ '=' :: rest ∧ '=' ∉ key ∧ name = trim key := by
  rw [parameter?, Option.map_eq_some_iff] at h
  obtain ⟨⟨key, rest⟩, hcut, hpair⟩ := h
  obtain ⟨hpiece, hkey⟩ := Text.cutAt?_eq_some_iff.mp hcut
  cases hpair
  exact ⟨key, rest, hpiece, hkey, rfl⟩

/-- A parameter that names no boundary: it has no equals sign, or another name in front of
the first one. -/
structure OtherParameter where
  text : List Char
  uncut : ';' ∉ text
  other : ∀ key value, text = key ++ '=' :: value → '=' ∉ key →
    Text.sameLetters (trim key) boundaryName = false

theorem OtherParameter.not_boundary (p : OtherParameter) {name value : List Char}
    (h : parameter? p.text = some (name, value)) : Text.sameLetters name boundaryName = false := by
  obtain ⟨key, rest, htext, hkey, rfl⟩ := parameter?_eq_some h
  exact p.other key rest htext hkey

/-- Whether a text names a boundary can be computed. -/
def OtherParameter.ofText (text : List Char) (uncut : ';' ∉ text)
    (h : (parameter? text).all (fun p => !Text.sameLetters p.1 boundaryName) = true) :
    OtherParameter where
  text
  uncut
  other key value htext hkey := by
    rw [htext, parameter?_pair hkey] at h
    simpa using h

/-- A content type around the value of its first boundary parameter. -/
structure Surroundings where
  first : List Char
  others : List OtherParameter
  space : Padding
  key : Spelling boundaryName
  rest : List Char
  first_uncut : ';' ∉ first
  rest_apart : Text.IsApart ';' rest

namespace Surroundings

/-- The media type, and the parameters in front. -/
def front (l : Surroundings) : List Char :=
  l.first ++ (l.others.map OtherParameter.text).flatMap (';' :: ·)

/-- The boundary parameter with a value. -/
def parameter (l : Surroundings) (value : List Char) : List Char :=
  l.space.around l.key.text ++ '=' :: value

/-- The whole content type with a value for its boundary. -/
def withValue (l : Surroundings) (value : List Char) : List Char :=
  l.front ++ ';' :: l.parameter value ++ l.rest

variable (l : Surroundings) {value : List Char}

theorem front_uncut : ∀ piece ∈ l.first :: l.others.map OtherParameter.text, ';' ∉ piece := by
  refine List.forall_mem_cons.mpr ⟨l.first_uncut, fun piece hpiece => ?_⟩
  obtain ⟨p, -, rfl⟩ := List.mem_map.mp hpiece
  exact p.uncut

theorem isWord_key : Text.IsWord l.key.text := l.key.isWord (by decide)

theorem parameter_uncut (h : ';' ∉ value) : ';' ∉ l.parameter value := by
  have hkey : ';' ∉ l.space.around l.key.text :=
    l.space.not_mem_around rfl (l.isWord_key.not_mem (by decide))
  simp [parameter, hkey, h]

theorem parameter?_parameter (value : List Char) :
    parameter? (l.parameter value) = some (l.key.text, trimQuotes (trim value)) := by
  have hkey : '=' ∉ l.space.around l.key.text :=
    l.space.not_mem_around rfl (l.isWord_key.not_mem (by decide))
  rw [parameter, parameter?_pair hkey, l.space.trim_around,
    Text.trim_of_trimmed l.isWord_key.trimmed]

/-- The parameters in front do not matter. -/
theorem find?_others :
    ((l.others.map OtherParameter.text).filterMap parameter?).find?
      (fun p => Text.sameLetters p.1 boundaryName) = none := by
  rw [List.find?_eq_none]
  intro p hp
  obtain ⟨piece, hpiece, hparameter⟩ := List.mem_filterMap.mp hp
  obtain ⟨other, -, rfl⟩ := List.mem_map.mp hpiece
  rw [other.not_boundary hparameter]
  exact Bool.false_ne_true

theorem boundary_front : boundary l.front = .error (.protocol .badBoundary) := by
  have hend : Text.IsApart ';' [] := .inl rfl
  have hpieces := Text.splitOn_pieces l.front_uncut hend
  rw [List.append_nil] at hpieces
  have hparameters : parameters l.front =
      (l.others.map OtherParameter.text).filterMap parameter? := by
    rw [parameters, front, hpieces]
    simp [Text.splitOn]
  rw [boundary, hparameters, l.find?_others]

theorem withValue_eq (value : List Char) :
    l.withValue value =
      l.first ++ (l.others.map OtherParameter.text ++ [l.parameter value]).flatMap (';' :: ·) ++
        l.rest := by
  simp [withValue, front]

/-- The first parameter with the name decides. -/
theorem boundary_withValue (h : ';' ∉ value) :
    boundary (l.withValue value) =
      if trimQuotes (trim value) = [] then .error (.protocol .badBoundary)
      else .ok (trimQuotes (trim value)) := by
  have hall : ∀ piece ∈ l.first :: (l.others.map OtherParameter.text ++ [l.parameter value]),
      ';' ∉ piece := by
    intro piece hpiece
    rw [← List.cons_append, List.mem_append, List.mem_singleton] at hpiece
    rcases hpiece with hfront | rfl
    · exact l.front_uncut piece hfront
    · exact l.parameter_uncut h
  have hpieces := Text.splitOn_pieces hall l.rest_apart
  have hparameters : parameters (l.withValue value) =
      (l.others.map OtherParameter.text).filterMap parameter? ++
        (l.key.text, trimQuotes (trim value)) ::
          (Text.splitOn ';' l.rest).tail.filterMap parameter? := by
    rw [parameters, l.withValue_eq, hpieces, List.cons_append, List.tail_cons, List.append_assoc,
      List.filterMap_append, List.singleton_append,
      List.filterMap_cons_some (l.parameter?_parameter value)]
  -- what stands in front has other names, and what stands behind comes too late
  rw [boundary, hparameters, List.find?_append, l.find?_others, Option.none_or,
    List.find?_cons_of_pos (by exact l.key.same)]
  simp only [List.isEmpty_iff]

theorem essence_withValue (value : List Char) : essence (l.withValue value) = trim l.first := by
  have hapart : Text.IsApart ';' ((l.others.map OtherParameter.text ++
      [l.parameter value]).flatMap (';' :: ·) ++ l.rest) := by
    cases l.others <;> exact .inr ⟨_, rfl⟩
  rw [essence, l.withValue_eq, List.append_assoc, Text.takeWhile_append l.first_uncut hapart]

end Surroundings

/-! ## Tokens -/

/-- What can be announced as a boundary. -/
structure BoundaryToken where
  text : List Char
  ne_nil : text ≠ []
  uncut : ';' ∉ text
  unquoted : Unquoted text

/-- A token is written between quotes, or as it is if no white space would be lost. -/
inductive BoundaryToken.WrittenAs (token : BoundaryToken) : List Char → Prop where
  | quoted : token.WrittenAs ('"' :: (token.text ++ ['"']))
  | bare (h : Trimmed token.text) : token.WrittenAs token.text

theorem BoundaryToken.WrittenAs.uncut {token : BoundaryToken} {written : List Char}
    (h : token.WrittenAs written) : ';' ∉ written := by
  cases h with
  | quoted => simp [token.uncut]
  | bare => exact token.uncut

theorem BoundaryToken.WrittenAs.read {token : BoundaryToken} {written : List Char}
    (h : token.WrittenAs written) (space : Padding) :
    trimQuotes (trim (space.around written)) = token.text := by
  cases h with
  | quoted => exact space.read_around_quoted token.unquoted
  | bare h => exact space.read_around h token.unquoted

end ContentType

/-- An upload with a boundary gets a decoder for its body. -/
theorem Request.decoder_of_boundary {r : Request} {value token : List Char} (settings : Settings)
    (hmethod : ∃ method ∈ uploadMethods, Text.sameLetters r.method.toList method = true)
    (hvalue : r.contentType? = some value) (hform : ContentType.isForm value = true)
    (hboundary : ContentType.boundary value = .ok token) :
    ∃ d, r.decoder settings = .ok (some d) ∧
      d.delimiter = Delimiter.ofToken (String.ofList token) := by
  have hupload : r.isUpload = true := by
    rw [isUpload, hvalue, Option.any_some, hform, Bool.and_true]
    exact List.any_eq_true.mpr hmethod
  rcases r.decoder_cases settings with ⟨hno, -⟩ | ⟨-, hlacks, -⟩ |
    ⟨value', token', d, -, hvalue', hboundary', hnew, hdecoder⟩
  · rw [hupload] at hno
    cases hno
  · exact absurd hboundary (hlacks value token hvalue)
  · obtain rfl := Option.some.inj (hvalue.symm.trans hvalue')
    obtain rfl := Except.ok.inj (hboundary.symm.trans hboundary')
    exact ⟨d, hdecoder, congrArg Decoder.delimiter (Decoder.eq_of_new hnew)⟩

theorem Delimiter.ofToken_eq (token : String) : ofToken token = Text.toBytes ("--" ++ token) := by
  rw [Text.toBytes, String.toList_append, Text.encode_append]
  rfl

namespace ContentType

open Text (Padding trim trimQuotes)

/-- The boundary that a request announces is what its body is decoded with. Whatever stands
around it, the token that was written is read back, and an upload with such a content type
gets a decoder whose delimiter is made of it. A content type without a boundary parameter is
refused, and so is one whose first boundary parameter is empty, whatever follows. -/
theorem boundary_announced (l : Surroundings) :
    (∀ (token : BoundaryToken) (written : List Char) (space : Padding), token.WrittenAs written →
      let value := l.withValue (space.around written)
      boundary value = .ok token.text ∧
      ∀ (r : Request) (settings : Settings),
        (∃ method ∈ Request.uploadMethods, Text.sameLetters r.method.toList method = true) →
        r.contentTypes.getLast? = some (String.ofList value) →
        Text.sameLetters (trim l.first) multipartFormData = true →
        ∃ d, r.decoder settings = .ok (some d) ∧
          d.delimiter = Text.toBytes ("--" ++ String.ofList token.text)) ∧
    boundary l.front = .error (.protocol .badBoundary) ∧
    (∀ value, ';' ∉ value → trimQuotes (trim value) = [] →
      boundary (l.withValue value) = .error (.protocol .badBoundary)) ∧
    Violation.badBoundary.text = "Bad boundary" := by
  refine ⟨fun token written space hwritten => ?_, l.boundary_front, fun value huncut hempty => ?_,
    rfl⟩
  · intro value
    have huncut : ';' ∉ space.around written := space.not_mem_around rfl hwritten.uncut
    have hboundary : boundary value = .ok token.text := by
      rw [l.boundary_withValue huncut, hwritten.read, if_neg token.ne_nil]
    refine ⟨hboundary, fun r settings hmethod hlast hform => ?_⟩
    have hvalue : r.contentType? = some value := by
      rw [Request.contentType?, hlast, Option.map_some, String.toList_ofList]
    rw [← l.essence_withValue (space.around written)] at hform
    obtain ⟨d, hdecoder, hdelimiter⟩ :=
      Request.decoder_of_boundary settings hmethod hvalue hform hboundary
    exact ⟨d, hdecoder, hdelimiter.trans (Delimiter.ofToken_eq _)⟩
  · rw [l.boundary_withValue huncut, if_pos hempty]

/-- Parameters that look like a boundary in front of one in quotes, and another one behind
it; and the same content type with nothing in the quotes. -/
theorem boundary_announced_of_quoted :
    let value := "Multipart/Form-Data ; x=boundary; boundary; BOUNDARY\t= \" a=b \" ; boundary=c"
    let r : Request := ⟨"Put", ["text/plain", value], .ofBytes [] none none, none⟩
    boundary value.toList = .ok [' ', 'a', '=', 'b', ' '] ∧
      (∃ d, r.decoder .standard = .ok (some d) ∧ d.delimiter = Text.toBytes "-- a=b ") ∧
      boundary "Multipart/Form-Data ; x=boundary; boundary; BOUNDARY\t= \"\" ; boundary=c".toList =
        .error (.protocol .badBoundary) := by
  intro value r
  let l : Surroundings := {
    first := "Multipart/Form-Data ".toList
    others := [.ofText " x=boundary".toList (by decide) (by decide),
      .ofText " boundary".toList (by decide) (by decide)]
    space := ⟨[' '], ['\t'], List.forall_mem_singleton.mpr rfl, List.forall_mem_singleton.mpr rfl⟩
    key := ⟨"BOUNDARY".toList, by decide⟩
    rest := "; boundary=c".toList
    first_uncut := by decide
    rest_apart := .inr ⟨" boundary=c".toList, by decide⟩ }
  let token : BoundaryToken :=
    ⟨[' ', 'a', '=', 'b', ' '], by decide, by decide, ⟨by decide, by decide⟩⟩
  let space : Padding :=
    ⟨[' '], [' '], List.forall_mem_singleton.mpr rfl, List.forall_mem_singleton.mpr rfl⟩
  obtain ⟨hread, -, hempty, -⟩ := boundary_announced l
  obtain ⟨hboundary, hdecoder⟩ := hread token _ space .quoted
  have hvalue : l.withValue (space.around ('"' :: (token.text ++ ['"']))) = value.toList := by
    decide
  rw [hvalue] at hboundary hdecoder
  have hmethod : ∃ method ∈ Request.uploadMethods,
      Text.sameLetters r.method.toList method = true :=
    ⟨_, List.mem_cons_of_mem _ (List.mem_singleton_self _), by decide⟩
  have hlast : r.contentTypes.getLast? = some (String.ofList value.toList) := by
    rw [String.ofList_toList]
    rfl
  obtain ⟨d, hd, hdelimiter⟩ := hdecoder r .standard hmethod hlast (by decide)
  refine ⟨hboundary, ⟨d, hd, hdelimiter.trans (by decide +kernel)⟩, ?_⟩
  exact hempty " \"\" ".toList (by decide) (by decide)

end ContentType

end Multipart

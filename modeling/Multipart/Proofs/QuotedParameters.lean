import Multipart.Proofs.BoundaryParameter

/-!
# Quotes in front of a boundary

In a content type, quotes do not protect a semicolon. So a parameter in quotes in front of
the boundary can hide others: each of its semicolons ends a parameter, and what stands behind
it is read as the next one. If none of them has the name of the boundary, the boundary is
what it would be without them, whatever stands between the quotes. If one has it, the first
one that has is the boundary (`Announcement.boundary_value`). An attribute list reads the same
text with the quotes in mind, and always comes to the boundary that was meant
(`Announcement.parseAll_value`).

The main statement is `ContentType.boundary_ignores_quoted`.
-/

namespace Multipart

namespace Text

variable {sep : Char}

/-- Where the first piece ends. -/
theorem exists_rest_of_splitOn {text piece : List Char} {pieces : List (List Char)}
    (h : splitOn sep text = piece :: pieces) :
    ∃ rest, text = piece ++ rest ∧ sep ∉ piece ∧ IsApart sep rest := by
  induction text generalizing piece pieces with
  | nil =>
    cases h
    exact ⟨[], rfl, List.not_mem_nil, .inl rfl⟩
  | cons c text ih =>
    by_cases hc : c = sep
    · subst hc
      rw [splitOn_cons_self] at h
      cases h
      exact ⟨_, rfl, List.not_mem_nil, .inr ⟨text, rfl⟩⟩
    · obtain ⟨first, later, htext⟩ := List.exists_cons_of_ne_nil (splitOn_ne_nil sep text)
      rw [splitOn, if_neg hc, htext] at h
      cases h
      obtain ⟨rest, rfl, hfirst, hapart⟩ := ih htext
      exact ⟨rest, rfl, by simp [Ne.symm hc, hfirst], hapart⟩

/-- The pieces behind a separator. -/
theorem mem_tail_splitOn_iff {text piece : List Char} :
    piece ∈ (splitOn sep text).tail ↔
      ∃ before rest, text = before ++ sep :: (piece ++ rest) ∧ sep ∉ piece ∧ IsApart sep rest := by
  constructor
  · intro h
    induction text with
    | nil => cases h
    | cons c text ih =>
      obtain ⟨first, later, htext⟩ := List.exists_cons_of_ne_nil (splitOn_ne_nil sep text)
      rw [htext, List.tail_cons] at ih
      have hlater (hmem : piece ∈ later) : ∃ before rest,
          c :: text = before ++ sep :: (piece ++ rest) ∧ sep ∉ piece ∧ IsApart sep rest := by
        obtain ⟨before, rest, rfl, hpiece, hapart⟩ := ih hmem
        exact ⟨c :: before, rest, rfl, hpiece, hapart⟩
      by_cases hc : c = sep
      · subst hc
        rw [splitOn_cons_self, List.tail_cons, htext, List.mem_cons] at h
        rcases h with rfl | hmem
        · obtain ⟨rest, rfl, hpiece, hapart⟩ := exists_rest_of_splitOn htext
          exact ⟨[], rest, rfl, hpiece, hapart⟩
        · exact hlater hmem
      · rw [splitOn, if_neg hc, htext, List.tail_cons] at h
        exact hlater h
  · rintro ⟨before, rest, rfl, hpiece, hapart⟩
    rw [splitOn_append_cons, splitOn_append hpiece hapart,
      List.tail_append_of_ne_nil (splitOn_ne_nil sep before)]
    exact List.mem_append_right _ (List.mem_cons_self ..)

end Text

namespace ContentType

open Text (sameLetters splitOn trim trimQuotes)

/-! ## What quotes hide -/

/-- The parameters that are read out of a text between quotes: what stands behind each of its
semicolons, the last one with the quote that ends the text. -/
def hidden (quoted : List Char) : List (List Char × List Char) :=
  (splitOn ';' (quoted ++ ['"'])).tail.filterMap parameter?

/-- The value of the first of them that has the name of the boundary. -/
def hiddenBoundary? (quoted : List Char) : Option (List Char) :=
  ((hidden quoted).find? fun p => sameLetters p.1 boundaryName).map Prod.snd

/-- Somewhere in the text, a semicolon and the name of the boundary stand in front of an
equals sign. -/
def NamesBoundary (quoted : List Char) : Prop :=
  ∃ before key rest, quoted = before ++ ';' :: (key ++ '=' :: rest) ∧ ';' ∉ key ∧ '=' ∉ key ∧
    sameLetters (trim key) boundaryName = true

theorem namesBoundary_iff {quoted : List Char} :
    NamesBoundary quoted ↔ ∃ p ∈ hidden quoted, sameLetters p.1 boundaryName = true := by
  constructor
  · rintro ⟨before, key, rest, rfl, huncut, hkey, hname⟩
    obtain ⟨first, later, hsplit⟩ :=
      List.exists_cons_of_ne_nil (Text.splitOn_ne_nil ';' (rest ++ ['"']))
    obtain ⟨after, hrest, hfirst, hapart⟩ := Text.exists_rest_of_splitOn hsplit
    have hpiece : key ++ '=' :: first ∈
        (splitOn ';' (before ++ ';' :: (key ++ '=' :: rest) ++ ['"'])).tail := by
      refine Text.mem_tail_splitOn_iff.mpr ⟨before, after, ?_, by simp [huncut, hfirst], hapart⟩
      simp [hrest]
    exact ⟨_, List.mem_filterMap.mpr ⟨_, hpiece, parameter?_pair hkey⟩, hname⟩
  · rintro ⟨⟨name, value⟩, hp, hname⟩
    obtain ⟨piece, hpiece, hparameter⟩ := List.mem_filterMap.mp hp
    obtain ⟨key, rest, rfl, hkey, rfl⟩ := parameter?_eq_some hparameter
    obtain ⟨before, after, htext, huncut, -⟩ := Text.mem_tail_splitOn_iff.mp hpiece
    rw [List.mem_append, not_or] at huncut
    -- the quote that ends the text stands behind the equals sign
    rcases List.eq_nil_or_concat (rest ++ after) with hnil | ⟨back, c, hback⟩
    · have hsame : quoted ++ ['"'] = before ++ ';' :: key ++ ['='] := by simp [htext, hnil]
      exact absurd (List.append_inj' hsame rfl).2 (by decide)
    · rw [List.concat_eq_append] at hback
      have hsame : quoted ++ ['"'] = before ++ ';' :: (key ++ '=' :: back) ++ [c] := by
        simp [htext, hback]
      exact ⟨before, key, back, (List.append_inj' hsame rfl).1, huncut.1, hkey, hname⟩

theorem hiddenBoundary?_eq_none_iff {quoted : List Char} :
    hiddenBoundary? quoted = none ↔ ¬NamesBoundary quoted := by
  rw [hiddenBoundary?, Option.map_eq_none_iff, List.find?_eq_none, namesBoundary_iff]
  simp

/-! ## Announcements -/

/-- A parameter in quotes, and the boundary behind it. -/
structure Announcement where
  name : Attribute.Token
  token : Attribute.PlainValue
  other : sameLetters name.text boundaryName = false
  ne_nil : token.text ≠ []

namespace Announcement

variable (a : Announcement)

/-- The content type with this text between the quotes. -/
def value (quoted : List Char) : List Char :=
  multipartFormData ++ ';' :: ' ' :: (a.name.text ++ '=' :: '"' :: (quoted ++ '"' :: ';' :: ' ' ::
    (boundaryName ++ '=' :: a.token.text)))

theorem parameter?_name (text : List Char) :
    parameter? (' ' :: (a.name.text ++ '=' :: text)) =
      some (a.name.text, trimQuotes (trim text)) := by
  have hkey : '=' ∉ ' ' :: a.name.text := by simp [a.name.plain '=' (by simp)]
  rw [← List.cons_append, parameter?_pair hkey, Text.trim_space,
    Text.trim_of_trimmed a.name.trimmed]

theorem parameter?_token :
    parameter? (' ' :: (boundaryName ++ '=' :: a.token.text)) =
      some (boundaryName, a.token.text) := by
  have hunquoted := Text.unquoted_of_not_mem (a.token.plain '"' (by simp))
  have hkey : '=' ∉ ' ' :: boundaryName := by decide
  rw [← List.cons_append, parameter?_pair hkey, Text.trim_of_trimmed a.token.trimmed,
    Text.trimQuotes_of_unquoted hunquoted]
  rfl

/-- What the quotes hide comes between the parameter in quotes and the boundary. -/
theorem parameters_value (quoted : List Char) : ∃ shown,
    parameters (a.value quoted) =
      (a.name.text, shown) :: (hidden quoted ++ [(boundaryName, a.token.text)]) := by
  have huncut : ';' ∉ ' ' :: (a.name.text ++ ['=', '"']) := by simp [a.name.plain ';' (by simp)]
  have htoken : ';' ∉ ' ' :: (boundaryName ++ '=' :: a.token.text) := by
    simp [boundaryName, a.token.plain ';' (by simp)]
  have hvalue : a.value quoted = multipartFormData ++ ';' ::
      (' ' :: (a.name.text ++ ['=', '"']) ++ (quoted ++ ['"']) ++ ';' ::
        (' ' :: (boundaryName ++ '=' :: a.token.text))) := by
    simp [value]
  -- what is in front of the first semicolon belongs to the parameter in quotes
  obtain ⟨front, later, hquoted⟩ :=
    List.exists_cons_of_ne_nil (Text.splitOn_ne_nil ';' (quoted ++ ['"']))
  have hfirst := Text.splitOn_append_of_not_mem huncut hquoted
  have hmedia : splitOn ';' multipartFormData = [multipartFormData] := rfl
  have hpieces : splitOn ';' (a.value quoted) =
      multipartFormData :: (' ' :: (a.name.text ++ '=' :: '"' :: front)) ::
        (later ++ [' ' :: (boundaryName ++ '=' :: a.token.text)]) := by
    rw [hvalue, Text.splitOn_append_cons, hmedia, Text.splitOn_append_cons, hfirst,
      Text.splitOn_of_not_mem htoken]
    simp
  refine ⟨trimQuotes (trim ('"' :: front)), ?_⟩
  rw [parameters, hpieces, List.tail_cons, List.filterMap_cons_some (a.parameter?_name _),
    List.filterMap_append, List.filterMap_cons_some a.parameter?_token, hidden, hquoted]
  rfl

/-- The first boundary that the quotes hide is the boundary, or the one behind them if they
hide none. -/
theorem boundary_value (quoted : List Char) :
    boundary (a.value quoted) =
      match hiddenBoundary? quoted with
      | none => .ok a.token.text
      | some [] => .error (.protocol .badBoundary)
      | some token => .ok token := by
  obtain ⟨shown, hparameters⟩ := a.parameters_value quoted
  have hsame : sameLetters boundaryName boundaryName = true := by decide
  rw [boundary, hparameters, List.find?_cons_of_neg (by simp [a.other]), List.find?_append,
    hiddenBoundary?]
  cases (hidden quoted).find? fun p => sameLetters p.1 boundaryName with
  | none =>
    rw [Option.none_or, List.find?_cons_of_pos (by exact hsame)]
    simp [a.ne_nil]
  | some p =>
    rw [Option.some_or, Option.map_some]
    obtain ⟨name, token⟩ := p
    cases token <;> rfl

/-- With the quotes in mind, there are two parameters behind the media type. -/
theorem parseAll_value (quoted : Attribute.QuotedValue) :
    Attribute.parseAll (a.value quoted.text) =
      [⟨multipartFormData, []⟩, ⟨a.name.text, quoted.text⟩, ⟨boundaryName, a.token.text⟩] := by
  let blank : Text.Padding :=
    ⟨[' '], [], List.forall_mem_singleton.mpr rfl, List.forall_mem_nil _⟩
  let items : List Attribute.Item := [
    .bare .none ⟨multipartFormData, by decide, by simp [multipartFormData]⟩ (by decide),
    .quoted blank a.name .none quoted,
    .plain blank (.ofWord boundaryName (by decide)) .none a.token]
  have hlayout : Attribute.layout items = a.value quoted.text := by
    simp [items, Attribute.layout, Attribute.Item.text, Attribute.Token.ofWord, value, blank,
      Text.Padding.around, Text.Padding.none]
  rw [← hlayout, Attribute.parseAll_layout]
  rfl

theorem boundary_value_eq_ok_iff (quoted : List Char) :
    boundary (a.value quoted) = .ok a.token.text ↔
      ¬NamesBoundary quoted ∨ hiddenBoundary? quoted = some a.token.text := by
  rw [a.boundary_value, ← hiddenBoundary?_eq_none_iff]
  cases hiddenBoundary? quoted with
  | none => simp
  | some token =>
    cases token with
    | nil => simp [Ne.symm a.ne_nil]
    | cons c token => simp

end Announcement

open Attribute (QuotedValue)

/-- What stands between quotes in front of the boundary makes no difference to it, as long as
no semicolon between them has the name of the boundary behind it. For two such texts the
boundary is the same, and it is the token that stands behind the quotes. For any text, the
token is the boundary exactly if the quotes hide no other boundary, or the first one that
they hide is the same; as a list of attributes, the content type has the token in every
case. -/
theorem boundary_ignores_quoted (a : Announcement) :
    (∀ q q' : QuotedValue, ¬NamesBoundary q.text → ¬NamesBoundary q'.text →
      boundary (a.value q.text) = boundary (a.value q'.text) ∧
        boundary (a.value q.text) = .ok a.token.text) ∧
    ∀ q : QuotedValue,
      (boundary (a.value q.text) = .ok a.token.text ↔
        ¬NamesBoundary q.text ∨ hiddenBoundary? q.text = some a.token.text) ∧
      Attribute.parseAll (a.value q.text) =
        [⟨multipartFormData, []⟩, ⟨a.name.text, q.text⟩, ⟨boundaryName, a.token.text⟩] := by
  have hread (q : QuotedValue) (h : ¬NamesBoundary q.text) :
      boundary (a.value q.text) = .ok a.token.text :=
    (a.boundary_value_eq_ok_iff q.text).mpr (.inl h)
  refine ⟨fun q q' h h' => ⟨?_, hread q h⟩, fun q => ⟨?_, a.parseAll_value q⟩⟩
  · rw [hread q h, hread q' h']
  · exact a.boundary_value_eq_ok_iff q.text

/-- Quotes around semicolons, equals signs and names that are nearly the one of the boundary,
and around nothing. -/
theorem boundary_ignores_quoted_of_semicolons :
    let value := "multipart/form-data; k=\"; b = boundary;; boundaries=x;boundary\"; boundary=v=w"
    let plain := "multipart/form-data; k=\"\"; boundary=v=w"
    boundary value.toList = boundary plain.toList ∧
      boundary value.toList = .ok ['v', '=', 'w'] := by
  intro value plain
  let a : Announcement := {
    name := .ofWord ['k'] (by decide)
    token := ⟨['v', '=', 'w'], by decide, by simp⟩
    other := by decide
    ne_nil := by decide }
  let q : QuotedValue := ⟨"; b = boundary;; boundaries=x;boundary".toList, by decide⟩
  let q' : QuotedValue := ⟨[], by decide⟩
  have hq : ¬NamesBoundary q.text := hiddenBoundary?_eq_none_iff.mp (by decide)
  have hq' : ¬NamesBoundary q'.text := hiddenBoundary?_eq_none_iff.mp (by decide)
  have hvalue : a.value q.text = value.toList := by decide
  have hplain : a.value q'.text = plain.toList := by decide
  obtain ⟨hsame, -⟩ := boundary_ignores_quoted a
  rw [← hvalue, ← hplain]
  exact hsame q q' hq hq'

/-- A semicolon between quotes puts another boundary in front of the one behind them. -/
theorem boundary_hidden_in_quotes :
    let value := "multipart/form-data; k=\"a; boundary=x\"; boundary=v".toList
    boundary value = .ok ['x'] ∧
      boundary "multipart/form-data; k=\"a\"; boundary=v".toList = .ok ['v'] ∧
      Attribute.parseAll value = [⟨multipartFormData, []⟩, ⟨['k'], "a; boundary=x".toList⟩,
        ⟨boundaryName, ['v']⟩] ∧
      ¬∀ (a : Announcement) (q q' : QuotedValue),
        boundary (a.value q.text) = boundary (a.value q'.text) ∧
          boundary (a.value q.text) = .ok a.token.text := by
  intro value
  let a : Announcement := {
    name := .ofWord ['k'] (by decide)
    token := ⟨['v'], by decide, by simp⟩
    other := by decide
    ne_nil := by decide }
  let q : QuotedValue := ⟨"a; boundary=x".toList, by decide⟩
  have hx : boundary value = .ok ['x'] := by decide
  refine ⟨hx, by decide, by decide, fun hall => ?_⟩
  have htoken : boundary value = .ok ['v'] := (hall a q q).2
  rw [hx] at htoken
  exact absurd htoken (by decide)

end ContentType

end Multipart

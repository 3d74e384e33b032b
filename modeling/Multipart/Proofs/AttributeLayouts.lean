import Multipart.Attribute
import Multipart.Proofs.TextEnds

/-!
# Attributes in any layout

A sender is free in how it lays out a list of attributes. A token can stand alone, or with
a value behind an equals sign, which can stand between quotes and then hold whatever is no
quote; white space can stand around all of these, and semicolons with nothing between them
can stand anywhere. An `Item` is what stands between two semicolons, and a layout is a list
of items. The attributes that were laid out are read back, in order
(`Attribute.parseAll_layout`).
-/

namespace Multipart

open Text (Padding Trimmed isBlank trim trimQuotes)

namespace Attribute

/-! ## Where a text is cut -/

section Pieces

variable {text rest piece : List Char} {later : List (List Char)}

theorem pieces_cons {inQuotes : Bool} {c : Char} (hc : ¬(c = ';' ∧ inQuotes = false))
    (h : pieces (if c = '"' then !inQuotes else inQuotes) rest = piece :: later) :
    pieces inQuotes (c :: rest) = (c :: piece) :: later := by
  rw [pieces, if_neg hc, h]

/-- A text without quotes stays in one piece if it stands between quotes, or has no
semicolon. -/
theorem pieces_append {inQuotes : Bool} (hquote : '"' ∉ text)
    (hsemicolon : ';' ∉ text ∨ inQuotes = true) (h : pieces inQuotes rest = piece :: later) :
    pieces inQuotes (text ++ rest) = (text ++ piece) :: later := by
  induction text with
  | nil => exact h
  | cons c text ih =>
    rw [List.mem_cons, not_or] at hquote
    rw [List.mem_cons, not_or] at hsemicolon
    refine pieces_cons ?_ ?_
    · rintro ⟨rfl, rfl⟩
      exact hsemicolon.elim (fun hc => hc.1 rfl) nofun
    · rw [if_neg fun hc => hquote.1 hc.symm]
      exact ih hquote.2 (hsemicolon.imp_left And.right)

/-- No semicolon cuts this text, and behind it no quotes are open. -/
def IsPiece (text : List Char) : Prop :=
  ∀ rest piece later, pieces false rest = piece :: later →
    pieces false (text ++ rest) = (text ++ piece) :: later

theorem isPiece_of_not_mem (hsemicolon : ';' ∉ text) (hquote : '"' ∉ text) :
    IsPiece text := fun _ _ _ h => pieces_append hquote (.inl hsemicolon) h

theorem IsPiece.append {a b : List Char} (ha : IsPiece a) (hb : IsPiece b) : IsPiece (a ++ b) := by
  intro rest piece later h
  rw [List.append_assoc, List.append_assoc]
  exact ha _ _ _ (hb _ _ _ h)

/-- Between quotes, semicolons cut nothing. -/
theorem isPiece_quoted {value : List Char} (h : '"' ∉ value) :
    IsPiece ('"' :: (value ++ ['"'])) := by
  intro rest piece later hrest
  have hclosed : pieces true ('"' :: rest) = ('"' :: piece) :: later := pieces_cons (by simp) hrest
  have hvalue : pieces true (value ++ '"' :: rest) = (value ++ '"' :: piece) :: later :=
    pieces_append h (.inr rfl) hclosed
  have hopened : pieces false ('"' :: (value ++ '"' :: rest)) =
      ('"' :: (value ++ '"' :: piece)) :: later := pieces_cons (by decide) hvalue
  simpa using hopened

theorem isPiece_of_blank (h : ∀ c ∈ text, isBlank c = true) : IsPiece text :=
  isPiece_of_not_mem (Text.not_mem_of_blank h rfl) (Text.not_mem_of_blank h rfl)

theorem isPiece_around (p : Padding) (h : IsPiece text) : IsPiece (p.around text) :=
  ((isPiece_of_blank p.blank_before).append h).append (isPiece_of_blank p.blank_after)

end Pieces

/-- Pieces with semicolons between them are what the text is cut into. -/
theorem pieces_intercalate {text : List Char} {texts : List (List Char)}
    (h : ∀ t ∈ text :: texts, IsPiece t) :
    pieces false (List.intercalate [';'] (text :: texts)) = text :: texts := by
  induction texts generalizing text with
  | nil =>
    have hpiece := h text (List.mem_singleton_self text) [] [] [] rfl
    simpa [List.intercalate] using hpiece
  | cons next texts ih =>
    obtain ⟨htext, hrest⟩ := List.forall_mem_cons.mp h
    have hcut : pieces false (';' :: List.intercalate [';'] (next :: texts)) =
        [] :: next :: texts := by
      rw [pieces, if_pos ⟨rfl, rfl⟩, ih hrest]
    have hpiece := htext _ _ _ hcut
    rw [List.append_nil] at hpiece
    exact hpiece

/-! ## White space around a list -/

theorem ofPiece?_congr {a b : List Char} (h : trim a = trim b) : ofPiece? a = ofPiece? b := by
  rw [ofPiece?, ofPiece?, h]

/-- White space at the end of a text belongs to its last piece. -/
theorem pieces_append_blanks {after : List Char} (hafter : ∀ c ∈ after, isBlank c = true)
    (inQuotes : Bool) (text : List Char) :
    ∃ front last, pieces inQuotes text = front ++ [last] ∧
      pieces inQuotes (text ++ after) = front ++ [last ++ after] := by
  induction text generalizing inQuotes with
  | nil =>
    have hquote : '"' ∉ after := Text.not_mem_of_blank hafter rfl
    have hsemicolon : ';' ∉ after := Text.not_mem_of_blank hafter rfl
    have hnil : pieces inQuotes [] = [[]] := rfl
    exact ⟨[], [], hnil, by simpa using pieces_append hquote (.inl hsemicolon) hnil⟩
  | cons c text ih =>
    -- a semicolon outside quotes ends a piece, every other character joins the first one
    by_cases hc : c = ';' ∧ inQuotes = false
    · obtain ⟨front, last, htext, hboth⟩ := ih false
      refine ⟨[] :: front, last, ?_, ?_⟩
      · rw [pieces, if_pos hc, htext]
        rfl
      · rw [List.cons_append, pieces, if_pos hc, hboth]
        rfl
    · obtain ⟨front, last, htext, hboth⟩ := ih (if c = '"' then !inQuotes else inQuotes)
      cases front with
      | nil => exact ⟨[], c :: last, pieces_cons hc htext, pieces_cons hc hboth⟩
      | cons piece front =>
        exact ⟨(c :: piece) :: front, last, pieces_cons hc htext, pieces_cons hc hboth⟩

theorem parseAll_around (p : Padding) (text : List Char) :
    parseAll (p.around text) = parseAll text := by
  have hbefore (text : List Char) : parseAll (p.before ++ text) = parseAll text := by
    obtain ⟨piece, later, hpieces⟩ := List.exists_cons_of_ne_nil (pieces_ne_nil false text)
    have htrim : trim (p.before ++ piece) = trim piece :=
      Text.strip_append_left p.blank_before piece
    rw [parseAll, isPiece_of_blank p.blank_before text piece later hpieces, parseAll, hpieces,
      List.filterMap_cons, List.filterMap_cons, ofPiece?_congr htrim]
  have hafter : parseAll (text ++ p.after) = parseAll text := by
    obtain ⟨front, last, htext, hboth⟩ := pieces_append_blanks p.blank_after false text
    have htrim : trim (last ++ p.after) = trim last := Text.strip_append_right p.blank_after last
    rw [parseAll, hboth, parseAll, htext, List.filterMap_append, List.filterMap_append,
      List.filterMap_cons, List.filterMap_cons, ofPiece?_congr htrim]
  rw [Padding.around, List.append_assoc, hbefore, hafter]

theorem parseAll_trim (text : List Char) : parseAll (trim text) = parseAll text := by
  obtain ⟨p, hp⟩ := Text.exists_padding text
  conv_rhs => rw [← hp]
  exact (parseAll_around p _).symm

/-! ## Items -/

theorem ofPiece?_of_ne_nil {piece trimmed : List Char} (htrim : Text.trim piece = trimmed)
    (hne : trimmed ≠ []) :
    ofPiece? piece = match Text.cutAt? '=' trimmed with
      | some (token, value) => some ⟨Text.trim token, Text.trimQuotes (Text.trim value)⟩
      | none => some ⟨trimmed, []⟩ := by
  rw [ofPiece?, htrim]
  cases trimmed with
  | nil => exact absurd rfl hne
  | cons c trimmed => rfl

/-- The first equals sign ends the token. -/
theorem ofPiece?_pair {a b : List Char} (h : '=' ∉ a) :
    ofPiece? (a ++ '=' :: b) = some ⟨trim a, trimQuotes (trim b)⟩ := by
  have htrim := Text.strip_append_cons (p := isBlank) (c := '=') rfl a b
  have htoken : '=' ∉ a.dropWhile isBlank := fun hmem => h ((List.dropWhile_sublist _).mem hmem)
  rw [ofPiece?_of_ne_nil htrim (by simp), Text.cutAt?_append htoken]
  simp only [Text.trim_dropWhile, Text.trim_dropWhile_reverse]

/-- What can stand in front of an equals sign. -/
structure Token where
  text : List Char
  trimmed : Trimmed text
  plain : ∀ c ∈ [';', '=', '"'], c ∉ text

/-- What can stand behind an equals sign as it is. -/
structure PlainValue where
  text : List Char
  trimmed : Trimmed text
  plain : ∀ c ∈ [';', '"'], c ∉ text

/-- What can stand between quotes. -/
structure QuotedValue where
  text : List Char
  noQuote : '"' ∉ text

/-- What can stand between two semicolons: only white space, a token, or a token with a
value. -/
inductive Item where
  | blank (space : Padding)
  | bare (space : Padding) (token : Token) (ne_nil : token.text ≠ [])
  | plain (space : Padding) (token : Token) (space' : Padding) (value : PlainValue)
  | quoted (space : Padding) (token : Token) (space' : Padding) (value : QuotedValue)

namespace Item

def text : Item → List Char
  | blank space => space.around []
  | bare space token _ => space.around token.text
  | plain space token space' value => space.around token.text ++ '=' :: space'.around value.text
  | quoted space token space' value =>
    space.around token.text ++ '=' :: space'.around ('"' :: (value.text ++ ['"']))

/-- The attribute that was meant, with an empty value for a token that stands alone. -/
def attribute? : Item → Option Attribute
  | blank _ => none
  | bare _ token _ => some ⟨token.text, []⟩
  | plain _ token _ value => some ⟨token.text, value.text⟩
  | quoted _ token _ value => some ⟨token.text, value.text⟩

theorem isPiece_text (i : Item) : IsPiece i.text := by
  have htoken (space : Padding) (token : Token) : IsPiece (space.around token.text) :=
    isPiece_around space (isPiece_of_not_mem (token.plain _ (by simp)) (token.plain _ (by simp)))
  have hequals : IsPiece ['='] := isPiece_of_not_mem (by decide) (by decide)
  cases i with
  | blank space => exact isPiece_around space (isPiece_of_not_mem nofun nofun)
  | bare space token => exact htoken space token
  | plain space token space' value =>
    have hvalue := isPiece_of_not_mem (value.plain _ (by simp)) (value.plain _ (by simp))
    exact (htoken space token).append (hequals.append (isPiece_around space' hvalue))
  | quoted space token space' value =>
    have hvalue := isPiece_quoted value.noQuote
    exact (htoken space token).append (hequals.append (isPiece_around space' hvalue))

/-- Each item is read as it was meant. -/
theorem ofPiece?_text (i : Item) : ofPiece? i.text = i.attribute? := by
  have htoken (space : Padding) (token : Token) : trim (space.around token.text) = token.text := by
    rw [space.trim_around, Text.trim_of_trimmed token.trimmed]
  have hequals (space : Padding) (token : Token) : '=' ∉ space.around token.text :=
    space.not_mem_around rfl (token.plain _ (by simp))
  cases i with
  | blank space => rw [text, ofPiece?, space.trim_around]; rfl
  | bare space token ne_nil =>
    rw [text, ofPiece?_of_ne_nil (htoken space token) ne_nil,
      Text.cutAt?_of_not_mem (token.plain _ (by simp))]
    rfl
  | plain space token space' value =>
    have hunquoted := Text.unquoted_of_not_mem (value.plain '"' (by simp))
    rw [text, ofPiece?_pair (hequals space token), htoken,
      space'.read_around value.trimmed hunquoted]
    rfl
  | quoted space token space' value =>
    have hunquoted := Text.unquoted_of_not_mem value.noQuote
    rw [text, ofPiece?_pair (hequals space token), htoken, space'.read_around_quoted hunquoted]
    rfl

end Item

/-- Items with semicolons between them. -/
def layout (items : List Item) : List Char := List.intercalate [';'] (items.map Item.text)

theorem layout_cons (i : Item) (items : List Item) :
    layout (i :: items) = i.text ++ items.flatMap fun j => ';' :: j.text := by
  induction items generalizing i with
  | nil => simp [layout, List.intercalate]
  | cons j items ih =>
    rw [List.flatMap_cons, List.cons_append, ← ih j]
    simp [layout, List.intercalate]

theorem parseAll_layout (items : List Item) :
    parseAll (layout items) = items.filterMap Item.attribute? := by
  cases items with
  | nil => rfl
  | cons i items =>
    have hpieces : ∀ t ∈ i.text :: items.map Item.text, IsPiece t := by
      intro t ht
      obtain ⟨j, -, rfl⟩ := List.mem_map.mp (List.map_cons ▸ ht)
      exact j.isPiece_text
    rw [parseAll, layout, List.map_cons, pieces_intercalate hpieces, ← List.map_cons,
      List.filterMap_map]
    exact List.filterMap_congr fun j _ => j.ofPiece?_text

end Attribute

end Multipart

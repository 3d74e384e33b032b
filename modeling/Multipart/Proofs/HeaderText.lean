import Multipart.PartHeader
import Multipart.Proofs.AttributeLayouts

/-!
# Header lines as they are written

What a sender writes is what is read, however words are spelt. The attributes of a
Content-Disposition are read back from any layout (`PartHeader.parse_layout`), so also from
a list with all values in quotes (`Attribute.parseAll_written`), and the Content-Type is
read back as it is (`PartHeader.parse_contentType`).
-/

namespace Multipart

namespace Text

/-! ## Words -/

/-- One of the letters that come in upper and lower case. -/
def isLetter (c : Char) : Bool :=
  65 ≤ c.toNat && c.toNat ≤ 90 || 97 ≤ c.toNat && c.toNat ≤ 122

/-- Made of letters and hyphens. -/
def IsWord (text : List Char) : Prop := ∀ c ∈ text, isLetter c = true ∨ c = '-'

instance (text : List Char) : Decidable (IsWord text) := List.decidableBAll _ _

theorem IsWord.not_mem {text : List Char} (h : IsWord text) {c : Char}
    (hc : ¬(isLetter c = true ∨ c = '-')) : c ∉ text := fun hmem => hc (h c hmem)

theorem isBlank_of_isLetter {c : Char} (h : isLetter c = true) : isBlank c = false := by
  have hletter : 65 ≤ c.toNat ∧ c.toNat ≤ 90 ∨ 97 ≤ c.toNat ∧ c.toNat ≤ 122 := by
    simpa [isLetter] using h
  simp only [isBlank, blankRanges, List.any_cons, List.any_nil, Bool.or_false, Bool.or_eq_false_iff,
    Bool.and_eq_false_iff, decide_eq_false_iff_not]
  omega

theorem IsWord.trimmed {text : List Char} (h : IsWord text) : Trimmed text := by
  have hblank {c : Char} (hc : c ∈ text) : isBlank c = false := by
    rcases h c hc with hletter | rfl
    · exact isBlank_of_isLetter hletter
    · rfl
  exact ⟨fun c hc => hblank (List.mem_of_head? hc), fun c hc => hblank (List.mem_of_getLast? hc)⟩

theorem isLetter_or_toLower_eq (c : Char) : isLetter c = true ∨ c.toLower = c := by
  by_cases h : c.val ≥ 'A'.val ∧ c.val ≤ 'Z'.val
  · have hupper : 65 ≤ c.toNat ∧ c.toNat ≤ 90 := by
      simpa [UInt32.le_iff_toNat_le] using h
    left
    simp [isLetter, hupper]
  · exact .inr (dif_neg h)

/-- A word stays one in any spelling. -/
theorem IsWord.of_sameLetters {a b : List Char} (hb : IsWord b) (h : sameLetters a b = true)
    (hlower : foldCase b = b) : IsWord a := by
  intro c hc
  have hfold : c.toLower ∈ b := by
    rw [← hlower, ← sameLetters_iff.mp h]
    exact List.mem_map_of_mem hc
  rcases isLetter_or_toLower_eq c with hletter | hsame
  · exact .inl hletter
  · rw [hsame] at hfold
    exact hb c hfold

end Text

/-- A word with each letter in upper or lower case. -/
structure Spelling (word : List Char) where
  text : List Char
  same : Text.sameLetters text word = true

namespace Spelling

variable {word : List Char}

theorem isWord (spelling : Spelling word) (h : Text.IsWord word ∧ Text.foldCase word = word) :
    Text.IsWord spelling.text := h.1.of_sameLetters spelling.same h.2

theorem not_same (spelling : Spelling word) {other : List Char}
    (h : Text.foldCase word ≠ Text.foldCase other) :
    Text.sameLetters spelling.text other = false := by
  rw [Bool.eq_false_iff, Ne, Text.sameLetters_iff, Text.sameLetters_iff.mp spelling.same]
  exact h

end Spelling

/-! ## Attributes -/

namespace Attribute

/-- An attribute with its value between quotes. -/
def written (a : Attribute) : List Char := a.token ++ '=' :: '"' :: (a.value ++ ['"'])

/-- A list of attributes behind a first word. -/
def writtenList (first : List Char) (attributes : List Attribute) : List Char :=
  first ++ attributes.flatMap fun a => ';' :: ' ' :: a.written

/-- An attribute that is read back as it was written. -/
structure Writable (a : Attribute) : Prop where
  token : Text.IsWord a.token
  value : '"' ∉ a.value

/-- A word can stand in front of an equals sign, or alone. -/
def Token.ofWord (word : List Char) (h : Text.IsWord word) : Token where
  text := word
  trimmed := h.trimmed
  plain c hc := by
    simp only [List.mem_cons, List.not_mem_nil, or_false] at hc
    rcases hc with rfl | rfl | rfl <;> exact h.not_mem (by decide)

/-- With a blank in front and its value in quotes, an attribute is an item of a list. -/
theorem Writable.exists_item {a : Attribute} (h : a.Writable) :
    ∃ i : Item, i.text = ' ' :: a.written ∧ i.attribute? = some a := by
  let blank : Text.Padding :=
    ⟨[' '], [], List.forall_mem_singleton.mpr rfl, List.forall_mem_nil _⟩
  refine ⟨.quoted blank (.ofWord a.token h.token) .none ⟨a.value, h.value⟩, ?_, rfl⟩
  simp [Item.text, blank, Text.Padding.around, Text.Padding.none, written, Token.ofWord]

theorem exists_items {attributes : List Attribute} (h : ∀ a ∈ attributes, a.Writable) :
    ∃ items : List Item, items.map Item.text = attributes.map (' ' :: ·.written) ∧
      items.filterMap Item.attribute? = attributes := by
  induction attributes with
  | nil => exact ⟨[], rfl, rfl⟩
  | cons a attributes ih =>
    obtain ⟨ha, hrest⟩ := List.forall_mem_cons.mp h
    obtain ⟨i, htext, hattribute⟩ := ha.exists_item
    obtain ⟨items, htexts, hattributes⟩ := ih hrest
    exact ⟨i :: items, by rw [List.map_cons, List.map_cons, htext, htexts],
      by rw [List.filterMap_cons_some hattribute, hattributes]⟩

/-- A list of attributes is read back. -/
theorem parseAll_written {first : List Char} (hfirst : Text.IsWord first) (hne : first ≠ [])
    {attributes : List Attribute} (h : ∀ a ∈ attributes, a.Writable) :
    parseAll (writtenList first attributes) = ⟨first, []⟩ :: attributes := by
  obtain ⟨items, htexts, hattributes⟩ := exists_items h
  let bare : Item := .bare .none (.ofWord first hfirst) hne
  have hlayout : layout (bare :: items) = writtenList first attributes := calc
    layout (bare :: items)
    _ = bare.text ++ (items.map Item.text).flatMap (';' :: ·) := by
      rw [layout_cons, List.flatMap_map]
    _ = first ++ (attributes.map (' ' :: ·.written)).flatMap (';' :: ·) := by
      rw [htexts]
      exact congrArg (· ++ _) (Text.Padding.around_none first)
    _ = writtenList first attributes := by rw [List.flatMap_map, writtenList]
  rw [← hlayout, parseAll_layout, List.filterMap_cons, hattributes]
  rfl

theorem trimmed_writtenList {first : List Char} (hfirst : Text.IsWord first)
    {attributes : List Attribute} (h : ∀ a ∈ attributes, a.Writable) :
    Text.Trimmed (writtenList first attributes) := by
  refine hfirst.trimmed.append ?_
  induction attributes with
  | nil => exact .nil
  | cons a attributes ih =>
    obtain ⟨ha, hrest⟩ := List.forall_mem_cons.mp h
    have hfront : Text.Trimmed (';' :: ' ' :: a.written) := by
      have hlast : ';' :: ' ' :: a.written =
          (';' :: ' ' :: (a.token ++ '=' :: '"' :: a.value)) ++ ['"'] := by simp [written]
      refine ⟨by rintro c ⟨⟩; rfl, ?_⟩
      intro c hc
      rw [hlast, List.getLast?_concat] at hc
      obtain rfl := Option.some.inj hc
      rfl
    exact hfront.append (ih hrest)

end Attribute

/-! ## Header lines -/

namespace PartHeader

/-- The word in front of the attributes of a part. -/
def formData : List Char := ['f', 'o', 'r', 'm', '-', 'd', 'a', 't', 'a']

/-- A header line. -/
def line (name value : List Char) : List Char := name ++ ':' :: ' ' :: value

theorem cutAt?_line {name value : List Char} (h : Text.IsWord name) :
    Text.cutAt? ':' (line name value) = some (name, ' ' :: value) :=
  Text.cutAt?_append (h.not_mem (by decide))

theorem parse_disposition_cons (name : Spelling dispositionName) (value : List Char) :
    parse (name.text ++ ':' :: value) = .disposition (Attribute.parseAll value) := by
  have hword := name.isWord (by decide)
  have hcut : Text.cutAt? ':' (name.text ++ ':' :: value) = some (name.text, value) :=
    Text.cutAt?_append (hword.not_mem (by decide))
  simp only [parse, hcut, Text.trim_of_trimmed hword.trimmed, name.same, if_true,
    Attribute.parseAll_trim]

theorem parse_disposition (name : Spelling dispositionName) (value : List Char) :
    parse (line name.text value) = .disposition (Attribute.parseAll value) := by
  rw [line, parse_disposition_cons, ← Attribute.parseAll_trim, Text.trim_space,
    Attribute.parseAll_trim]

theorem parse_contentType (name : Spelling contentTypeName) {value : List Char}
    (h : Text.Trimmed value) : parse (line name.text value) = .contentType value := by
  have hword := name.isWord (by decide)
  have hother : Text.sameLetters name.text dispositionName = false := name.not_same (by decide)
  simp only [parse, cutAt?_line hword, Text.trim_of_trimmed hword.trimmed, hother, name.same,
    Bool.false_eq_true, if_false, if_true, Text.trim_space, Text.trim_of_trimmed h]

/-- However the attributes of a Content-Disposition header are laid out, they are read back,
in order, with the texts that were meant. -/
theorem parse_layout (name : Spelling dispositionName) (items : List Attribute.Item) :
    parse (name.text ++ ':' :: Attribute.layout items) =
      .disposition (items.filterMap Attribute.Item.attribute?) := by
  rw [parse_disposition_cons, Attribute.parseAll_layout]

/-- A word that stands alone, white space on both sides of an equals sign, an item that is
empty, and quotes around everything that could end a value. -/
theorem parse_layout_of_four_items :
    ∃ (name : Spelling dispositionName) (items : List Attribute.Item),
      name.text ++ ':' :: Attribute.layout items =
        "CONTENT-Disposition:form-data;name = f ;; x=\" a;=\\\"".toList ∧
      parse (name.text ++ ':' :: Attribute.layout items) =
        .disposition [⟨"form-data".toList, []⟩, ⟨"name".toList, ['f']⟩,
          ⟨['x'], [' ', 'a', ';', '=', '\\']⟩] := by
  let name : Spelling dispositionName := ⟨"CONTENT-Disposition".toList, by decide⟩
  let tight : Text.Padding := ⟨[], [], List.forall_mem_nil _, List.forall_mem_nil _⟩
  let before : Text.Padding := ⟨[' '], [], List.forall_mem_singleton.mpr rfl, List.forall_mem_nil _⟩
  let after : Text.Padding := ⟨[], [' '], List.forall_mem_nil _, List.forall_mem_singleton.mpr rfl⟩
  let both : Text.Padding :=
    ⟨[' '], [' '], List.forall_mem_singleton.mpr rfl, List.forall_mem_singleton.mpr rfl⟩
  let value : Attribute.PlainValue := ⟨['f'], Text.IsWord.trimmed (by decide), by simp⟩
  let items : List Attribute.Item := [
    .bare tight (.ofWord formData (by decide)) (by decide),
    .plain after (.ofWord ['n', 'a', 'm', 'e'] (by decide)) both value,
    .blank tight,
    .quoted before (.ofWord ['x'] (by decide)) tight ⟨[' ', 'a', ';', '=', '\\'], by decide⟩]
  refine ⟨name, items, by decide +kernel, ?_⟩
  rw [parse_layout name items]
  decide +kernel

end PartHeader

end Multipart

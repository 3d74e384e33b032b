import Mathlib.Data.List.Basic
import Mathlib.Data.List.TakeWhile
import Multipart.Text.Blank
import Multipart.Text.Split

/-!
# The ends of texts

What is taken off the ends of a text makes no difference to what is left, and a text that
has none of it stays as it is. A `Padding` is white space around a text: it is taken off
when the text is read (`Padding.read_around`), and what stands between quotes is kept as it
is (`Padding.read_around_quoted`).
-/

namespace Multipart

namespace Text

/-! ## White space -/

/-- There is no white space at either end. -/
structure Trimmed (text : List Char) : Prop where
  head : ∀ c, text.head? = some c → isBlank c = false
  last : ∀ c, text.getLast? = some c → isBlank c = false

theorem trimmed_iff {text : List Char} :
    Trimmed text ↔
      text.head?.all (!isBlank ·) = true ∧ text.getLast?.all (!isBlank ·) = true := by
  simp only [Option.all_eq_true, Bool.not_eq_true']
  exact ⟨fun h => ⟨h.head, h.last⟩, fun ⟨hhead, hlast⟩ => ⟨hhead, hlast⟩⟩

instance (text : List Char) : Decidable (Trimmed text) := decidable_of_iff' _ trimmed_iff

theorem Trimmed.append {a b : List Char} (ha : Trimmed a) (hb : Trimmed b) : Trimmed (a ++ b) where
  head c hc := by
    cases a with
    | nil => exact hb.head c hc
    | cons x a => exact ha.head c hc
  last c hc := by
    rcases List.eq_nil_or_concat b with rfl | ⟨init, x, rfl⟩
    · rw [List.append_nil] at hc
      exact ha.last c hc
    · rw [List.concat_eq_append] at hb hc
      rw [← List.append_assoc, List.getLast?_concat] at hc
      exact hb.last c (by rw [List.getLast?_concat, hc])

theorem Trimmed.nil : Trimmed [] := ⟨nofun, nofun⟩

theorem dropWhile_of_head {p : Char → Bool} {text : List Char}
    (h : ∀ c, text.head? = some c → p c = false) : text.dropWhile p = text := by
  cases text with
  | nil => rfl
  | cons c text => simp [h c rfl]

/-- A text stays if neither of its ends is taken off. -/
theorem strip_of_ends {p : Char → Bool} {text : List Char}
    (hhead : ∀ c, text.head? = some c → p c = false)
    (hlast : ∀ c, text.getLast? = some c → p c = false) : strip p text = text := by
  rw [strip, dropWhile_of_head hhead, dropWhile_of_head, List.reverse_reverse]
  intro c hc
  rw [List.head?_reverse] at hc
  exact hlast c hc

theorem strip_append_left {p : Char → Bool} {before : List Char} (h : ∀ c ∈ before, p c = true)
    (text : List Char) : strip p (before ++ text) = strip p text := by
  rw [strip, strip, List.dropWhile_append_of_pos h]

theorem strip_append_right {p : Char → Bool} {after : List Char} (h : ∀ c ∈ after, p c = true)
    (text : List Char) : strip p (text ++ after) = strip p text := by
  have hreverse : ∀ c ∈ after.reverse, p c = true := fun c hc => h c (List.mem_reverse.mp hc)
  rw [strip, strip, List.dropWhile_append]
  split
  · next hnone => rw [List.isEmpty_iff.mp hnone, List.dropWhile_eq_nil_iff.mpr h]
  · rw [List.reverse_append, List.dropWhile_append_of_pos hreverse]

theorem trim_of_trimmed {text : List Char} (h : Trimmed text) : trim text = text :=
  strip_of_ends h.head h.last

theorem trim_space (text : List Char) : trim (' ' :: text) = trim text := by
  rw [trim, trim, strip, strip, List.dropWhile_cons_of_pos (by decide)]

/-! ## Quotes -/

/-- There is no double quote at either end. -/
structure Unquoted (text : List Char) : Prop where
  head : text.head? ≠ some '"'
  last : text.getLast? ≠ some '"'

theorem unquoted_of_not_mem {text : List Char} (h : '"' ∉ text) : Unquoted text :=
  ⟨fun hc => h (List.mem_of_head? hc), fun hc => h (List.mem_of_getLast? hc)⟩

theorem trimQuotes_of_unquoted {text : List Char} (h : Unquoted text) : trimQuotes text = text := by
  refine strip_of_ends (fun c hc => ?_) (fun c hc => ?_)
  · rw [beq_eq_false_iff_ne]
    rintro rfl
    exact h.head hc
  · rw [beq_eq_false_iff_ne]
    rintro rfl
    exact h.last hc

/-- Quotes around a text are taken off, and nothing else if it has none at its ends. -/
theorem trimQuotes_quoted {text : List Char} (h : Unquoted text) :
    trimQuotes ('"' :: (text ++ ['"'])) = text := by
  have hquote : ∀ c ∈ ['"'], (c == '"') = true := by simp
  calc trimQuotes ('"' :: (text ++ ['"']))
    _ = trimQuotes (text ++ ['"']) := strip_append_left hquote _
    _ = trimQuotes text := strip_append_right hquote _
    _ = text := trimQuotes_of_unquoted h

theorem trimmed_quoted (text : List Char) : Trimmed ('"' :: (text ++ ['"'])) where
  head := by
    rintro c ⟨⟩
    rfl
  last := by
    intro c hc
    rw [← List.cons_append, List.getLast?_concat] at hc
    obtain rfl := Option.some.inj hc
    rfl

/-! ## Padding -/

/-- White space to stand around a text. -/
structure Padding where
  before : List Char
  after : List Char
  blank_before : ∀ c ∈ before, isBlank c = true
  blank_after : ∀ c ∈ after, isBlank c = true

theorem not_mem_of_blank {text : List Char} (h : ∀ c ∈ text, isBlank c = true) {c : Char}
    (hc : isBlank c = false) : c ∉ text := by
  intro hmem
  rw [h c hmem] at hc
  cases hc

namespace Padding

def around (p : Padding) (text : List Char) : List Char := p.before ++ text ++ p.after

def none : Padding := ⟨[], [], nofun, nofun⟩

theorem around_none (text : List Char) : none.around text = text := List.append_nil text

theorem trim_around (p : Padding) (text : List Char) : trim (p.around text) = trim text :=
  (strip_append_right p.blank_after _).trans (strip_append_left p.blank_before _)

theorem not_mem_around (p : Padding) {c : Char} (hc : isBlank c = false) {text : List Char}
    (h : c ∉ text) : c ∉ p.around text := by
  rw [around, List.mem_append, List.mem_append, not_or, not_or]
  exact ⟨⟨not_mem_of_blank p.blank_before hc, h⟩, not_mem_of_blank p.blank_after hc⟩

/-- A text without white space at its ends is read as it was written. -/
theorem read_around (p : Padding) {text : List Char} (ht : Trimmed text) (h : Unquoted text) :
    trimQuotes (trim (p.around text)) = text := by
  rw [p.trim_around, trim_of_trimmed ht, trimQuotes_of_unquoted h]

/-- Between quotes, white space is kept. -/
theorem read_around_quoted (p : Padding) {text : List Char} (h : Unquoted text) :
    trimQuotes (trim (p.around ('"' :: (text ++ ['"'])))) = text := by
  rw [p.trim_around, trim_of_trimmed (trimmed_quoted text), trimQuotes_quoted h]

end Padding

/-- A text is its middle with white space around it. -/
theorem exists_padding (text : List Char) : ∃ p : Padding, p.around (trim text) = text := by
  let rest := text.dropWhile isBlank
  let p : Padding := {
    before := text.takeWhile isBlank
    after := (rest.reverse.takeWhile isBlank).reverse
    blank_before := fun c hc => List.mem_takeWhile_imp hc
    blank_after := fun c hc => List.mem_takeWhile_imp (List.mem_reverse.mp hc) }
  have hrest : trim text ++ p.after = rest := by
    change (rest.reverse.dropWhile isBlank).reverse ++ p.after = rest
    rw [← List.reverse_append, List.takeWhile_append_dropWhile, List.reverse_reverse]
  refine ⟨p, ?_⟩
  rw [Padding.around, List.append_assoc, hrest, List.takeWhile_append_dropWhile]

/-! ## Texts in two parts -/

theorem bne_of_not_mem {sep : Char} {text : List Char} (h : sep ∉ text) :
    ∀ c ∈ text, (c != sep) = true := by
  intro c hc
  rw [bne_iff_ne]
  rintro rfl
  exact h hc

theorem cutAt?_of_not_mem {sep : Char} {text : List Char} (h : sep ∉ text) :
    cutAt? sep text = none := by
  rw [cutAt?, List.dropWhile_eq_nil_iff.mpr (bne_of_not_mem h)]

/-- The first `sep` cuts a text in two. -/
theorem cutAt?_eq_some_iff {sep : Char} {text before rest : List Char} :
    cutAt? sep text = some (before, rest) ↔ text = before ++ sep :: rest ∧ sep ∉ before := by
  constructor
  · intro h
    by_cases hsep : sep ∈ text
    · obtain ⟨a, b, rfl, ha⟩ := List.eq_append_cons_of_mem hsep
      rw [cutAt?_append ha] at h
      cases h
      exact ⟨rfl, ha⟩
    · rw [cutAt?_of_not_mem hsep] at h
      cases h
  · rintro ⟨rfl, h⟩
    exact cutAt?_append h

theorem dropWhile_append_cons {p : Char → Bool} {c : Char} (hc : p c = false) (a b : List Char) :
    (a ++ c :: b).dropWhile p = a.dropWhile p ++ c :: b := by
  induction a with
  | nil => simp [hc]
  | cons x a ih =>
    rw [List.cons_append, List.dropWhile_cons, List.dropWhile_cons, ih]
    split <;> rfl

/-- Around a character that stays, only the outer ends are taken off. -/
theorem strip_append_cons {p : Char → Bool} {c : Char} (hc : p c = false) (a b : List Char) :
    strip p (a ++ c :: b) = a.dropWhile p ++ c :: (b.reverse.dropWhile p).reverse := by
  rw [strip, dropWhile_append_cons hc, List.reverse_append, List.reverse_cons, List.append_assoc,
    List.singleton_append, dropWhile_append_cons hc]
  simp

theorem trim_dropWhile (a : List Char) : trim (a.dropWhile isBlank) = trim a := by
  conv_rhs => rw [← List.takeWhile_append_dropWhile (p := isBlank) (l := a)]
  exact (strip_append_left (fun c hc => List.mem_takeWhile_imp hc) _).symm

theorem trim_dropWhile_reverse (b : List Char) :
    trim (b.reverse.dropWhile isBlank).reverse = trim b := by
  have hsplit := List.takeWhile_append_dropWhile (p := isBlank) (l := b.reverse)
  have hblank : ∀ c ∈ (b.reverse.takeWhile isBlank).reverse, isBlank c = true := fun c hc =>
    List.mem_takeWhile_imp (List.mem_reverse.mp hc)
  rw [← List.reverse_inj, List.reverse_append, List.reverse_reverse] at hsplit
  conv_rhs => rw [← hsplit]
  exact (strip_append_right hblank _).symm

end Text

end Multipart

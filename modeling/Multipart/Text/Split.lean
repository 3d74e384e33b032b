/-!
# Splitting texts

`splitOn` cuts a text at every occurrence of a character, `cutAt?` at
the first one only. Neither keeps the character it cuts at.
-/

namespace Multipart

namespace Text

/-- The pieces of a text between the occurrences of `sep`: always one
more than there are occurrences. -/
def splitOn (sep : Char) : List Char → List (List Char)
  | [] => [[]]
  | c :: rest =>
    if c = sep then [] :: splitOn sep rest
    else
      match splitOn sep rest with
      | [] => [[c]]
      | piece :: pieces => (c :: piece) :: pieces

/-- The text before the first `sep` and the text after it. -/
def cutAt? (sep : Char) (text : List Char) : Option (List Char × List Char) :=
  match text.dropWhile (· != sep) with
  | [] => none
  | _ :: rest => some (text.takeWhile (· != sep), rest)

theorem splitOn_ne_nil (sep : Char) (text : List Char) : splitOn sep text ≠ [] := by
  cases text with
  | nil => simp [splitOn]
  | cons c rest =>
    rw [splitOn]
    split
    · simp
    · split <;> simp

theorem splitOn_cons_self (sep : Char) (rest : List Char) :
    splitOn sep (sep :: rest) = [] :: splitOn sep rest := by
  rw [splitOn, if_pos rfl]

/-- A separator splits a text in two that are split apart. -/
theorem splitOn_append_cons (sep : Char) (a b : List Char) :
    splitOn sep (a ++ sep :: b) = splitOn sep a ++ splitOn sep b := by
  induction a with
  | nil => exact splitOn_cons_self sep b
  | cons c a ih =>
    by_cases hc : c = sep
    · subst hc
      rw [List.cons_append, splitOn_cons_self, splitOn_cons_self, ih]
      rfl
    · cases ha : splitOn sep a with
      | nil => exact absurd ha (splitOn_ne_nil sep a)
      | cons piece pieces =>
        rw [List.cons_append, splitOn, if_neg hc, ih, splitOn, if_neg hc, ha]
        rfl

/-- Characters that separate nothing belong to the first piece of what follows. -/
theorem splitOn_append_of_not_mem {sep : Char} {a : List Char} (h : sep ∉ a)
    {b piece : List Char} {pieces : List (List Char)} (hb : splitOn sep b = piece :: pieces) :
    splitOn sep (a ++ b) = (a ++ piece) :: pieces := by
  induction a with
  | nil => exact hb
  | cons c a ih =>
    rw [List.mem_cons, not_or] at h
    rw [List.cons_append, splitOn, if_neg (Ne.symm h.1), ih h.2]
    rfl

theorem splitOn_of_not_mem {sep : Char} {text : List Char} (h : sep ∉ text) :
    splitOn sep text = [text] := by
  have hnil : splitOn sep [] = [[]] := rfl
  simpa using splitOn_append_of_not_mem h hnil

theorem cutAt?_append {sep : Char} {before rest : List Char} (h : sep ∉ before) :
    cutAt? sep (before ++ sep :: rest) = some (before, rest) := by
  have keep : ∀ c ∈ before, (c != sep) = true := by
    intro c hc
    rw [bne_iff_ne]
    rintro rfl
    exact h hc
  simp [cutAt?, List.dropWhile_append_of_pos keep, List.takeWhile_append_of_pos keep]

end Text

end Multipart

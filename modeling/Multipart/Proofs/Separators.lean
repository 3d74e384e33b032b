import Mathlib.Algebra.Group.Nat.Even
import Multipart.Proofs.AttributeLayouts

/-!
# Semicolons outside quotes

Which semicolons separate attributes can be said of a text as a whole: those with an even
number of quotes in front of them, counted from the start of the text. So a quote that is
never closed hides all semicolons behind it, and one in the middle of a value is a quote like
every other. What stands between two separators is an attribute, if there is anything but
white space.

A reader that goes through the text comes to the same, though all it knows is whether
quotes are open: its pieces are the stretches between the separators
(`Attribute.pieces_eq_stretches`), and what it reads is what is there
(`Attribute.parseAll_eq_betweenSeparators`). Both rest on where the first separator stands
(`Attribute.induction_on_separators`).
-/

namespace Multipart

open Text (trim trimQuotes)

namespace Attribute

/-! ## The description -/

/-- A semicolon with an even number of quotes in front of it. -/
def IsSeparator (text : List Char) (place : Nat) : Prop :=
  text[place]? = some ';' ∧ Even ((text.take place).count '"')

instance (text : List Char) (place : Nat) : Decidable (IsSeparator text place) :=
  inferInstanceAs (Decidable (_ ∧ _))

/-- The places of the separators, in order. -/
def separators (text : List Char) : List Nat :=
  (List.range text.length).filter (IsSeparator text ·)

/-- What stands in a text from a place on, up to each of some later places and behind the
last of them. The characters at these places are left out. -/
def stretches (text : List Char) (start : Nat) : List Nat → List (List Char)
  | [] => [text.drop start]
  | place :: places => (text.take place).drop start :: stretches text (place + 1) places

/-- The attribute that a text without white space at its ends stands for: what is in front
of the first equals sign and what is behind it, or the text alone if it has none. -/
def ofTrimmed (text : List Char) : Attribute :=
  if '=' ∈ text then
    ⟨trim (text.takeWhile (· != '=')), trimQuotes (trim ((text.dropWhile (· != '=')).drop 1))⟩
  else ⟨text, []⟩

/-- The attributes between the separators of a text. -/
def betweenSeparators (text : List Char) : List Attribute :=
  (((stretches text 0 (separators text)).map trim).filter (· ≠ [])).map ofTrimmed

/-! ## One attribute -/

theorem ofPiece?_eq (piece : List Char) :
    ofPiece? piece = if trim piece = [] then none else some (ofTrimmed (trim piece)) := by
  split
  · next hblank => rw [ofPiece?, hblank]
  · next hne =>
    rw [ofPiece?_of_ne_nil rfl hne, ofTrimmed]
    by_cases hequals : '=' ∈ trim piece
    · obtain ⟨token, value, htrim, htoken⟩ := List.eq_append_cons_of_mem hequals
      have hkeep := Text.bne_of_not_mem htoken
      rw [if_pos hequals, htrim, Text.cutAt?_append htoken]
      simp [List.takeWhile_append_of_pos hkeep, List.dropWhile_append_of_pos hkeep]
    · rw [if_neg hequals, Text.cutAt?_of_not_mem hequals]

theorem filterMap_ofPiece? (texts : List (List Char)) :
    texts.filterMap ofPiece? = ((texts.map trim).filter (· ≠ [])).map ofTrimmed := by
  induction texts with
  | nil => rfl
  | cons text texts ih =>
    rw [List.filterMap_cons, ofPiece?_eq, ih, List.map_cons, List.filter_cons]
    by_cases hblank : trim text = []
    · simp [hblank]
    · simp [hblank]

/-! ## Texts in two parts -/

/-- Behind a text with an even number of quotes, separators are what they are without it. -/
theorem separators_append {a : List Char} (ha : Even (a.count '"')) (b : List Char) :
    separators (a ++ b) = separators a ++ (separators b).map (a.length + ·) := by
  have hfront : ∀ place ∈ List.range a.length,
      decide (IsSeparator (a ++ b) place) = decide (IsSeparator a place) := by
    intro place hplace
    have hlt := List.mem_range.mp hplace
    rw [decide_eq_decide, IsSeparator, IsSeparator, List.getElem?_append_left hlt,
      List.take_append_of_le_length (Nat.le_of_lt hlt)]
  have hback (place : Nat) :
      decide (IsSeparator (a ++ b) (a.length + place)) = decide (IsSeparator b place) := by
    rw [decide_eq_decide, IsSeparator, IsSeparator, List.getElem?_append_right (Nat.le_add_right ..),
      Nat.add_sub_cancel_left, List.take_length_add_append, List.count_append, Nat.even_add]
    simp only [ha, true_iff]
  rw [separators, List.length_append, List.range_add, List.filter_append,
    List.filter_congr hfront, List.filter_map]
  simp only [Function.comp_def, hback]
  rfl

theorem stretches_append (a b : List Char) (start : Nat) (places : List Nat) :
    stretches (a ++ b) (a.length + start) (places.map (a.length + ·)) =
      stretches b start places := by
  induction places generalizing start with
  | nil => rw [List.map_nil, stretches, stretches, List.drop_length_add_append]
  | cons place places ih =>
    rw [List.map_cons, stretches, stretches, List.take_length_add_append,
      List.drop_length_add_append, Nat.add_assoc, ih]

/-! ## The first separator -/

/-- Whether quotes are closed behind a text. `inQuotes` says whether they are open in front
of it. -/
def IsOutside (inQuotes : Bool) (text : List Char) : Prop :=
  Even (text.count '"') ↔ inQuotes = false

theorem isOutside_cons {inQuotes : Bool} {c : Char} {text : List Char} :
    IsOutside inQuotes (c :: text) ↔
      IsOutside (if c = '"' then !inQuotes else inQuotes) text := by
  by_cases hc : c = '"'
  · subst hc
    rw [IsOutside, IsOutside, List.count_cons_self, Nat.even_add_one, if_pos rfl]
    cases inQuotes <;> simp
  · rw [IsOutside, IsOutside, List.count_cons_of_ne hc, if_neg hc]

/-- A text is read as one piece, or as a piece in front of a semicolon outside quotes and
what is read behind it. -/
theorem exists_first (inQuotes : Bool) (text : List Char) :
    ∃ front back, text = front ++ back ∧
      (∀ a b, front = a ++ ';' :: b → ¬IsOutside inQuotes a) ∧
      (back = [] ∧ pieces inQuotes text = [front] ∨
        ∃ later, back = ';' :: later ∧ IsOutside inQuotes front ∧
          pieces inQuotes text = front :: pieces false later) := by
  induction text generalizing inQuotes with
  | nil => exact ⟨[], [], rfl, by simp, .inl ⟨rfl, rfl⟩⟩
  | cons c text ih =>
    -- such a semicolon ends the piece, and every other character belongs to it
    by_cases hc : c = ';' ∧ inQuotes = false
    · obtain ⟨rfl, rfl⟩ := hc
      refine ⟨[], ';' :: text, rfl, by simp, .inr ⟨text, rfl, by simp [IsOutside], ?_⟩⟩
      rw [pieces, if_pos ⟨rfl, rfl⟩]
    · obtain ⟨front, back, rfl, hfront, hback⟩ := ih (if c = '"' then !inQuotes else inQuotes)
      refine ⟨c :: front, back, rfl, fun a b hab => ?_, ?_⟩
      · cases a with
        | nil =>
          obtain ⟨rfl, -⟩ := List.cons.inj hab
          exact fun hout => hc ⟨rfl, by simpa [IsOutside] using hout⟩
        | cons x a =>
          obtain ⟨rfl, hrest⟩ := List.cons.inj hab
          rw [isOutside_cons]
          exact hfront a b hrest
      · refine hback.imp (And.imp_right (pieces_cons hc)) ?_
        rintro ⟨later, hlater, hout, hpieces⟩
        exact ⟨later, hlater, isOutside_cons.mpr hout, pieces_cons hc hpieces⟩

theorem separators_eq_nil {text : List Char}
    (h : ∀ a b, text = a ++ ';' :: b → ¬IsOutside false a) : separators text = [] := by
  rw [separators, List.filter_eq_nil_iff]
  rintro place - hplace
  obtain ⟨hat, heven⟩ := of_decide_eq_true hplace
  obtain ⟨hlt, hchar⟩ := List.getElem?_eq_some_iff.mp hat
  refine h (text.take place) (text.drop (place + 1)) ?_ (by simp [IsOutside, heven])
  rw [← hchar, ← List.drop_eq_getElem_cons hlt, List.take_append_drop]

/-- Every text is reached from texts without separators by putting one more stretch and a
separator in front. -/
theorem induction_on_separators {motive : List Char → Prop}
    (last : ∀ text, separators text = [] → pieces false text = [text] → motive text)
    (cut : ∀ front later,
      separators (front ++ ';' :: later) =
        front.length :: (separators later).map (front.length + 1 + ·) →
      pieces false (front ++ ';' :: later) = front :: pieces false later →
      motive later → motive (front ++ ';' :: later))
    (text : List Char) : motive text := by
  induction hn : text.length using Nat.strong_induction_on generalizing text with
  | _ n ih =>
    obtain ⟨front, back, rfl, hfront, hback⟩ := exists_first false text
    have hnone := separators_eq_nil hfront
    rcases hback with ⟨rfl, hpieces⟩ | ⟨later, rfl, hout, hpieces⟩
    · rw [List.append_nil] at hpieces ⊢
      exact last front hnone hpieces
    · have heven : Even (front.count '"') := by simpa [IsOutside] using hout
      have hsemicolon : separators (';' :: later) = 0 :: (separators later).map (1 + ·) :=
        separators_append (a := [';']) (by decide) later
      have hseparators : separators (front ++ ';' :: later) =
          front.length :: (separators later).map (front.length + 1 + ·) := by
        rw [separators_append heven, hnone, hsemicolon]
        simp [Function.comp_def, Nat.add_assoc]
      have hless : later.length < n := by
        rw [← hn, List.length_append, List.length_cons]
        omega
      exact cut front later hseparators hpieces (ih _ hless later rfl)

/-! ## Reading -/

theorem pieces_eq_stretches (text : List Char) :
    pieces false text = stretches text 0 (separators text) := by
  induction text using induction_on_separators with
  | last text hseparators hpieces => rw [hpieces, hseparators, stretches, List.drop_zero]
  | cut front later hseparators hpieces ih =>
    have hrest := stretches_append (front ++ [';']) later 0 (separators later)
    rw [List.append_assoc, List.singleton_append, List.length_append, List.length_singleton,
      Nat.add_zero] at hrest
    rw [hpieces, hseparators, stretches, hrest, ← ih, List.take_left, List.drop_zero]

/-- What is read from a text are the attributes between its separators. -/
theorem parseAll_eq_betweenSeparators (text : List Char) :
    parseAll text = betweenSeparators text := by
  rw [parseAll, pieces_eq_stretches, filterMap_ofPiece?, betweenSeparators]

end Attribute

end Multipart

import Mathlib.Data.List.Induction
import Multipart.Decoder.Header

/-!
# What header lines say

A label is a heading without its temp file: the name of a part and, if it
is a file, the client's name for it and its content type. `Label.ofLines`
reads header lines into a label, or refuses them. They are refused exactly
if an attribute stands where it may not (`Label.exists_ofLines`), and have
a name, or a file name, if the last Content-Disposition among them has one
(`Label.reads_of_ofLines`).
-/

namespace Multipart

/-- The name of a part and, if it is a file, the client's name and the content
type. -/
structure Label where
  name : String
  file : Option (String × Option String)
  deriving DecidableEq, Repr

/-- What a heading says. -/
def Heading.label (heading : Heading) : Label where
  name := heading.name
  file := heading.file.map fun part => (part.clientName, part.contentType)

namespace Label

/-- What one more attribute says, if it may stand there. -/
def take (label : Option Label) (a : Attribute) : Option (Option Label) :=
  match a.role with
  | .other => some label
  | .name => some (some ⟨a.text, label.bind Label.file⟩)
  | .filename =>
    match label with
    | some ⟨name, none⟩ => some (some ⟨name, some (a.text, none)⟩)
    | _ => none

/-- What the attributes of a Content-Disposition say. -/
def ofAttributes (attributes : List Attribute) : Option (Option Label) :=
  attributes.foldlM take none

/-- The label of a part with this content type, which only a file has. -/
def withContentType (label : Option Label) (value : String) : Option Label :=
  label.map fun l => { l with file := l.file.map fun file => (file.1, some value) }

/-- What one more header line says. A Content-Disposition describes its part
from scratch. -/
def readLine (label : Option Label) (line : Bytes) : Option (Option Label) :=
  match PartHeader.parse (Text.decode line) with
  | .disposition attributes => ofAttributes attributes
  | .contentType value => some (withContentType label (String.ofList value))
  | .other => some label

/-- What header lines say. -/
def ofLines (lines : List Bytes) : Option (Option Label) := lines.foldlM readLine none

end Label

/-! ## Where attributes may stand -/

/-- The attributes of a header line that is a Content-Disposition. -/
def PartHeader.disposition? (line : Bytes) : Option (List Attribute) :=
  match parse (Text.decode line) with
  | .disposition attributes => some attributes
  | _ => none

/-- Some attribute has this role. -/
def Attribute.Has (role : Role) (attributes : List Attribute) : Prop :=
  ∃ a ∈ attributes, a.role = role

/-- Every file name stands behind a name and behind no other file name. -/
def Attribute.InOrder (attributes : List Attribute) : Prop :=
  ∀ before a after, attributes = before ++ a :: after → a.role = .filename →
    Has .name before ∧ ¬Has .filename before

namespace Attribute

theorem has_concat {role : Role} {attributes : List Attribute} {a : Attribute} :
    Has role (attributes ++ [a]) ↔ Has role attributes ∨ a.role = role := by
  simp [Has, or_and_right, exists_or]

theorem inOrder_concat {attributes : List Attribute} {a : Attribute} :
    InOrder (attributes ++ [a]) ↔ InOrder attributes ∧
      (a.role = .filename → Has .name attributes ∧ ¬Has .filename attributes) := by
  constructor
  · refine fun h => ⟨fun before b after hsplit => ?_, h attributes a [] rfl⟩
    exact h before b (after ++ [a]) (by rw [hsplit, List.append_assoc, List.cons_append])
  · rintro ⟨hinit, hlast⟩ before b after hsplit hrole
    rcases List.eq_nil_or_concat after with rfl | ⟨init, c, rfl⟩
    · obtain ⟨rfl, hba⟩ := List.append_inj' hsplit rfl
      obtain rfl := List.singleton_inj.mp hba
      exact hlast hrole
    · rw [List.concat_eq_append, ← List.cons_append, ← List.append_assoc] at hsplit
      exact hinit before b init (List.append_inj' hsplit rfl).1 hrole

end Attribute

namespace Label

open Attribute

theorem ofAttributes_concat (attributes : List Attribute) (a : Attribute) :
    ofAttributes (attributes ++ [a]) =
      (ofAttributes attributes).bind fun label => take label a := by
  rw [ofAttributes, List.foldlM_append]
  simp [ofAttributes]

/-- A label with a name if there was one among the attributes, and with a file
if there was a file name. -/
structure Reads (attributes : List Attribute) (label : Option Label) : Prop where
  inOrder : InOrder attributes
  name : label.isSome = true ↔ Has .name attributes
  file : (label.bind Label.file).isSome = true ↔ Has .filename attributes

theorem Reads.nil : Reads [] none := ⟨by simp [InOrder], by simp [Has], by simp [Has]⟩

theorem Reads.take {attributes : List Attribute} {a : Attribute} {label label' : Option Label}
    (h : Reads attributes label) (htake : take label a = some label') :
    Reads (attributes ++ [a]) label' := by
  cases hrole : a.role with
  | other =>
    simp only [Label.take, hrole, Option.some.injEq] at htake
    subst htake
    exact ⟨inOrder_concat.mpr ⟨h.inOrder, by simp [hrole]⟩, by simp [has_concat, hrole, h.name],
      by simp [has_concat, hrole, h.file]⟩
  | name =>
    simp only [Label.take, hrole, Option.some.injEq] at htake
    subst htake
    exact ⟨inOrder_concat.mpr ⟨h.inOrder, by simp [hrole]⟩, by simp [has_concat, hrole],
      by simp [has_concat, hrole, ← h.file]⟩
  | filename =>
    obtain _ | ⟨name, _ | file⟩ := label
    · simp [Label.take, hrole] at htake
    · simp only [Label.take, hrole, Option.some.injEq] at htake
      subst htake
      have hname : Has .name attributes := h.name.mp rfl
      have hfile : ¬Has .filename attributes := fun hf => nomatch h.file.mpr hf
      exact ⟨inOrder_concat.mpr ⟨h.inOrder, fun _ => ⟨hname, hfile⟩⟩,
        by simp [has_concat, hname], by simp [has_concat, hrole]⟩
    · simp [Label.take, hrole] at htake

theorem Reads.exists_take {attributes : List Attribute} {a : Attribute} {label : Option Label}
    (h : Reads attributes label)
    (ha : a.role = .filename → Has .name attributes ∧ ¬Has .filename attributes) :
    ∃ label', Label.take label a = some label' := by
  cases hrole : a.role with
  | other => exact ⟨label, by simp only [Label.take, hrole]⟩
  | name => exact ⟨_, by simp only [Label.take, hrole]; rfl⟩
  | filename =>
    obtain ⟨hname, hfile⟩ := ha hrole
    obtain _ | ⟨name, _ | file⟩ := label
    · exact nomatch h.name.mpr hname
    · exact ⟨_, by simp only [Label.take, hrole]; rfl⟩
    · exact absurd (h.file.mp rfl) hfile

/-- Attributes are read exactly if they stand in order. -/
theorem reads_of_ofAttributes {attributes : List Attribute} {label : Option Label}
    (h : ofAttributes attributes = some label) : Reads attributes label := by
  induction attributes using List.reverseRecOn generalizing label with
  | nil =>
    obtain rfl := Option.some.inj h
    exact .nil
  | append_singleton attributes a ih =>
    rw [ofAttributes_concat] at h
    obtain ⟨before, hbefore, htake⟩ := Option.bind_eq_some_iff.mp h
    exact (ih hbefore).take htake

theorem exists_ofAttributes {attributes : List Attribute} (h : InOrder attributes) :
    ∃ label, ofAttributes attributes = some label := by
  induction attributes using List.reverseRecOn with
  | nil => exact ⟨none, rfl⟩
  | append_singleton attributes a ih =>
    obtain ⟨hinit, hlast⟩ := inOrder_concat.mp h
    obtain ⟨before, hbefore⟩ := ih hinit
    obtain ⟨label, htake⟩ := (reads_of_ofAttributes hbefore).exists_take hlast
    exact ⟨label, by rw [ofAttributes_concat, hbefore, Option.bind_some, htake]⟩

/-! ## Header lines -/

/-- The attributes of each Content-Disposition among header lines. -/
def dispositions (lines : List Bytes) : List (List Attribute) :=
  lines.filterMap PartHeader.disposition?

/-- The attributes of the last Content-Disposition among header lines. -/
def lastDisposition (lines : List Bytes) : List Attribute := (dispositions lines).getLastD []

theorem ofLines_concat (lines : List Bytes) (line : Bytes) :
    ofLines (lines ++ [line]) = (ofLines lines).bind fun label => readLine label line := by
  rw [ofLines, List.foldlM_append]
  simp [ofLines]

theorem isSome_withContentType (label : Option Label) (value : String) :
    (withContentType label value).isSome = label.isSome ∧
      ((withContentType label value).bind Label.file).isSome = (label.bind Label.file).isSome := by
  obtain _ | ⟨name, _ | file⟩ := label <;> exact ⟨rfl, rfl⟩

/-- Header lines are read exactly if each Content-Disposition among them is,
and say what the last one says. -/
theorem reads_of_ofLines {lines : List Bytes} {label : Option Label}
    (h : ofLines lines = some label) :
    (∀ attributes ∈ dispositions lines, InOrder attributes) ∧
      (label.isSome = true ↔ Has .name (lastDisposition lines)) ∧
      ((label.bind Label.file).isSome = true ↔ Has .filename (lastDisposition lines)) := by
  induction lines using List.reverseRecOn generalizing label with
  | nil =>
    obtain rfl := Option.some.inj h
    exact ⟨by simp [dispositions], by simp [lastDisposition, dispositions, Has],
      by simp [lastDisposition, dispositions, Has]⟩
  | append_singleton lines line ih =>
    rw [ofLines_concat] at h
    obtain ⟨before, hbefore, hline⟩ := Option.bind_eq_some_iff.mp h
    obtain ⟨hall, hname, hfile⟩ := ih hbefore
    rw [readLine] at hline
    cases hparse : PartHeader.parse (Text.decode line) with
    | disposition attributes =>
      simp only [hparse] at hline
      have hreads := reads_of_ofAttributes hline
      have hlines : dispositions (lines ++ [line]) = dispositions lines ++ [attributes] := by
        simp [dispositions, PartHeader.disposition?, hparse]
      rw [lastDisposition, hlines, List.getLastD_concat]
      refine ⟨?_, hreads.name, hreads.file⟩
      intro as has
      rcases List.mem_append.mp has with hold | hnew
      · exact hall as hold
      · obtain rfl := List.mem_singleton.mp hnew
        exact hreads.inOrder
    | contentType value =>
      simp only [hparse, Option.some.injEq] at hline
      have hlines : dispositions (lines ++ [line]) = dispositions lines := by
        simp [dispositions, PartHeader.disposition?, hparse]
      obtain ⟨hsome, hsomeFile⟩ := isSome_withContentType before (String.ofList value)
      rw [lastDisposition, hlines, ← hline, hsome, hsomeFile]
      exact ⟨hall, hname, hfile⟩
    | other =>
      simp only [hparse, Option.some.injEq] at hline
      have hlines : dispositions (lines ++ [line]) = dispositions lines := by
        simp [dispositions, PartHeader.disposition?, hparse]
      rw [lastDisposition, hlines, ← hline]
      exact ⟨hall, hname, hfile⟩

theorem exists_ofLines {lines : List Bytes}
    (h : ∀ attributes ∈ dispositions lines, InOrder attributes) :
    ∃ label, ofLines lines = some label := by
  induction lines using List.reverseRecOn with
  | nil => exact ⟨none, rfl⟩
  | append_singleton lines line ih =>
    have hsplit : dispositions (lines ++ [line]) = dispositions lines ++ dispositions [line] :=
      List.filterMap_append ..
    obtain ⟨before, hbefore⟩ := ih fun as has => h as (by rw [hsplit]; simp [has])
    have hline : ∃ label, readLine before line = some label := by
      rw [readLine]
      cases hparse : PartHeader.parse (Text.decode line) with
      | disposition attributes =>
        refine exists_ofAttributes (h attributes ?_)
        rw [hsplit]
        simp [dispositions, PartHeader.disposition?, hparse]
      | contentType value => exact ⟨_, rfl⟩
      | other => exact ⟨_, rfl⟩
    obtain ⟨label, hlabel⟩ := hline
    exact ⟨label, by rw [ofLines_concat, hbefore, Option.bind_some, hlabel]⟩

end Label

/-! ## File names -/

/-- How many file names there are among attributes. -/
def Attribute.filenames (attributes : List Attribute) : Nat :=
  attributes.countP (·.role = .filename)

/-- How many file names there are in header lines. -/
def Label.filenames (lines : List Bytes) : Nat := Attribute.filenames (dispositions lines).flatten

theorem Label.filenames_append (lines later : List Bytes) :
    filenames (lines ++ later) = filenames lines + filenames later := by
  rw [filenames, dispositions, List.filterMap_append, List.flatten_append, Attribute.filenames,
    List.countP_append]
  rfl

theorem Label.filenames_cons (line : Bytes) (lines : List Bytes) :
    filenames (line :: lines) = filenames [line] + filenames lines :=
  filenames_append [line] lines

/-- Only a Content-Disposition has file names. -/
theorem Label.filenames_eq_zero {lines : List Bytes}
    (h : ∀ line ∈ lines, PartHeader.disposition? line = none) : filenames lines = 0 := by
  rw [filenames, dispositions, List.filterMap_eq_nil_iff.mpr h]
  rfl

theorem Attribute.filenames_le_one {attributes : List Attribute} (h : InOrder attributes) :
    filenames attributes ≤ 1 := by
  induction attributes using List.reverseRecOn with
  | nil => exact Nat.zero_le _
  | append_singleton attributes a ih =>
    obtain ⟨hinit, hlast⟩ := inOrder_concat.mp h
    rw [filenames, List.countP_append, List.countP_singleton]
    by_cases hrole : a.role = .filename
    · have hnone : attributes.countP (·.role = .filename) = 0 :=
        List.countP_eq_zero.mpr fun b hb hb' => (hlast hrole).2 ⟨b, hb, of_decide_eq_true hb'⟩
      rw [hnone]
      split <;> omega
    · rw [if_neg (by simpa using hrole), Nat.add_zero]
      exact ih hinit

theorem Attribute.filenames_flatten_le {dispositions : List (List Attribute)}
    (h : ∀ attributes ∈ dispositions, InOrder attributes) :
    filenames dispositions.flatten ≤ dispositions.length := by
  induction dispositions with
  | nil => exact Nat.zero_le _
  | cons attributes dispositions ih =>
    obtain ⟨hfirst, hrest⟩ := List.forall_mem_cons.mp h
    have hone := filenames_le_one hfirst
    have hsum := ih hrest
    rw [filenames, List.flatten_cons, List.countP_append, List.length_cons]
    rw [filenames] at hone hsum
    omega

end Multipart

import Mathlib.Data.List.Nodup
import Multipart.OrderedMap

/-!
# Ordered maps, entry by entry

Two maps are related if they have the same keys in the same order, with
related values under each (`OrderedMap.EntryWise`). An insertion keeps
this up even if it takes the relation away from the value it replaces
(`EntryWise.insert`). The values of a map are what is found under its
keys, in order (`OrderedMap.map_some_values`).
-/

namespace Multipart

namespace OrderedMap

variable {κ α β γ : Type} [DecidableEq κ] {m : OrderedMap κ α} {n : OrderedMap κ β}

theorem get?_of_mem {key : κ} {value : α} (h : (key, value) ∈ m.entries) :
    m.get? key = some value := by
  have hnodup := m.keys_nodup
  rw [get?]
  generalize m.entries = entries at h hnodup
  induction entries with
  | nil => cases h
  | cons e entries ih =>
    rw [List.map_cons, List.nodup_cons] at hnodup
    rcases List.mem_cons.mp h with rfl | htail
    · simp
    · have hne : e.1 ≠ key := by
        rintro rfl
        exact hnodup.1 (List.mem_map.mpr ⟨_, htail, rfl⟩)
      simpa [hne] using ih htail hnodup.2

theorem mem_keys_iff {key : κ} : key ∈ m.keys ↔ ∃ value, m.get? key = some value := by
  constructor
  · intro h
    obtain ⟨e, he, rfl⟩ := List.mem_map.mp h
    exact ⟨e.2, get?_of_mem he⟩
  · rintro ⟨value, h⟩
    exact List.mem_map.mpr ⟨_, mem_of_get? h, rfl⟩

theorem map_some_values (m : OrderedMap κ α) : m.values.map some = m.keys.map m.get? := by
  rw [values, keys, List.map_map, List.map_map]
  exact List.map_congr_left fun e he => (get?_of_mem he).symm

theorem mem_values_iff {value : α} : value ∈ m.values ↔ ∃ key, m.get? key = some value := by
  rw [values, List.mem_map]
  constructor
  · rintro ⟨e, he, rfl⟩
    exact ⟨e.1, get?_of_mem he⟩
  · rintro ⟨key, h⟩
    exact ⟨_, mem_of_get? h, rfl⟩

/-- No value stands twice in a map that has each under one key. -/
theorem nodup_values (h : ∀ key key' value, m.get? key = some value → m.get? key' = some value →
    key = key') : m.values.Nodup := by
  refine List.Nodup.of_map some ?_
  rw [map_some_values]
  refine List.Nodup.map_on ?_ m.keys_nodup
  intro key hkey key' _ hsame
  obtain ⟨value, hvalue⟩ := mem_keys_iff.mp hkey
  exact h key key' value hvalue (hsame ▸ hvalue)

/-- The same keys in the same order, with related values under each. -/
structure EntryWise (r : α → β → Prop) (m : OrderedMap κ α) (n : OrderedMap κ β) : Prop where
  keys : m.keys = n.keys
  related : ∀ key a b, m.get? key = some a → n.get? key = some b → r a b

namespace EntryWise

variable {r q : α → β → Prop}

theorem empty : EntryWise r (∅ : OrderedMap κ α) (∅ : OrderedMap κ β) := ⟨rfl, fun _ _ _ => nofun⟩

theorem refl {r : α → α → Prop} (h : ∀ a, r a a) (m : OrderedMap κ α) : EntryWise r m m :=
  ⟨rfl, fun _ _ _ ha hb => Option.some.inj (ha.symm.trans hb) ▸ h _⟩

theorem get? (h : EntryWise r m n) (key : κ) :
    (m.get? key = none ∧ n.get? key = none) ∨
      ∃ a b, m.get? key = some a ∧ n.get? key = some b ∧ r a b := by
  by_cases hkey : key ∈ m.keys
  · obtain ⟨a, ha⟩ := mem_keys_iff.mp hkey
    obtain ⟨b, hb⟩ := mem_keys_iff.mp (h.keys ▸ hkey)
    exact .inr ⟨a, b, ha, hb, h.related key a b ha hb⟩
  · exact .inl ⟨get?_eq_none_of_not_mem hkey, get?_eq_none_of_not_mem (h.keys ▸ hkey)⟩

/-- Apart from the value that is replaced, all others must be related. -/
theorem insert (h : EntryWise r m n) (key : κ) {a : α} {b : β} (hab : q a b)
    (hothers : ∀ other a b, other ≠ key → m.get? other = some a → n.get? other = some b →
      r a b → q a b) :
    EntryWise q (m.insert key a) (n.insert key b) := by
  refine ⟨by rw [keys_insert, keys_insert, h.keys], ?_⟩
  intro other x y hx hy
  rw [get?_insert] at hx hy
  by_cases hsame : other = key
  · rw [if_pos hsame] at hx hy
    rwa [← Option.some.inj hx, ← Option.some.inj hy]
  · rw [if_neg hsame] at hx hy
    exact hothers other x y hsame hx hy (h.related other x y hx hy)

theorem mono (h : EntryWise r m n) (hrq : ∀ a b, r a b → q a b) : EntryWise q m n :=
  ⟨h.keys, fun key a b ha hb => hrq a b (h.related key a b ha hb)⟩

/-- Maps with equal values are equal. -/
theorem eq {m n : OrderedMap κ α} (h : EntryWise Eq m n) : m = n := by
  have hentries (m : OrderedMap κ α) : m.entries = m.keys.zip m.values := by
    rw [OrderedMap.keys, OrderedMap.values, List.zip_map', List.map_id']
  have hvalues : m.values.map some = n.values.map some := by
    rw [map_some_values, map_some_values, h.keys]
    refine List.map_congr_left fun key _ => ?_
    rcases h.get? key with ⟨hm, hn⟩ | ⟨a, b, hm, hn, rfl⟩ <;> rw [hm, hn]
  ext1
  rw [hentries m, hentries n, h.keys,
    List.map_injective_iff.mpr (fun _ _ => Option.some.inj) hvalues]

/-- Values in order are related one by one. -/
theorem forall₂_values (h : EntryWise r m n) : List.Forall₂ r m.values n.values := by
  have hkeys : List.Forall₂ Eq (m.entries.map Prod.fst) (n.entries.map Prod.fst) := by
    rw [List.forall₂_eq_eq_eq]
    exact h.keys
  rw [List.forall₂_map_left_iff, List.forall₂_map_right_iff] at hkeys
  rw [values, values, List.forall₂_map_left_iff, List.forall₂_map_right_iff]
  refine (List.forall₂_iff_zip.mp hkeys).elim fun hlength hpairs => ?_
  refine List.forall₂_iff_zip.mpr ⟨hlength, fun {e e'} hmem => ?_⟩
  obtain ⟨he, he'⟩ := List.of_mem_zip hmem
  exact h.related e.1 e.2 e'.2 (get?_of_mem he) (hpairs hmem ▸ get?_of_mem he')

/-- What is the same of related values is the same of the values in order. -/
theorem map_values {f : α → γ} {g : β → γ} (h : EntryWise r m n)
    (hfg : ∀ a b, r a b → f a = g b) : m.values.map f = n.values.map g := by
  apply List.map_injective_iff.mpr fun _ _ => Option.some.inj
  have hm : m.values.map (fun a => some (f a)) = m.keys.map fun key => (m.get? key).map f := by
    rw [show (fun a => some (f a)) = Option.map f ∘ some from rfl, ← List.map_map,
      map_some_values, List.map_map]
    rfl
  have hn : n.values.map (fun b => some (g b)) = n.keys.map fun key => (n.get? key).map g := by
    rw [show (fun b => some (g b)) = Option.map g ∘ some from rfl, ← List.map_map,
      map_some_values, List.map_map]
    rfl
  rw [List.map_map, List.map_map]
  refine hm.trans (Eq.trans ?_ hn.symm)
  rw [← h.keys]
  refine List.map_congr_left ?_
  intro key _
  rcases h.get? key with ⟨ha, hb⟩ | ⟨a, b, ha, hb, hab⟩
  · rw [ha, hb]
    rfl
  · rw [ha, hb, Option.map_some, Option.map_some, hfg a b hab]

end EntryWise

end OrderedMap

end Multipart

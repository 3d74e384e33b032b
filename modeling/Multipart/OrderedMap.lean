/-!
# Ordered maps

A map that keeps its keys in the order in which each was first set.
Setting a key again replaces its value where it stands; a new key goes
to the end. `keys` is the view: `keys_insert` says what an insertion
does to it, `get?_insert` what it does to the values.
-/

namespace Multipart

/-- Values by key, in the order of each key's first insertion. -/
structure OrderedMap (κ α : Type) where
  entries : List (κ × α)
  keys_nodup : (entries.map Prod.fst).Nodup

namespace OrderedMap

variable {κ α : Type}

def empty : OrderedMap κ α := ⟨[], by simp⟩

instance : Inhabited (OrderedMap κ α) := ⟨empty⟩

instance : EmptyCollection (OrderedMap κ α) := ⟨empty⟩

@[ext] theorem ext {m n : OrderedMap κ α} (h : m.entries = n.entries) : m = n := by
  cases m
  cases n
  simp_all

instance [DecidableEq κ] [DecidableEq α] : DecidableEq (OrderedMap κ α) := fun m n =>
  decidable_of_iff (m.entries = n.entries) ⟨ext, fun h => by rw [h]⟩

def keys (m : OrderedMap κ α) : List κ := m.entries.map Prod.fst

def values (m : OrderedMap κ α) : List α := m.entries.map Prod.snd

def size (m : OrderedMap κ α) : Nat := m.entries.length

def isEmpty (m : OrderedMap κ α) : Bool := m.entries.isEmpty

@[simp] theorem entries_empty : (∅ : OrderedMap κ α).entries = [] := rfl

variable [DecidableEq κ]

def get? (m : OrderedMap κ α) (key : κ) : Option α :=
  (m.entries.find? fun e => decide (e.1 = key)).map Prod.snd

/-- Replaces the value of `key` in a list of entries, wherever it has one. -/
def replaceIn (key : κ) (value : α) (entries : List (κ × α)) : List (κ × α) :=
  entries.map fun e => if e.1 = key then (key, value) else e

theorem map_fst_replaceIn (key : κ) (value : α) (entries : List (κ × α)) :
    (replaceIn key value entries).map Prod.fst = entries.map Prod.fst := by
  rw [replaceIn, List.map_map]
  apply List.map_congr_left
  intro e _
  simp only [Function.comp_apply]
  split
  · next h => exact h.symm
  · rfl

/-- Sets the value of `key` in a list of entries: in place if it has one,
at the end if not. -/
def insertIn (key : κ) (value : α) (entries : List (κ × α)) : List (κ × α) :=
  if key ∈ entries.map Prod.fst then replaceIn key value entries else entries ++ [(key, value)]

theorem map_fst_insertIn (key : κ) (value : α) (entries : List (κ × α)) :
    (insertIn key value entries).map Prod.fst =
      if key ∈ entries.map Prod.fst then entries.map Prod.fst
      else entries.map Prod.fst ++ [key] := by
  rw [insertIn]
  split
  · exact map_fst_replaceIn key value entries
  · simp

theorem nodup_insertIn {key : κ} {value : α} {entries : List (κ × α)}
    (h : (entries.map Prod.fst).Nodup) : ((insertIn key value entries).map Prod.fst).Nodup := by
  rw [map_fst_insertIn]
  split
  · exact h
  · next new =>
    rw [List.nodup_append]
    refine ⟨h, by simp, ?_⟩
    intro a ha b hb
    obtain rfl : b = key := by simpa using hb
    rintro rfl
    exact new ha

/-- An entry after an insertion is the one that was set or an old one. -/
theorem mem_insertIn {key : κ} {value : α} {entries : List (κ × α)} {e : κ × α}
    (h : e ∈ insertIn key value entries) : e = (key, value) ∨ e ∈ entries := by
  rw [insertIn] at h
  split at h
  · obtain ⟨old, hold, rfl⟩ := List.mem_map.mp h
    split
    · exact .inl rfl
    · exact .inr hold
  · rcases List.mem_append.mp h with hold | hnew
    · exact .inr hold
    · exact .inl (List.mem_singleton.mp hnew)

def insert (m : OrderedMap κ α) (key : κ) (value : α) : OrderedMap κ α :=
  ⟨insertIn key value m.entries, nodup_insertIn m.keys_nodup⟩

def erase (m : OrderedMap κ α) (key : κ) : OrderedMap κ α :=
  ⟨m.entries.filter fun e => decide (e.1 ≠ key),
    m.keys_nodup.sublist (List.filter_sublist.map Prod.fst)⟩

theorem keys_insert (m : OrderedMap κ α) (key : κ) (value : α) :
    (m.insert key value).keys = if key ∈ m.keys then m.keys else m.keys ++ [key] :=
  map_fst_insertIn key value m.entries

theorem get?_eq_none_of_not_mem {m : OrderedMap κ α} {key : κ} (h : key ∉ m.keys) :
    m.get? key = none := by
  rw [get?, Option.map_eq_none_iff, List.find?_eq_none]
  intro e he hk
  exact h (List.mem_map.mpr ⟨e, he, of_decide_eq_true hk⟩)

theorem find?_replaceIn (key : κ) (value : α) (other : κ) (entries : List (κ × α)) :
    ((replaceIn key value entries).find? fun e => decide (e.1 = other)).map Prod.snd =
      if other = key ∧ key ∈ entries.map Prod.fst then some value
      else (entries.find? fun e => decide (e.1 = other)).map Prod.snd := by
  induction entries with
  | nil => simp [replaceIn]
  | cons e entries ih =>
    obtain ⟨k, v⟩ := e
    simp only [replaceIn, List.map_cons] at ih ⊢
    by_cases hk : k = key <;> by_cases ho : k = other <;> grind

/-- The value that was set is found under its key, and every other key
keeps what it had. -/
theorem get?_insert (m : OrderedMap κ α) (key : κ) (value : α) (other : κ) :
    (m.insert key value).get? other = if other = key then some value else m.get? other := by
  rw [get?]
  show ((insertIn key value m.entries).find? _).map Prod.snd = _
  unfold insertIn
  split
  · next old =>
    rw [find?_replaceIn, get?]
    simp [old]
  · next new =>
    rw [List.find?_append]
    by_cases same : other = key
    · subst same
      have absent := get?_eq_none_of_not_mem (m := m) new
      rw [get?, Option.map_eq_none_iff] at absent
      simp [absent]
    · have same' : key ≠ other := fun e => same e.symm
      simp [same, same', get?]

theorem get?_erase (m : OrderedMap κ α) (key other : κ) :
    (m.erase key).get? other = if other = key then none else m.get? other := by
  rw [get?, erase, List.find?_filter]
  split
  · next same =>
    subst same
    rw [Option.map_eq_none_iff, List.find?_eq_none]
    simp
  · next same =>
    rw [get?]
    congr 2
    funext e
    by_cases hk : e.1 = other <;> simp_all

/-- What is found under a key is an entry. -/
theorem mem_of_get? {m : OrderedMap κ α} {key : κ} {value : α} (h : m.get? key = some value) :
    (key, value) ∈ m.entries := by
  obtain ⟨e, he, rfl⟩ := Option.map_eq_some_iff.mp h
  have hkey : e.1 = key := by simpa using List.find?_some he
  rw [← hkey]
  exact List.mem_of_find?_eq_some he

end OrderedMap

end Multipart

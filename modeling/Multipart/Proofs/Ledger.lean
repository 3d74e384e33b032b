import Multipart.Proofs.EntryWise
import Multipart.Proofs.Keeping
import Multipart.Decoder.Run

/-!
# The files of a decoder

A ledger is what there is to know of a decoder's files once their names
are left out: files are known by number. `Ledger.Covers` ties a ledger to
a storage, to the temp file that is being filled, and to the files of the
form; it says that every file of the decoder that is on disk is exactly
one of these. Each operation on files has one lemma, which names the
ledger after it.
-/

namespace Multipart

open Function (update)

/-- How many names were asked for, what the files hold that are there, which
of them is being filled, and which belong to the form. -/
structure Ledger where
  asked : Nat
  held : Nat → Option Bytes
  opened : Option Nat
  stored : OrderedMap String Nat

namespace Ledger

/-- The ledger of a decoder that has no file. -/
def start : Ledger := ⟨0, fun _ => none, none, ∅⟩

/-- A name was used up for nothing. -/
def refuse (c : Ledger) : Ledger := { c with asked := c.asked + 1 }

/-- The file with the next number is created. -/
def create (c : Ledger) : Ledger :=
  { c with
    asked := c.asked + 1
    held := update c.held c.asked (some [])
    opened := some c.asked }

/-- The file that is being filled is removed. -/
def drop (c : Ledger) : Ledger :=
  match c.opened with
  | some k => { c with held := update c.held k none, opened := none }
  | none => c

/-- Bytes go to the file that is being filled. -/
def write (c : Ledger) (bytes : Bytes) : Ledger :=
  match c.opened with
  | some k => { c with held := update c.held k ((c.held k).map (· ++ bytes)) }
  | none => c

/-- What is there once the file of a field, if it has one, is removed. -/
def heldWithout (c : Ledger) (field : String) : Nat → Option Bytes :=
  match c.stored.get? field with
  | some j => update c.held j none
  | none => c.held

theorem heldWithout_of_ne {c : Ledger} {field : String} {k : Nat}
    (hk : c.stored.get? field ≠ some k) : c.heldWithout field k = c.held k := by
  cases hfield : c.stored.get? field with
  | none => simp only [heldWithout, hfield]
  | some j =>
    simp only [heldWithout, hfield]
    have hkj : k ≠ j := fun hkj => hk (hkj ▸ hfield)
    exact Function.update_of_ne hkj ..

/-- The file that was filled becomes that of a field. -/
def publish (c : Ledger) (field : String) : Ledger :=
  match c.opened with
  | some k =>
    { c with
      held := c.heldWithout field
      opened := none
      stored := c.stored.insert field k }
  | none => c

@[simp] theorem asked_write (c : Ledger) (bytes : Bytes) : (c.write bytes).asked = c.asked := by
  rw [write]
  split <;> rfl

@[simp] theorem asked_publish (c : Ledger) (field : String) :
    (c.publish field).asked = c.asked := by
  rw [publish]
  split <;> rfl

@[simp] theorem asked_drop (c : Ledger) : c.drop.asked = c.asked := by
  rw [drop]
  split <;> rfl

@[simp] theorem opened_drop (c : Ledger) : c.drop.opened = none := by
  rw [drop]
  cases h : c.opened with
  | none => exact h
  | some k => rfl

@[simp] theorem opened_publish (c : Ledger) (field : String) : (c.publish field).opened = none := by
  rw [publish]
  cases h : c.opened with
  | none => exact h
  | some k => rfl

/-- All files are removed. -/
def clear (c : Ledger) : Ledger := { c with held := fun _ => none, opened := none, stored := ∅ }

end Ledger

/-- A stored file is the file with this number, as large as it says and no
larger than allowed. -/
def StoredFile.StoredAs (o : Origin) (held : Nat → Option Bytes) (f : StoredFile)
    (k : Nat) : Prop :=
  f.path = o.path k ∧ ∃ data, held k = some data ∧ f.size = data.length ∧ data.length ≤ o.limit

/-- A temp file is being filled as the file with this number. -/
structure TempFile.FilledAs (o : Origin) (s : Storage) (t : TempFile) (k : Nat)
    (data : Bytes) : Prop where
  fills : t.Fills o s k
  size_eq : t.size = data.length
  limit_eq : t.limit = o.limit
  length_le : data.length ≤ o.limit

/-- The ledger lists the files of a decoder that fills `target?` and has
published `files`: no file is claimed twice, and none lies about unclaimed. -/
structure Ledger.Covers (o : Origin) (base : Location → Option Bytes)
    (target? : Option TempFile) (files : OrderedMap String StoredFile) (s : Storage)
    (c : Ledger) : Prop where
  keeps : s.Keeps o base c.asked c.held
  closed : target? = none → c.opened = none
  filled : ∀ t, target? = some t →
    ∃ k data, c.opened = some k ∧ c.held k = some data ∧ t.FilledAs o s k data
  files : files.EntryWise (StoredFile.StoredAs o c.held) c.stored
  claimed : ∀ k, c.held k ≠ none → c.opened = some k ∨ ∃ field, c.stored.get? field = some k
  distinct : ∀ field field' k, c.stored.get? field = some k → c.stored.get? field' = some k →
    field = field'
  apart : ∀ field k, c.stored.get? field = some k → c.opened ≠ some k

namespace Ledger.Covers

variable {o : Origin} {base : Location → Option Bytes} {target? : Option TempFile}
  {t : TempFile} {files : OrderedMap String StoredFile} {s : Storage} {c : Ledger} {l : Location}

theorem start (hfresh : o.Fresh) :
    Ledger.start.Covers o o.disk.fileAt? none ∅ ⟨o.disk, o.names⟩ where
  keeps := .start hfresh
  closed _ := rfl
  filled := nofun
  files := .empty
  claimed _ h := absurd rfl h
  distinct _ _ _ := nofun
  apart _ _ := nofun

theorem held_of_stored (h : c.Covers o base target? files s) {field : String} {k : Nat}
    (hk : c.stored.get? field = some k) : ∃ f data, files.get? field = some f ∧
      f.path = o.path k ∧ c.held k = some data ∧ f.size = data.length ∧ data.length ≤ o.limit := by
  rcases h.files.get? field with ⟨-, hnone⟩ | ⟨f, k', hf, hk', hpath, data, hdata, hsize⟩
  · rw [hk] at hnone
    cases hnone
  · obtain rfl := Option.some.inj (hk.symm.trans hk')
    exact ⟨f, data, hf, hpath, hdata, hsize⟩

theorem held_eq_none (h : c.Covers o base none ∅ s) (k : Nat) : c.held k = none := by
  by_contra hheld
  rcases h.claimed k hheld with hopen | ⟨field, hfield⟩
  · rw [h.closed rfl] at hopen
    cases hopen
  · obtain ⟨f, -, hf, -⟩ := h.held_of_stored hfield
    cases hf

theorem lies_of_mem (h : c.Covers o base target? files s) {f : StoredFile}
    (hf : f ∈ files.values) :
    ∃ k l data, (∃ field, c.stored.get? field = some k) ∧ f.path = o.path k ∧ o.place k = .ok l ∧
      c.held k = some data ∧ s.disk.fileAt? l = some data ∧ f.size = data.length ∧
      data.length ≤ o.limit := by
  obtain ⟨field, hfield⟩ := OrderedMap.mem_values_iff.mp hf
  rcases h.files.get? field with ⟨hnone, -⟩ | ⟨f', k, hf', hk, hpath, data, hdata, hsize, hle⟩
  · rw [hfield] at hnone
    cases hnone
  · obtain rfl := Option.some.inj (hfield.symm.trans hf')
    obtain ⟨l, hl, hat⟩ := h.keeps.at_held k data hdata
    exact ⟨k, l, data, ⟨field, hk⟩, hpath, hl, hdata, hat, hsize, hle⟩

theorem paths_eq (h : c.Covers o base target? files s) :
    files.values.map StoredFile.path = c.stored.values.map o.path :=
  h.files.map_values fun _ _ hstored => hstored.1

theorem nodup_paths (h : c.Covers o base target? files s) :
    (files.values.map StoredFile.path).Nodup := by
  rw [h.paths_eq]
  exact (OrderedMap.nodup_values h.distinct).map fun _ _ => Origin.path_inj

/-- What is true of a ledger stays true as long as its entries keep their
content. -/
theorem files_of_held (h : c.Covers o base target? files s) {held : Nat → Option Bytes}
    (hheld : ∀ field k, c.stored.get? field = some k → held k = c.held k) :
    files.EntryWise (StoredFile.StoredAs o held) c.stored := by
  refine ⟨h.files.keys, ?_⟩
  intro field f k hf hk
  obtain ⟨hpath, data, hdata, hsize⟩ := h.files.related field f k hf hk
  exact ⟨hpath, data, (hheld field k hk).trans hdata, hsize⟩

theorem lt_asked_of_stored (h : c.Covers o base target? files s) {field : String} {k : Nat}
    (hk : c.stored.get? field = some k) : k < c.asked := by
  obtain ⟨-, data, -, -, hdata, -⟩ := h.held_of_stored hk
  exact h.keeps.lt_asked k (by simp [hdata])

/-! ## Creating -/

theorem create_of_error (h : c.Covers o base none files s) {cause : IoError}
    (hplace : o.place c.asked = .error cause) :
    ∃ s', TempFile.create o.folder o.limit s =
        (.error (.resource (.openFile (o.path c.asked).text o.folder) cause), s') ∧
      c.refuse.Covers o base none files s' :=
  ⟨_, h.keeps.create_of_error hplace o.limit,
    { keeps := h.keeps.issue
      closed := h.closed
      filled := nofun
      files := h.files
      claimed := h.claimed
      distinct := h.distinct
      apart := h.apart }⟩

theorem create_of_ok (h : c.Covers o base none files s) (hplace : o.place c.asked = .ok l) :
    ∃ t s', TempFile.create o.folder o.limit s = (.ok t, s') ∧ t.path = o.path c.asked ∧
      t.size = 0 ∧ t.limit = o.limit ∧ c.create.Covers o base (some t) files s' := by
  obtain ⟨t, s', hcreate, hsize, hlimit, hfills, hkeeps⟩ := h.keeps.create_of_ok hplace o.limit
  have hnew : ∀ field k, c.stored.get? field = some k → k ≠ c.asked :=
    fun field k hk => Nat.ne_of_lt (h.lt_asked_of_stored hk)
  refine ⟨t, s', hcreate, hfills.1, hsize, hlimit, ?_⟩
  constructor
  · exact hkeeps
  · exact nofun
  · rintro t' ⟨⟩
    exact ⟨c.asked, [], rfl, Function.update_self .., ⟨hfills, hsize, hlimit, Nat.zero_le _⟩⟩
  · exact h.files_of_held fun field k hk => Function.update_of_ne (hnew field k hk) ..
  · intro k hk
    by_cases hka : k = c.asked
    · exact .inl (hka ▸ rfl)
    · simp only [create, Function.update_of_ne hka] at hk
      rcases h.claimed k hk with hopen | hfield
      · rw [h.closed rfl] at hopen
        cases hopen
      · exact .inr hfield
  · exact h.distinct
  · rintro field k hk ⟨⟩
    exact hnew field _ hk rfl

/-! ## Filling -/

theorem append_of_error (h : c.Covers o base (some t) files s) {bytes : Bytes}
    (hlarge : t.size + bytes.length > o.limit) :
    t.append bytes s = .error (.limitExceeded o.limit) := by
  obtain ⟨k, data, -, -, hfilled⟩ := h.filled t rfl
  rw [TempFile.append, hfilled.limit_eq, if_pos hlarge]

theorem append_of_ok (h : c.Covers o base (some t) files s) {bytes : Bytes}
    (hfits : t.size + bytes.length ≤ o.limit) :
    ∃ t' s', t.append bytes s = .ok (t', s') ∧ t'.path = t.path ∧ t'.size = t.size + bytes.length ∧
      t'.limit = o.limit ∧ (c.write bytes).Covers o base (some t') files s' := by
  obtain ⟨k, data, hopen, hdata, hfilled⟩ := h.filled t rfl
  obtain ⟨-, file, l, hhandle, hl, honly⟩ := hfilled.fills
  have hwrite : c.write bytes = { c with held := update c.held k (some (data ++ bytes)) } := by
    rw [write, hopen]
    simp only [hdata, Option.map_some]
  have hlarge : ¬t.size + bytes.length > t.limit := by
    rw [hfilled.limit_eq]
    omega
  have hlength : t.size + bytes.length = (data ++ bytes).length := by
    rw [hfilled.size_eq, List.length_append]
  rw [hwrite]
  -- An empty write leaves everything as it is.
  rcases List.eq_nil_or_concat bytes with rfl | ⟨init, last, hbytes⟩
  · refine ⟨t, s, ?_, rfl, rfl, hfilled.limit_eq, ?_⟩
    · rw [TempFile.append, if_neg hlarge]
      rfl
    · rw [List.append_nil, ← hdata, Function.update_eq_self]
      exact h
  · have hne : bytes.isEmpty = false := by
      rw [hbytes]
      simp
    have hkeep : ∀ j, j ≠ k → update c.held k (some (data ++ bytes)) j = c.held j :=
      fun j hj => Function.update_of_ne hj ..
    refine ⟨{ t with size := t.size + bytes.length }, s.onDisk (·.append file bytes), ?_, rfl, rfl,
      hfilled.limit_eq, ?_⟩
    · simp only [TempFile.append, if_neg hlarge, hne, hhandle]
      rfl
    · constructor
      · exact h.keeps.append hfilled.fills hdata hhandle
      · exact nofun
      · rintro t' ⟨⟩
        refine ⟨k, data ++ bytes, hopen, Function.update_self .., ?_⟩
        exact ⟨Storage.Keeps.fills_append hfilled.fills file _, hlength, hfilled.limit_eq,
          hlength ▸ hfits⟩
      · refine h.files_of_held fun field j hj => hkeep j ?_
        rintro rfl
        exact h.apart field j hj hopen
      · intro j hj
        refine h.claimed j fun hnone => hj ?_
        by_cases hjk : j = k
        · rw [hjk, hdata] at hnone
          cases hnone
        · exact (hkeep j hjk).trans hnone
      · exact h.distinct
      · exact h.apart

/-! ## Removing -/

theorem discard (h : c.Covers o base (some t) files s) :
    c.drop.Covers o base none files (t.discard s) := by
  obtain ⟨k, data, hopen, hdata, hfilled⟩ := h.filled t rfl
  have hdrop : c.drop = { c with held := update c.held k none, opened := none } := by
    rw [drop, hopen]
  rw [hdrop, TempFile.discard, hfilled.fills.1]
  constructor
  · exact h.keeps.remove (h.keeps.free_of_held (by simp [hdata]))
  · exact fun _ => rfl
  · exact nofun
  · refine h.files_of_held fun field j hj => Function.update_of_ne ?_ ..
    rintro rfl
    exact h.apart field j hj hopen
  · intro j hj
    by_cases hjk : j = k
    · simp [hjk] at hj
    · simp only [Function.update_of_ne hjk] at hj
      refine (h.claimed j hj).imp_left fun hj => absurd ?_ hjk
      exact Option.some.inj (hj.symm.trans hopen)
  · exact h.distinct
  · exact fun field j _ => nofun

theorem dropOpenFile {part? : Option FilePart}
    (h : c.Covers o base (part?.map FilePart.target) files s) :
    c.drop.Covers o base none files (Decoder.dropOpenFile part? s) := by
  cases part? with
  | none =>
    rw [drop, h.closed rfl]
    exact h
  | some part => exact h.discard

/-! ## Publishing -/

/-- The file of a field that is about to be replaced is removed. -/
theorem keeps_heldWithout (h : c.Covers o base target? files s) (field : String) :
    Storage.Keeps o base c.asked (c.heldWithout field)
      (match files.get? field with
      | some replaced => s.onDisk (·.remove replaced.path)
      | none => s) := by
  rcases h.files.get? field with ⟨hf, hk⟩ | ⟨f, k, hf, hk, hpath, data, hdata, -⟩
  · simp only [heldWithout, hf, hk]
    exact h.keeps
  · simp only [heldWithout, hf, hk, hpath]
    exact h.keeps.remove (h.keeps.free_of_held (by simp [hdata]))

theorem publishFile {form : Form} (h : c.Covers o base (some t) form.files s)
    (field : String) {f : StoredFile} (hpath : f.path = t.path) (hsize : f.size = t.size) :
    (c.publish field).Covers o base none (form.withFile field f).files
      { s with disk := (form.publishFile field f s.disk).2 } := by
  obtain ⟨k, data, hopen, hdata, hfilled⟩ := h.filled t rfl
  have hpublish :
      c.publish field = ⟨c.asked, c.heldWithout field, none, c.stored.insert field k⟩ := by
    rw [publish, hopen]
  have hkeeps := h.keeps_heldWithout field
  have hstorage : ({ s with disk := (form.publishFile field f s.disk).2 } : Storage) =
      (match form.files.get? field with
      | some replaced => s.onDisk (·.remove replaced.path)
      | none => s) := by
    rw [Form.publishFile]
    cases form.files.get? field <;> rfl
  rw [hpublish, hstorage]
  constructor
  · exact hkeeps
  · exact fun _ => rfl
  · rintro t' ⟨⟩
  · refine h.files.insert field ?_ fun other f' k' hother hf' hk' hstored => ?_
    · refine ⟨hpath.trans hfilled.fills.1, data, ?_, hsize.trans hfilled.size_eq, hfilled.length_le⟩
      exact (heldWithout_of_ne fun hk => h.apart field k hk hopen).trans hdata
    · obtain ⟨hpath', data', hdata', hsize'⟩ := hstored
      refine ⟨hpath', data', ?_, hsize'⟩
      exact (heldWithout_of_ne fun hk => hother (h.distinct other field k' hk' hk)).trans hdata'
  · intro j (hj : c.heldWithout field j ≠ none)
    right
    by_cases hjk : j = k
    · exact ⟨field, by rw [OrderedMap.get?_insert, if_pos rfl, hjk]⟩
    · have hne : c.stored.get? field ≠ some j := by
        intro hfield
        simp [heldWithout, hfield] at hj
      rw [heldWithout_of_ne hne] at hj
      rcases h.claimed j hj with hjopen | ⟨other, hother⟩
      · exact absurd (Option.some.inj (hjopen.symm.trans hopen)) hjk
      · refine ⟨other, ?_⟩
        rw [OrderedMap.get?_insert, if_neg, hother]
        rintro rfl
        exact hne hother
  · intro first second j hfirst hsecond
    rw [OrderedMap.get?_insert] at hfirst hsecond
    split at hfirst <;> split at hsecond
    · next h₁ h₂ => exact h₁.trans h₂.symm
    · obtain rfl := Option.some.inj hfirst
      exact absurd hopen (h.apart second k hsecond)
    · obtain rfl := Option.some.inj hsecond
      exact absurd hopen (h.apart first k hfirst)
    · exact h.distinct first second j hfirst hsecond
  · rintro other j - ⟨⟩

/-! ## Releasing -/

theorem removeFiles {form : Form} (h : c.Covers o base none form.files s) :
    c.clear.Covers o base none ∅ (s.onDisk form.removeFiles) := by
  have hremove : form.removeFiles =
      fun d => (form.files.values.map StoredFile.path).foldl Disk.remove d :=
    funext form.removeFiles_eq
  have hkeeps := h.keeps.removeAll h.paths_eq fun k hk => by
    obtain ⟨field, hfield⟩ := OrderedMap.mem_values_iff.mp hk
    obtain ⟨-, data, -, -, hdata, -⟩ := h.held_of_stored hfield
    exact h.keeps.free_of_held (by simp [hdata])
  have hnone : (fun k => if k ∈ c.stored.values then none else c.held k) = fun _ => none := by
    funext k
    split
    · rfl
    · next hk =>
      by_contra hheld
      rcases h.claimed k hheld with hopen | hfield
      · rw [h.closed rfl] at hopen
        cases hopen
      · exact hk (OrderedMap.mem_values_iff.mpr hfield)
  rw [hnone] at hkeeps
  rw [hremove]
  constructor
  · exact hkeeps
  · exact fun _ => rfl
  · exact nofun
  · exact .empty
  · exact fun _ hk => absurd rfl hk
  · exact fun _ _ _ => nofun
  · exact fun _ _ => nofun

theorem clear_drop (c : Ledger) : c.drop.clear = c.clear := by
  rw [drop]
  split <;> rfl

/-- What a decoder that gives up leaves behind: nothing. -/
theorem release {d : Decoder}
    (h : c.Covers o base (d.stage.openFile?.map FilePart.target) d.form.files s) :
    c.clear.Covers o base none ∅ (d.release s) := by
  have hclear := h.dropOpenFile.removeFiles
  rwa [clear_drop] at hclear

theorem handOver (h : c.Covers o base none files s) :
    c.clear.Covers o s.disk.fileAt? none ∅ s where
  keeps := h.keeps.handOver
  closed _ := rfl
  filled := nofun
  files := .empty
  claimed _ hk := absurd rfl hk
  distinct _ _ _ := nofun
  apart _ _ := nofun

end Ledger.Covers

end Multipart

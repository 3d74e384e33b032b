import Multipart.Proofs.Ledger
import Multipart.Proofs.Renaming

/-!
# Renumbered files

Two decoders that do the same ask for names in the same order, and may get
different numbers: where one has number `k`, the other has number `σ k`.
Their ledgers are then the same up to `σ` (`Ledger.Renumbered`), and each
operation on files keeps that up as long as the same numbers can be opened
for both, so such decoders run in lockstep (`Holdings.lockstep_renumbered`).

On the way the handles of files that belong to somebody else stay what they
are (`Disk.Names`).
-/

namespace Multipart

open Function (update)

/-! ## Ledgers -/

/-- One ledger has number `σ k` where the other has number `k`, now and for
the names that come next. -/
structure Ledger.Renumbered (σ : Nat → Nat) (c c' : Ledger) : Prop where
  next : ∀ m, σ (c'.asked + m) = c.asked + m
  held : c.held ∘ σ = c'.held
  only : ∀ n, c.held n ≠ none → ∃ k, σ k = n
  opened : c.opened = c'.opened.map σ
  stored : c.stored.EntryWise (fun n k => n = σ k) c'.stored

namespace Ledger.Renumbered

variable {σ : Nat → Nat} {c c' : Ledger}

theorem refl (c : Ledger) : Renumbered id c c where
  next _ := rfl
  held := rfl
  only n _ := ⟨n, rfl⟩
  opened := by rw [Option.map_id, id]
  stored := .refl (fun _ => rfl) _

theorem asked_eq (h : Renumbered σ c c') : c.asked = σ c'.asked := (h.next 0).symm

theorem refuse (h : Renumbered σ c c') : Renumbered σ c.refuse c'.refuse where
  next m := by
    have hnext := h.next (1 + m)
    rwa [← Nat.add_assoc, ← Nat.add_assoc] at hnext
  held := h.held
  only := h.only
  opened := h.opened
  stored := h.stored

/-- What is entered under renumbered numbers stays renumbered. -/
theorem update_held (hσ : σ.Injective) (h : Renumbered σ c c') (k : Nat)
    (data? : Option Bytes) :
    update c.held (σ k) data? ∘ σ = update c'.held k data? ∧
      ∀ n, update c.held (σ k) data? n ≠ none → ∃ k, σ k = n := by
  refine ⟨?_, ?_⟩
  · rw [Function.update_comp_eq_of_injective _ hσ, h.held]
  · intro n hn
    by_cases hnk : n = σ k
    · exact ⟨k, hnk.symm⟩
    · rw [Function.update_of_ne hnk] at hn
      exact h.only n hn

theorem create (hσ : σ.Injective) (h : Renumbered σ c c') : Renumbered σ c.create c'.create := by
  obtain ⟨hheld, honly⟩ := h.update_held hσ c'.asked (some [])
  rw [← h.asked_eq] at hheld honly
  exact ⟨h.refuse.next, hheld, honly, congrArg some h.asked_eq, h.stored⟩

theorem write (hσ : σ.Injective) (h : Renumbered σ c c') (bytes : Bytes) :
    Renumbered σ (c.write bytes) (c'.write bytes) := by
  have hopened := h.opened
  cases hk : c'.opened with
  | none =>
    rw [hk] at hopened
    simp only [Ledger.write, hopened, hk]
    exact h
  | some k =>
    rw [hk] at hopened
    have hdata : c.held (σ k) = c'.held k := congrFun h.held k
    obtain ⟨hheld, honly⟩ := h.update_held hσ k ((c'.held k).map (· ++ bytes))
    simp only [Ledger.write, hopened, hk, Option.map_some, hdata]
    exact ⟨h.next, hheld, honly, rfl, h.stored⟩

theorem drop (hσ : σ.Injective) (h : Renumbered σ c c') : Renumbered σ c.drop c'.drop := by
  have hopened := h.opened
  cases hk : c'.opened with
  | none =>
    rw [hk] at hopened
    simp only [Ledger.drop, hopened, hk]
    exact h
  | some k =>
    rw [hk] at hopened
    obtain ⟨hheld, honly⟩ := h.update_held hσ k none
    simp only [Ledger.drop, hopened, hk, Option.map_some]
    exact ⟨h.next, hheld, honly, rfl, h.stored⟩

theorem heldWithout (hσ : σ.Injective) (h : Renumbered σ c c') (field : String) :
    c.heldWithout field ∘ σ = c'.heldWithout field ∧
      ∀ n, c.heldWithout field n ≠ none → ∃ k, σ k = n := by
  rcases h.stored.get? field with ⟨hn, hk⟩ | ⟨n, k, hn, hk, rfl⟩
  · simp only [Ledger.heldWithout, hn, hk]
    exact ⟨h.held, h.only⟩
  · simp only [Ledger.heldWithout, hn, hk]
    exact h.update_held hσ k none

theorem publish (hσ : σ.Injective) (h : Renumbered σ c c') (field : String) :
    Renumbered σ (c.publish field) (c'.publish field) := by
  have hopened := h.opened
  cases hk : c'.opened with
  | none =>
    rw [hk] at hopened
    simp only [Ledger.publish, hopened, hk]
    exact h
  | some k =>
    rw [hk] at hopened
    obtain ⟨hheld, honly⟩ := h.heldWithout hσ field
    simp only [Ledger.publish, hopened, hk, Option.map_some]
    exact ⟨h.next, hheld, honly, rfl, h.stored.insert field rfl fun _ _ _ _ _ _ hother => hother⟩

theorem clear (h : Renumbered σ c c') : Renumbered σ c.clear c'.clear :=
  ⟨h.next, rfl, fun _ hn => absurd rfl hn, rfl, .empty⟩

end Ledger.Renumbered

/-! ## Names of open files -/

/-- An open file has one name, at this location. -/
def Disk.Names (d : Disk) (l : Location) (file : FileId) : Prop :=
  ∀ x, d.entries.get? x = some file ↔ x = l

namespace Disk.Names

variable {d d' : Disk} {l : Location} {file : FileId} {path : FilePath}

theorem create (h : d.Names l file) {new : FileId} (hcreate : d.create path = .ok (new, d')) :
    d'.Names l file := by
  have hl : d.entries.get? l = some file := (h l).mpr rfl
  rw [Disk.create] at hcreate
  cases hplace : d.place path with
  | error cause =>
    rw [hplace] at hcreate
    cases hcreate
  | ok l' =>
    simp only [hplace, bind, Except.bind] at hcreate
    split at hcreate
    · cases hcreate
      exact h
    · next hnew =>
      cases hcreate
      intro x
      rw [Disk.get?_addFile]
      split
      · next hx =>
        refine iff_of_false ?_ ?_
        · intro hfile
          have hlt := d.entries_lt _ (OrderedMap.mem_of_get? hl)
          exact absurd (Option.some.inj hfile) (Nat.ne_of_gt hlt)
        · rintro rfl
          rw [hx, hnew] at hl
          cases hl
      · exact h x

/-- The name of the file is not the one that is taken away. -/
theorem remove (h : d.Names l file) (hpath : d.place path ≠ .ok l) :
    (d.remove path).Names l file := by
  cases hplace : d.place path with
  | error cause =>
    rw [Disk.remove, hplace]
    exact h
  | ok l' =>
    intro x
    rw [Disk.get?_remove hplace]
    split
    · next hx =>
      refine iff_of_false (Option.some_ne_none file).symm ?_
      rintro rfl
      exact hpath (hplace.trans (congrArg _ hx.symm))
    · exact h x

end Disk.Names

theorem Disk.Names.removeAll {paths : List FilePath} {d : Disk} {l : Location} {file : FileId}
    (h : d.Names l file) (hpaths : ∀ p ∈ paths, d.place p ≠ .ok l) :
    (paths.foldl Disk.remove d).Names l file := by
  induction paths generalizing d with
  | nil => exact h
  | cons path paths ih =>
    refine ih (h.remove (hpaths path (List.mem_cons_self ..))) fun p hp => ?_
    rw [Ne, place_eq_ok_congr (folders_remove d path)]
    exact hpaths p (List.mem_cons_of_mem _ hp)

/-! ## Decoders -/

/-- The open files of others stay: none of them lies where the base view shows
nothing, and each has its one name. -/
def Storage.Watches (base : Location → Option Bytes) (watched : Location → FileId → Prop)
    (s : Storage) : Prop :=
  ∀ l file, watched l file → base l ≠ none ∧ s.disk.Names l file

theorem Storage.watches_nothing {base : Location → Option Bytes} {s : Storage} :
    s.Watches base fun _ _ => False :=
  fun _ _ => False.elim

/-- Two decoders have the same up to numbers: what they have is renamed along
`r`, and there are ledgers for both that are renumbered. The first one leaves
the files of others alone. -/
structure Holdings.Renumbered (r : FilePath → FilePath → Prop) (o o' : Origin) (σ : Nat → Nat)
    (base base' : Location → Option Bytes) (watched : Location → FileId → Prop)
    (x x' : Holdings) : Prop where
  part : Option.Rel (FilePart.Renamed r) x.part? x'.part?
  form : x.form.Renamed r x'.form
  ledgers : ∃ c c' : Ledger, c.Renumbered σ c' ∧
    c.Covers o base (x.part?.map FilePart.target) x.form.files x.storage ∧
    c'.Covers o' base' (x'.part?.map FilePart.target) x'.form.files x'.storage
  watches : x.storage.Watches base watched

/-- Two origins serve decoders with these settings alike: numbers that are
given out before `bound` names are issued have related paths, and a file is
opened, or refused for the same reason. -/
structure Origin.Renumbers (settings : Settings) (bound : Nat) (r : FilePath → FilePath → Prop)
    (o o' : Origin) (σ : Nat → Nat) : Prop where
  injective : σ.Injective
  folder : settings.uploadDir = o.folder
  folder' : settings.uploadDir = o'.folder
  limit : settings.maxFileSize = o.limit
  limit' : settings.maxFileSize = o'.limit
  paths : ∀ k, o.names.issued + σ k < bound → r (o.path (σ k)) (o'.path k)
  opens : ∀ k, o.names.issued + σ k < bound →
    (∃ l l', o.place (σ k) = .ok l ∧ o'.place k = .ok l') ∨
      ∃ cause, o.place (σ k) = .error cause ∧ o'.place k = .error cause

section Instance

variable {settings : Settings} {bound : Nat} {r : FilePath → FilePath → Prop} {o o' : Origin}
  {σ : Nat → Nat} {base base' : Location → Option Bytes} {watched : Location → FileId → Prop}
  {c c' : Ledger} {files files' : OrderedMap String StoredFile} {s s' : Storage} {l : Location}
  {target? : Option TempFile} {t t' : TempFile}

theorem Ledger.Covers.handle (h : c.Covers o base (some t) files s) :
    t.handle.isSome = true := by
  obtain ⟨k, data, -, -, hfilled⟩ := h.filled t rfl
  obtain ⟨-, file, l, hhandle, -⟩ := hfilled.fills
  rw [hhandle]
  rfl

/-- A file of the decoder lies where the base view shows nothing. -/
theorem Ledger.Covers.place_ne (h : c.Covers o base target? files s) (hl : base l ≠ none)
    {k : Nat} (hk : c.held k ≠ none) : s.disk.place (o.path k) ≠ .ok l := by
  rw [h.keeps.place_path]
  exact fun hplace => hl (h.keeps.free k l (.inr hk) hplace)

theorem Ledger.Covers.place_file_ne (h : c.Covers o base target? files s) (hl : base l ≠ none)
    {f : StoredFile} (hf : f ∈ files.values) : s.disk.place f.path ≠ .ok l := by
  obtain ⟨k, -, data, -, hpath, -, hheld, -⟩ := h.lies_of_mem hf
  rw [hpath]
  exact h.place_ne hl (by rw [hheld]; exact nofun)

namespace Storage.Watches

theorem create (h : s.Watches base watched) (folder : String) (limit : Nat) :
    (TempFile.create folder limit s).2.Watches base watched := by
  intro l file hw
  obtain ⟨hl, hnames⟩ := h l file hw
  rw [TempFile.create]
  split
  · next hcreate => exact ⟨hl, hnames.create hcreate⟩
  · exact ⟨hl, hnames⟩

theorem append {bytes : Bytes} (h : s.Watches base watched)
    (happend : t.append bytes s = .ok (t', s')) : s'.Watches base watched := by
  rw [TempFile.append] at happend
  split at happend
  · cases happend
  · split at happend
    · cases happend
      exact h
    · split at happend <;> cases happend
      exact h

theorem dropOpenFile {part? : Option FilePart} (h : s.Watches base watched)
    (hc : c.Covers o base (part?.map FilePart.target) files s) :
    (Decoder.dropOpenFile part? s).Watches base watched := by
  cases part? with
  | none => exact h
  | some part =>
    intro l file hw
    obtain ⟨hl, hnames⟩ := h l file hw
    obtain ⟨k, data, -, hdata, hfilled⟩ := hc.filled part.target rfl
    refine ⟨hl, hnames.remove ?_⟩
    rw [hfilled.fills.1]
    exact hc.place_ne hl (by rw [hdata]; exact nofun)

theorem publishFile {form : Form} (h : s.Watches base watched)
    (hc : c.Covers o base target? form.files s) (field : String) (f : StoredFile) :
    Storage.Watches base watched { s with disk := (form.publishFile field f s.disk).2 } := by
  intro l file hw
  obtain ⟨hl, hnames⟩ := h l file hw
  refine ⟨hl, ?_⟩
  simp only [Form.publishFile]
  split
  · next replaced hreplaced =>
    exact hnames.remove (hc.place_file_ne hl (OrderedMap.mem_values_iff.mpr ⟨field, hreplaced⟩))
  · exact hnames

theorem removeFiles {form : Form} (h : s.Watches base watched)
    (hc : c.Covers o base target? form.files s) :
    (s.onDisk form.removeFiles).Watches base watched := by
  intro l file hw
  obtain ⟨hl, hnames⟩ := h l file hw
  refine ⟨hl, ?_⟩
  show (form.removeFiles s.disk).Names l file
  rw [Form.removeFiles_eq]
  refine hnames.removeAll fun p hp => ?_
  obtain ⟨f, hf, rfl⟩ := List.mem_map.mp hp
  exact hc.place_file_ne hl hf

end Storage.Watches

/-! ### The operations on files -/

theorem TempFile.create_renumbered (H : Origin.Renumbers settings bound r o o' σ)
    (hσ : c.Renumbered σ c') (h : c.Covers o base none files s)
    (h' : c'.Covers o' base' none files' s') (hlt : s.names.issued < bound) :
    (∃ e e' s₁ s₁', create settings.uploadDir settings.maxFileSize s = (.error e, s₁) ∧
      create settings.uploadDir settings.maxFileSize s' = (.error e', s₁') ∧ e.Renamed r e' ∧
      c.refuse.Covers o base none files s₁ ∧ c'.refuse.Covers o' base' none files' s₁') ∨
    ∃ t t' s₁ s₁', create settings.uploadDir settings.maxFileSize s = (.ok t, s₁) ∧
      create settings.uploadDir settings.maxFileSize s' = (.ok t', s₁') ∧
      (∀ clientName, FilePart.Renamed r ⟨t, clientName, none⟩ ⟨t', clientName, none⟩) ∧
      c.create.Covers o base (some t) files s₁ ∧
      c'.create.Covers o' base' (some t') files' s₁' := by
  have hbound : o.names.issued + σ c'.asked < bound := by
    rw [h.keeps.names] at hlt
    rwa [← hσ.asked_eq]
  have hpaths := H.paths _ hbound
  have hopens := H.opens _ hbound
  rw [← hσ.asked_eq] at hpaths hopens
  rcases hopens with ⟨l, l', hplace, hplace'⟩ | ⟨cause, hplace, hplace'⟩
  · obtain ⟨t, s₁, hcreate, hpath, hsize, hlimit, hc⟩ := h.create_of_ok hplace
    obtain ⟨t', s₁', hcreate', hpath', hsize', hlimit', hc'⟩ := h'.create_of_ok hplace'
    rw [← H.folder, ← H.limit] at hcreate
    rw [← H.folder', ← H.limit'] at hcreate'
    refine .inr ⟨t, t', s₁, s₁', hcreate, hcreate', fun clientName => ?_, hc, hc'⟩
    refine ⟨?_, hc.handle.trans hc'.handle.symm, hsize.trans hsize'.symm, ?_, rfl, rfl⟩
    · show r t.path t'.path
      rwa [hpath, hpath']
    · exact hlimit.trans (H.limit.symm.trans (H.limit'.trans hlimit'.symm))
  · obtain ⟨s₁, hcreate, hc⟩ := h.create_of_error hplace
    obtain ⟨s₁', hcreate', hc'⟩ := h'.create_of_error hplace'
    rw [← H.folder, ← H.limit] at hcreate
    rw [← H.folder', ← H.limit'] at hcreate'
    exact .inl ⟨_, _, s₁, s₁', hcreate, hcreate', .openFile hpaths _ _, hc, hc'⟩

theorem TempFile.append_renumbered (H : Origin.Renumbers settings bound r o o' σ)
    (hsize : t.size = t'.size) (h : c.Covers o base (some t) files s)
    (h' : c'.Covers o' base' (some t') files' s') (bytes : Bytes) :
    (∃ e, t.append bytes s = .error e ∧ t'.append bytes s' = .error e) ∨
    ∃ t₁ t₁' s₁ s₁', t.append bytes s = .ok (t₁, s₁) ∧ t'.append bytes s' = .ok (t₁', s₁') ∧
      (c.write bytes).Covers o base (some t₁) files s₁ ∧
      (c'.write bytes).Covers o' base' (some t₁') files' s₁' := by
  have hlimit : o.limit = o'.limit := H.limit.symm.trans H.limit'
  by_cases hfits : t.size + bytes.length ≤ o.limit
  · obtain ⟨t₁, s₁, happend, -, -, -, hc⟩ := h.append_of_ok hfits
    obtain ⟨t₁', s₁', happend', -, -, -, hc'⟩ := h'.append_of_ok
      (show t'.size + bytes.length ≤ o'.limit by rwa [← hsize, ← hlimit])
    exact .inr ⟨t₁, t₁', s₁, s₁', happend, happend', hc, hc'⟩
  · refine .inl ⟨_, h.append_of_error (Nat.lt_of_not_le hfits), ?_⟩
    rw [hlimit]
    refine h'.append_of_error ?_
    rw [← hsize, ← hlimit]
    exact Nat.lt_of_not_le hfits

theorem FilePart.Renamed.append {part part' : FilePart} (h : part.Renamed r part') {bytes : Bytes}
    (happend : part.target.append bytes s = .ok (t, s₁))
    (happend' : part'.target.append bytes s' = .ok (t', s₁')) :
    FilePart.Renamed r { part with target := t } { part' with target := t' } := by
  rw [TempFile.append_spec happend, TempFile.append_spec happend']
  exact ⟨h.path, h.handle, congrArg (· + bytes.length) h.size, h.limit, h.clientName,
    h.contentType⟩

/-- Whatever decoders do with files, what they have stays the same up to
numbers. -/
theorem Holdings.lockstep_renumbered (H : Origin.Renumbers settings bound r o o' σ) :
    Lockstep settings bound (Holdings.Renumbered r o o' σ base base' watched)
      (UploadError.Renamed r) where
  same := .same
  isSome h := by
    have hpart := h.part
    simp only at hpart
    cases hpart <;> rfl
  drop h := by
    obtain ⟨c, c', hσ, hc, hc'⟩ := h.ledgers
    exact ⟨.none, h.form, ⟨c.drop, c'.drop, hσ.drop H.injective, hc.dropOpenFile,
      hc'.dropOpenFile⟩, h.watches.dropOpenFile hc⟩
  create {f f' s s'} h hlt := by
    obtain ⟨c, c', hσ, hc, hc'⟩ := h.ledgers
    have hwatches := h.watches.create settings.uploadDir settings.maxFileSize
    rcases TempFile.create_renumbered H hσ hc hc' hlt with
      ⟨e, e', s₁, s₁', hs, hs', he, hafter, hafter'⟩ |
      ⟨t, t', s₁, s₁', hs, hs', ht, hafter, hafter'⟩
    · rw [hs] at hwatches
      exact .inl ⟨e, e', s₁, s₁', hs, hs', he, .none, h.form,
        ⟨c.refuse, c'.refuse, hσ.refuse, hafter, hafter'⟩, hwatches⟩
    · rw [hs] at hwatches
      exact .inr ⟨t, t', s₁, s₁', hs, hs', fun clientName => ⟨.some (ht clientName), h.form,
        ⟨c.create, c'.create, hσ.create H.injective, hafter, hafter'⟩, hwatches⟩⟩
  retype h contentType := by
    obtain ⟨⟨hpart⟩, hform, hledgers, hwatches⟩ := h
    exact ⟨.some ⟨hpart.path, hpart.handle, hpart.size, hpart.limit, hpart.clientName, rfl⟩, hform,
      hledgers, hwatches⟩
  append h bytes := by
    obtain ⟨⟨hpart⟩, hform, ⟨c, c', hσ, hc, hc'⟩, hwatches⟩ := h
    rcases TempFile.append_renumbered H hpart.size hc hc' bytes with ⟨e, hs, hs'⟩ |
      ⟨t, t', s₁, s₁', hs, hs', hafter, hafter'⟩
    · exact .inl ⟨e, e, hs, hs', .same e⟩
    · exact .inr ⟨t, t', s₁, s₁', hs, hs', .some (hpart.append hs hs'), hform,
        ⟨c.write bytes, c'.write bytes, hσ.write H.injective bytes, hafter, hafter'⟩,
        hwatches.append hs⟩
  publishFile h field := by
    obtain ⟨⟨hpart⟩, hform, ⟨c, c', hσ, hc, hc'⟩, hwatches⟩ := h
    exact ⟨.none, hform.withFile field hpart.stored, ⟨c.publish field, c'.publish field,
      hσ.publish H.injective field, hc.publishFile field rfl rfl, hc'.publishFile field rfl rfl⟩,
      hwatches.publishFile hc field _⟩
  publishField h field value :=
    ⟨.none, h.form.publishField field value, h.ledgers, h.watches⟩
  removeFiles h := by
    obtain ⟨c, c', hσ, hc, hc'⟩ := h.ledgers
    exact ⟨.none, .empty, ⟨c.clear, c'.clear, hσ.clear, hc.removeFiles, hc'.removeFiles⟩,
      h.watches.removeFiles hc⟩

end Instance

end Multipart

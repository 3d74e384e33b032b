import Multipart.Proofs.Renumbering

/-!
# Files among those of others

When decoders share a storage, each does its own and leaves the files of
the others alone. `Storage.Spares` is what such a move does to everybody
else: files that are shown outside the mover's own stay as they are, and
what is new lies under the mover's names. So a ledger of another decoder
still covers its files afterwards (`Ledger.Covers.others`), only that more
names were given out; its numbers are renumbered to make room for them
(`Ledger.Renumbered.others`).

Names lead where they led before. For that no upload folder may be reached
through a name that temp files have.
-/

namespace Multipart

/-! ## Folders among files -/

namespace Disk

variable {d d' : Disk}

/-- What a folder is reached through decides where it is. -/
theorem resolve_eq (hf : d'.folders = d.folders) {folder : String}
    (h : ∀ l : Location, ∀ name ∈ names folder,
      (d'.entries.get? (l.child name)).isSome = (d.entries.get? (l.child name)).isSome) :
    d'.resolve folder = d.resolve folder := by
  have hfolder : d'.isFolder = d.isFolder := by
    funext x
    rw [isFolder, isFolder, hf]
  rw [resolve, resolve]
  generalize Location.start = l
  generalize names folder = components at h
  induction components generalizing l with
  | nil => rfl
  | cons name components ih =>
    have hstep : d'.step l name = d.step l name := by
      simp only [step, hfolder, h l name List.mem_cons_self]
    rw [List.foldlM_cons, List.foldlM_cons, hstep]
    exact bind_congr fun l' => ih l' fun l other hother => h l other (List.mem_cons_of_mem _ hother)

theorem place_eq (hf : d'.folders = d.folders) {path : FilePath}
    (h : d'.resolve path.folder = d.resolve path.folder) : d'.place path = d.place path := by
  simp only [place, h, isFolder, hf]
  rfl

theorem isSome_fileAt? (d : Disk) (l : Location) :
    (d.fileAt? l).isSome = (d.entries.get? l).isSome := Option.isSome_map

end Disk

/-- Where the names are the same, files of different folders with different
numbers lie at different locations. -/
theorem Origin.place_inj_of_names {o o₁ : Origin} (hnames : o₁.names = o.names) {j k : Nat}
    {l : Location} (hj : o.place j = .ok l) (hk : o₁.place k = .ok l) : j = k := by
  obtain ⟨folder, rfl⟩ := place_child hj
  obtain ⟨folder₁, hl⟩ := place_child hk
  rw [hnames] at hl
  have hname := List.append_inj_right' (congrArg Location.names hl) rfl
  have := NameSupply.numbered_inj (List.singleton_inj.mp hname)
  omega

/-- No operation on files changes the folders. -/
theorem Holdings.invariant_folders (settings : Settings) (folders : List Location) :
    Invariant settings fun x => x.storage.disk.folders = folders where
  drop {part? form s} h := by
    cases part? with
    | none => exact h
    | some part => exact (Disk.folders_remove ..).trans h
  refuse h hcreate := by
    rw [TempFile.create] at hcreate
    split at hcreate <;> cases hcreate
    exact h
  create h hcreate clientName := by
    rw [TempFile.create] at hcreate
    split at hcreate
    · next hdisk =>
      cases hcreate
      exact (Disk.folders_create hdisk).trans h
    · cases hcreate
  retype h _ := h
  append h happend := by
    rw [TempFile.append] at happend
    split at happend
    · cases happend
    · split at happend
      · cases happend
        exact h
      · split at happend <;> cases happend
        exact h
  publishFile {part form s} h field := by
    simp only [Form.publishPart, Form.publishFile]
    split
    · exact (Disk.folders_remove ..).trans h
    · exact h
  publishField h _ _ := h
  removeFiles {form s} h := by
    show (form.removeFiles s.disk).folders = _
    rw [Form.removeFiles_eq]
    exact (Disk.shrinks_removeAll ..).folders.trans h

theorem Decoder.folders_pass (d : Decoder) (s : Storage) (buffer : InputBuffer) (atEnd : Bool) :
    (d.pass s buffer atEnd).storage.disk.folders = s.disk.folders :=
  ((Holdings.invariant_folders d.settings s.disk.folders).pass (Eq.refl s.disk.folders)).2

theorem Decoder.folders_release (d : Decoder) (s : Storage) :
    (d.release s).disk.folders = s.disk.folders :=
  (Holdings.invariant_folders d.settings s.disk.folders).release (Eq.refl s.disk.folders)

/-! ## What a move leaves alone -/

/-- A decoder with files from `o` has moved. Everything that the base view
shows is as it was, and every other file lies under one of the names that were
given out. -/
structure Storage.Spares (o : Origin) (base : Location → Option Bytes) (asked : Nat)
    (s s' : Storage) : Prop where
  names : s'.names = o.names.ahead asked
  folders : s'.disk.folders = s.disk.folders
  shown : ∀ l data, base l = some data → s.disk.fileAt? l = some data
  kept : ∀ l data, base l = some data → s'.disk.fileAt? l = some data
  named : ∀ l file, base l ≠ none → s.disk.Names l file → s'.disk.Names l file
  owned : ∀ l, s.disk.fileAt? l ≠ none ∨ s'.disk.fileAt? l ≠ none →
    base l ≠ none ∨ ∃ k < asked, o.place k = .ok l

variable {o o₁ : Origin} {base base₁ : Location → Option Bytes} {asked : Nat}
  {target? target?' : Option TempFile} {files files' : OrderedMap String StoredFile}
  {s s' : Storage} {c c' : Ledger} {l : Location}

/-- What is on disk and not in the base view is a file of the ledger. -/
theorem Ledger.Covers.owned (h : c.Covers o base target? files s)
    (hl : s.disk.fileAt? l ≠ none) : base l ≠ none ∨ ∃ k < c.asked, o.place k = .ok l := by
  by_cases hheld : ∃ k, c.held k ≠ none ∧ o.place k = .ok l
  · obtain ⟨k, hk, hplace⟩ := hheld
    exact .inr ⟨k, h.keeps.lt_asked k hk, hplace⟩
  · rw [h.keeps.elsewhere l fun k hk hplace => hheld ⟨k, hk, hplace⟩] at hl
    exact .inl hl

theorem Ledger.Covers.spares (h : c.Covers o base target? files s)
    (h' : c'.Covers o base target?' files' s') (hle : c.asked ≤ c'.asked)
    (hfolders : s'.disk.folders = s.disk.folders)
    (hwatches : s'.Watches base fun l file => base l ≠ none ∧ s.disk.Names l file) :
    s.Spares o base c'.asked s' where
  names := h'.keeps.names
  folders := hfolders
  shown _ _ := h.keeps.fileAt?_of_base
  kept _ _ := h'.keeps.fileAt?_of_base
  named l file hl hnames := (hwatches l file ⟨hl, hnames⟩).2
  owned l hl := by
    rcases hl with hl | hl
    · refine (h.owned hl).imp_right ?_
      rintro ⟨k, hk, hplace⟩
      exact ⟨k, Nat.lt_of_lt_of_le hk hle, hplace⟩
    · exact h'.owned hl

/-- A folder that is not reached through the name of a temp file is where it
was. -/
theorem Storage.Spares.place_eq (h : s.Spares o base asked s') {folder : String}
    (houtside : ∀ k, o.names.numbered k ∉ Disk.names (FilePath.withSlash folder))
    (name : String) :
    s'.disk.place (.inFolder folder name) = s.disk.place (.inFolder folder name) := by
  refine Disk.place_eq h.folders (Disk.resolve_eq h.folders ?_)
  intro l component hcomponent
  rw [← Disk.isSome_fileAt?, ← Disk.isSome_fileAt?]
  cases hbase : base (l.child component) with
  | some data => rw [h.shown _ _ hbase, h.kept _ _ hbase]
  | none =>
    have hnone : ∀ k < asked, o.place k ≠ .ok (l.child component) := by
      intro k _ hplace
      obtain ⟨parent, hl⟩ := Origin.place_child hplace
      have hname := List.append_inj_right' (congrArg Location.names hl) rfl
      exact houtside _ (List.singleton_inj.mp hname ▸ hcomponent)
    have hboth : ¬(s.disk.fileAt? (l.child component) ≠ none ∨
        s'.disk.fileAt? (l.child component) ≠ none) := by
      intro hl
      rcases h.owned _ hl with hl | ⟨k, hk, hplace⟩
      · exact hl hbase
      · exact hnone k hk hplace
    rw [not_or, not_not, not_not] at hboth
    rw [hboth.1, hboth.2]

/-! ## Ledgers of others -/

/-- What a base view that showed the rest of one storage shows of another. -/
def Storage.shownAfter (base : Location → Option Bytes) (s s' : Storage) (l : Location) :
    Option Bytes :=
  if base l = s.disk.fileAt? l then s'.disk.fileAt? l else base l

namespace Ledger.Covers

/-- A file of the ledger is still there. -/
theorem fileAt?_spared (h : c.Covers o₁ base₁ target? files s) (hs : s.Spares o base asked s')
    (hseen : ∀ k l, c.held k ≠ none → o₁.place k = .ok l → base l = s.disk.fileAt? l)
    {k : Nat} {data : Bytes} (hk : c.held k = some data) :
    ∃ l, o₁.place k = .ok l ∧ base l = some data ∧ s'.disk.fileAt? l = some data := by
  obtain ⟨l, hplace, hdata⟩ := h.keeps.at_held k data hk
  have hbase := (hseen k l (by simp [hk]) hplace).trans hdata
  exact ⟨l, hplace, hbase, hs.kept l data hbase⟩

/-- What lies where a new file will is neither a file of the ledger nor of the
decoder that has moved. -/
theorem fileAt?_upcoming (h : c.Covers o₁ base₁ target? files s)
    (hs : s.Spares o base asked s') (hle : c.asked ≤ asked) (hnames : o₁.names = o.names)
    {k : Nat} (hk : asked ≤ k) (hplace : o₁.place k = .ok l) :
    s.disk.fileAt? l = none ∧ s'.disk.fileAt? l = none := by
  have hbefore : s.disk.fileAt? l = none := by
    rw [h.keeps.elsewhere l, h.keeps.free k l (.inl (Nat.le_trans hle hk)) hplace]
    intro j hj hjl
    have hlt := h.keeps.lt_asked j hj
    rw [Origin.place_inj hjl hplace] at hlt
    omega
  refine ⟨hbefore, ?_⟩
  by_contra hafter
  rcases hs.owned l (.inr hafter) with hl | ⟨j, hj, hjl⟩
  · obtain ⟨data, hdata⟩ := Option.ne_none_iff_exists'.mp hl
    rw [hs.shown l data hdata] at hbefore
    cases hbefore
  · have := Origin.place_inj_of_names hnames hjl hplace
    omega

/-- The files of a ledger are covered after somebody else has moved. -/
theorem others (h : c.Covers o₁ base₁ target? files s) (hs : s.Spares o base asked s')
    (hle : c.asked ≤ asked) (hnames : o₁.names = o.names)
    (hseen : ∀ k l, c.held k ≠ none → o₁.place k = .ok l → base l = s.disk.fileAt? l)
    (houtside : ∀ k, o₁.names.numbered k ∉ Disk.names (FilePath.withSlash o₁.folder)) :
    Covers o₁ (s.shownAfter base₁ s') target? files s' { c with asked } where
  keeps := by
    constructor
    · rw [hs.names, hnames]
    · intro name
      rw [hs.place_eq (hnames ▸ houtside), h.keeps.places]
    · exact fun k hk => Nat.lt_of_lt_of_le (h.keeps.lt_asked k hk) hle
    · intro k data hk
      obtain ⟨l, hplace, -, hdata⟩ := h.fileAt?_spared hs hseen hk
      exact ⟨l, hplace, hdata⟩
    · intro l hl
      rw [Storage.shownAfter, if_pos (h.keeps.elsewhere l hl).symm]
    · intro k l hk hplace
      rw [Storage.shownAfter]
      rcases hk with hk | hk
      · obtain ⟨hbefore, hafter⟩ := h.fileAt?_upcoming hs hle hnames hk hplace
        rw [h.keeps.free k l (.inl (Nat.le_trans hle hk)) hplace, hbefore, if_pos rfl, hafter]
      · obtain ⟨data, hdata⟩ := Option.ne_none_iff_exists'.mp hk
        obtain ⟨l', hl', hat⟩ := h.keeps.at_held k data hdata
        obtain rfl := Except.ok.inj (hl'.symm.trans hplace)
        rw [h.keeps.free k l' (.inr hk) hplace, hat, if_neg nofun]
  closed := h.closed
  filled := by
    intro t ht
    obtain ⟨k, data, hopen, hdata, ⟨hpath, file, l, hhandle, hplace, honly⟩, hsize, hlimit,
      hlength⟩ := h.filled t ht
    obtain ⟨l', hl', hbase, -⟩ := h.fileAt?_spared hs hseen hdata
    obtain rfl := Except.ok.inj (hl'.symm.trans hplace)
    exact ⟨k, data, hopen, hdata, ⟨hpath, file, l', hhandle, hplace,
      hs.named l' file (by simp [hbase]) honly⟩, hsize, hlimit, hlength⟩
  files := h.files
  claimed := h.claimed
  distinct := h.distinct
  apart := h.apart

end Ledger.Covers

/-! ## Numbers of others -/

/-- The numbers from `first` on lead to those from `asked` on. -/
def shiftFrom (first asked : Nat) (σ : Nat → Nat) (k : Nat) : Nat :=
  if k < first then σ k else asked + (k - first)

namespace Ledger.Renumbered

variable {σ : Nat → Nat}

/-- A number leads to one that was asked for exactly if it was asked for itself. -/
theorem lt_asked (h : c.Renumbered σ c') (hσ : σ.Injective) {k : Nat} :
    σ k < c.asked ↔ k < c'.asked := by
  constructor
  · intro hlt
    by_contra hge
    have hnext := h.next (k - c'.asked)
    rw [Nat.add_sub_of_le (Nat.le_of_not_lt hge)] at hnext
    omega
  · intro hlt
    by_contra hge
    have hnext := h.next (σ k - c.asked)
    rw [Nat.add_sub_of_le (Nat.le_of_not_lt hge)] at hnext
    have := hσ hnext
    omega

theorem shiftFrom_injective (h : c.Renumbered σ c') (hσ : σ.Injective) (hle : c.asked ≤ asked) :
    (shiftFrom c'.asked asked σ).Injective := by
  have hlt {k : Nat} (hk : k < c'.asked) : σ k < asked :=
    Nat.lt_of_lt_of_le ((h.lt_asked hσ).mpr hk) hle
  intro j k hjk
  simp only [shiftFrom] at hjk
  split at hjk <;> split at hjk
  · exact hσ hjk
  · next hj hk =>
    have := hlt hj
    omega
  · next hj hk =>
    have := hlt hk
    omega
  · omega

/-- Names that went to somebody else are left out. -/
theorem others (h : c.Renumbered σ c') (hσ : σ.Injective) (hle : c.asked ≤ asked)
    (hc : c.Covers o base target? files s) (hc' : c'.Covers o₁ base₁ target?' files' s') :
    Renumbered (shiftFrom c'.asked asked σ) { c with asked } c' := by
  have hpast {k : Nat} (hk : k < c'.asked) : shiftFrom c'.asked asked σ k = σ k := if_pos hk
  have hlt {k : Nat} {data : Bytes} (hk : c'.held k = some data) : k < c'.asked :=
    hc'.keeps.lt_asked k (by simp [hk])
  constructor
  · intro m
    rw [shiftFrom, if_neg (Nat.not_lt.mpr (Nat.le_add_right ..)), Nat.add_sub_cancel_left]
  · funext k
    by_cases hk : k < c'.asked
    · rw [Function.comp_apply, hpast hk]
      exact congrFun h.held k
    · have hnone : c'.held k = none := by
        by_contra hheld
        exact hk (hc'.keeps.lt_asked k hheld)
      rw [Function.comp_apply, shiftFrom, if_neg hk, hnone]
      by_contra hheld
      have := hc.keeps.lt_asked _ hheld
      omega
  · intro n hn
    obtain ⟨k, rfl⟩ := h.only n hn
    exact ⟨k, hpast ((h.lt_asked hσ).mp (hc.keeps.lt_asked _ hn))⟩
  · rw [h.opened]
    cases hopen : c'.opened with
    | none => rfl
    | some k =>
      cases htarget : target?' with
      | none =>
        rw [hc'.closed htarget] at hopen
        cases hopen
      | some t =>
        obtain ⟨k', data, hopen', hdata, -⟩ := hc'.filled t htarget
        obtain rfl := Option.some.inj (hopen'.symm.trans hopen)
        rw [Option.map_some, Option.map_some, hpast (hlt hdata)]
  · refine ⟨h.stored.keys, fun field n k hn hk => ?_⟩
    rw [hpast (hc'.lt_asked_of_stored hk)]
    exact h.stored.related field n k hn hk

end Ledger.Renumbered

end Multipart

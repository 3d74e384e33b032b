import Multipart.Proofs.Confinement

/-!
# The life of a temp file

A temp file is appended to and closed, in any order and as often as one likes, and then
finished or discarded. A `Course` is what became of it so far, with the answer that each
act got. At every moment the file holds what was taken, byte by byte, and nothing else was
touched (`TempFile.Alive`); what the next append is answered depends on how much that is
and on whether the file was closed (`TempFile.reply`).

A machine counts in words. A `WordFile` has a size and a ceiling of 64 bits, and where a
sum has no word it takes the largest one. As long as fewer bytes are offered than there
are words, its course is that of a file that counts without bounds
(`WordFile.map_toTempFile_use`).

The main statement is `TempFile.lifetime`.
-/

namespace Multipart

/-! ## Courses -/

/-- What is done with a temp file before it is finished or discarded. -/
inductive TempFile.Act where
  | append (bytes : Bytes)
  | close
  deriving DecidableEq, Repr

/-- How many bytes an act offers. -/
def TempFile.Act.offered : Act → Nat
  | append bytes => bytes.length
  | close => 0

/-- A file in use and the storage it is on, with every act so far and its answer. -/
structure Course (α : Type) where
  file : α
  storage : Storage
  answers : List (TempFile.Act × Except UploadError Unit)

namespace Course

variable {α β : Type}

/-- The course after an act with this answer. -/
def record (c : Course α) (file : α) (storage : Storage) (a : TempFile.Act)
    (answer : Except UploadError Unit) : Course α :=
  ⟨file, storage, c.answers ++ [(a, answer)]⟩

/-- One more act. An append that is refused leaves all as it was. -/
def act (append : α → Bytes → Storage → Except UploadError (α × Storage)) (close : α → α)
    (c : Course α) : TempFile.Act → Course α
  | .append bytes =>
    match append c.file bytes c.storage with
    | .ok (file, storage) => c.record file storage (.append bytes) (.ok ())
    | .error e => c.record c.file c.storage (.append bytes) (.error e)
  | .close => c.record (close c.file) c.storage .close (.ok ())

def map (f : α → β) (c : Course α) : Course β := ⟨f c.file, c.storage, c.answers⟩

/-- The bytes of an append that was not refused. -/
def accepted : TempFile.Act × Except UploadError Unit → Bytes
  | (.append bytes, .ok _) => bytes
  | _ => []

/-- What the file has taken: the bytes of all appends that were not refused, in order. -/
def taken (c : Course α) : Bytes := c.answers.flatMap accepted

variable {c : Course α} {file : α} {storage : Storage} {a : TempFile.Act}
  {answer : Except UploadError Unit}

@[simp] theorem file_record : (c.record file storage a answer).file = file := rfl

@[simp] theorem answers_record :
    (c.record file storage a answer).answers = c.answers ++ [(a, answer)] := rfl

@[simp] theorem taken_record :
    (c.record file storage a answer).taken = c.taken ++ accepted (a, answer) := by
  simp [taken]

end Course

namespace TempFile

/-- What becomes of a temp file by these acts, one after the other. -/
def use (t : TempFile) (s : Storage) (acts : List Act) : Course TempFile :=
  acts.foldl (Course.act append close) ⟨t, s, []⟩

theorem use_concat (t : TempFile) (s : Storage) (acts : List Act) (a : Act) :
    t.use s (acts ++ [a]) = (t.use s acts).act append close a :=
  List.foldl_concat ..

/-! ## What holds at every moment -/

/-- What an append is answered by a file with this ceiling that was in use before and has
taken so many bytes. The ceiling comes first, and a closed file still takes the empty
string. -/
def reply (path : FilePath) (limit : Nat) (before : List Act) (taken : Nat) (bytes : Bytes) :
    Except UploadError Unit :=
  if limit < taken + bytes.length then .error (.limitExceeded limit)
  else if .close ∈ before ∧ bytes ≠ [] then
    .error (.resource (.writeFile path.text) .alreadyClosed)
  else .ok ()

/-- What holds of a temp file after these acts: it lies at this place, where its handle
leads as long as it was not closed, and holds what was taken, which is within the ceiling.
Nothing was touched elsewhere since `d`. -/
structure Alive (d : Disk) (l : Location) (path : FilePath) (limit : Nat) (acts : List Act)
    (c : Course TempFile) : Prop where
  answers : c.answers.map Prod.fst = acts
  place : d.place path = .ok l
  lies : ∃ file, c.file.handle = (if .close ∈ acts then none else some file) ∧
    c.storage.disk.entries.get? l = some file ∧ c.storage.disk.contentsOf file = c.taken ∧
    d.Touchable (· = l) file
  path_eq : c.file.path = path
  limit_eq : c.file.limit = limit
  size_eq : c.file.size = c.taken.length
  fits : c.taken.length ≤ limit
  changes : d.ChangesAt (· = l) c.storage.disk

namespace Alive

variable {d : Disk} {l : Location} {path : FilePath} {limit : Nat} {acts : List Act}
  {c : Course TempFile}

/-- An append is refused, or empty, or it writes its bytes through the handle. -/
theorem append_cases (h : Alive d l path limit acts c) (bytes : Bytes) :
    (∃ e, reply path limit acts c.taken.length bytes = .error e ∧
      c.file.append bytes c.storage = .error e) ∨
    (reply path limit acts c.taken.length bytes = .ok () ∧ bytes = [] ∧
      c.file.append bytes c.storage = .ok (c.file, c.storage)) ∨
    ∃ file, reply path limit acts c.taken.length bytes = .ok () ∧
      c.taken.length + bytes.length ≤ limit ∧ c.file.handle = some file ∧
      c.file.append bytes c.storage =
        .ok (⟨path, some file, c.taken.length + bytes.length, limit⟩,
          c.storage.onDisk (·.append file bytes)) := by
  obtain ⟨file, hhandle, -⟩ := h.lies
  rw [TempFile.append, h.size_eq, h.limit_eq, h.path_eq, hhandle, reply]
  rcases Nat.lt_or_ge limit (c.taken.length + bytes.length) with hlong | hfits
  · exact .inl ⟨_, if_pos hlong, if_pos hlong⟩
  · rw [if_neg (Nat.not_lt.mpr hfits), if_neg (Nat.not_lt.mpr hfits)]
    by_cases hempty : bytes = []
    · exact .inr (.inl ⟨if_neg fun hc => hc.2 hempty, hempty, if_pos (List.isEmpty_iff.mpr hempty)⟩)
    · rw [if_neg (mt List.isEmpty_iff.mp hempty)]
      by_cases hclosed : .close ∈ acts
      · rw [if_pos hclosed]
        exact .inl ⟨_, if_pos ⟨hclosed, hempty⟩, rfl⟩
      · rw [if_neg hclosed]
        exact .inr (.inr ⟨file, if_neg fun hc => hclosed hc.1, hfits, rfl, rfl⟩)

/-- A file that was just created has taken nothing. -/
theorem start {folder : String} {s s' : Storage} {t : TempFile}
    (hcreate : TempFile.create folder limit s = (.ok t, s')) :
    ∃ l, Alive s.disk l t.path limit [] (t.use s' []) := by
  rw [TempFile.create] at hcreate
  split at hcreate
  · next file disk hdisk =>
    cases hcreate
    obtain ⟨l, hplace, hentry, hempty, -⟩ := Disk.create_spec hdisk
    have hrefl : s.disk.ChangesAt (· = l) s.disk := .refl s.disk
    obtain ⟨hchanges, hfile⟩ :=
      hrefl.create (fun x hx => Except.ok.inj (hx.symm.trans hplace)) hdisk
    exact ⟨l, rfl, hplace, ⟨file, rfl, hentry, hempty, hfile⟩, rfl, rfl, rfl, Nat.zero_le _,
      hchanges⟩
  · cases hcreate

theorem read? (h : Alive d l path limit acts c) : c.storage.disk.read? path = some c.taken := by
  obtain ⟨file, -, hentry, hdata, -⟩ := h.lies
  rw [Disk.read?_eq, (Disk.place_eq_ok_congr h.changes.folders).mpr h.place]
  simp only [Disk.fileAt?, hentry, Option.map_some, hdata]

/-- An answer that takes nothing leaves the file as it was. -/
theorem record (h : Alive d l path limit acts c) {bytes : Bytes}
    {answer : Except UploadError Unit} (hnone : Course.accepted (.append bytes, answer) = []) :
    Alive d l path limit (acts ++ [.append bytes])
      (c.record c.file c.storage (.append bytes) answer) := by
  have htaken : (c.record c.file c.storage (.append bytes) answer).taken = c.taken := by
    rw [Course.taken_record, hnone, List.append_nil]
  obtain ⟨file, hhandle, hentry, hdata, htouch⟩ := h.lies
  exact ⟨by simp [h.answers], h.place, ⟨file, by simpa using hhandle, hentry, htaken ▸ hdata,
    htouch⟩, h.path_eq, h.limit_eq, htaken ▸ h.size_eq, htaken ▸ h.fits, h.changes⟩

theorem act_append (h : Alive d l path limit acts c) (bytes : Bytes) :
    let next := c.act TempFile.append TempFile.close (.append bytes)
    Alive d l path limit (acts ++ [.append bytes]) next ∧
      next.answers =
        c.answers ++ [(.append bytes, reply path limit acts c.taken.length bytes)] ∧
      (reply path limit acts c.taken.length bytes ≠ .ok () →
        next.file = c.file ∧ next.storage = c.storage) := by
  simp only [Course.act]
  rcases h.append_cases bytes with ⟨e, hreply, happend⟩ | ⟨hreply, rfl, happend⟩ |
    ⟨file, hreply, hfits, hhandle, happend⟩
  · simp only [happend, hreply]
    exact ⟨h.record rfl, rfl, fun _ => ⟨rfl, rfl⟩⟩
  · simp only [happend, hreply]
    exact ⟨h.record rfl, rfl, fun _ => ⟨rfl, rfl⟩⟩
  · simp only [happend, hreply]
    refine ⟨?_, rfl, fun hne => absurd rfl hne⟩
    obtain ⟨file', hhandle', hentry, hdata, htouch⟩ := h.lies
    have hopen : .close ∉ acts := by
      intro hclosed
      rw [hhandle, if_pos hclosed] at hhandle'
      cases hhandle'
    obtain rfl : file = file' := by
      rw [hhandle, if_neg hopen] at hhandle'
      exact Option.some.inj hhandle'
    have hlt : file < c.storage.disk.reversed.length :=
      c.storage.disk.entries_lt _ (OrderedMap.mem_of_get? hentry)
    have hlength : (c.taken ++ bytes).length = c.taken.length + bytes.length :=
      List.length_append
    refine ⟨by simp [h.answers], h.place, ⟨file, by simp [hopen], hentry, ?_, htouch⟩, rfl, rfl,
      ?_, ?_, h.changes.append htouch bytes⟩
    · rw [Course.taken_record]
      exact (Disk.contentsOf_append _ _ _ hlt).trans ((if_pos rfl).trans (by rw [hdata]; rfl))
    · rw [Course.taken_record]
      exact hlength.symm
    · rw [Course.taken_record]
      exact hlength.trans_le hfits

theorem act_close (h : Alive d l path limit acts c) :
    Alive d l path limit (acts ++ [.close]) (c.act TempFile.append TempFile.close .close) := by
  obtain ⟨file, -, hentry, hdata, htouch⟩ := h.lies
  have htaken : (c.act TempFile.append TempFile.close .close).taken = c.taken := by
    simp [Course.act, Course.accepted]
  exact ⟨by simp [Course.act, h.answers], h.place, ⟨file, by simp [Course.act, TempFile.close],
    hentry, htaken ▸ hdata, htouch⟩, h.path_eq, h.limit_eq, htaken ▸ h.size_eq, htaken ▸ h.fits,
    h.changes⟩

end Alive

/-- A file is alive as long as it is used. -/
theorem alive_use {folder : String} {limit : Nat} {s s' : Storage} {t : TempFile}
    (hcreate : TempFile.create folder limit s = (.ok t, s')) (acts : List Act) :
    ∃ l, Alive s.disk l t.path limit acts (t.use s' acts) := by
  obtain ⟨l, hstart⟩ := Alive.start hcreate
  refine ⟨l, ?_⟩
  induction acts using List.reverseRecOn with
  | nil => exact hstart
  | append_singleton acts a ih =>
    rw [use_concat]
    cases a with
    | append bytes => exact (ih.act_append bytes).1
    | close => exact ih.act_close

end TempFile

/-! ## Counting in words -/

/-- A temp file whose size and ceiling are 64-bit words. -/
structure WordFile where
  path : FilePath
  handle : Option FileId
  size : UInt64
  limit : UInt64

namespace WordFile

/-- The sum of two words, or the largest word if the sum is none. -/
def saturatingAdd (a b : UInt64) : UInt64 := .ofNatClamp (a.toNat + b.toNat)

/-- Writes bytes at the end. The size is compared with the ceiling as words are. -/
def append (t : WordFile) (bytes : Bytes) (s : Storage) : Except UploadError (WordFile × Storage) :=
  let length := UInt64.ofNat bytes.length
  if t.limit < saturatingAdd t.size length then .error (.limitExceeded t.limit.toNat)
  else if bytes.isEmpty then .ok (t, s)
  else
    match t.handle with
    | none => .error (.resource (.writeFile t.path.text) .alreadyClosed)
    | some file => .ok ({ t with size := t.size + length }, s.onDisk (·.append file bytes))

def close (t : WordFile) : WordFile := { t with handle := none }

def use (t : WordFile) (s : Storage) (acts : List TempFile.Act) : Course WordFile :=
  acts.foldl (Course.act append close) ⟨t, s, []⟩

/-- The file that counts without bounds. -/
def toTempFile (t : WordFile) : TempFile := ⟨t.path, t.handle, t.size.toNat, t.limit.toNat⟩

/-- Where the sum has a word, an append counts as it does without bounds. -/
theorem append_toTempFile {t : WordFile} {bytes : Bytes}
    (h : t.size.toNat + bytes.length < UInt64.size) (s : Storage) :
    t.toTempFile.append bytes s =
      (t.append bytes s).map fun out => (out.1.toTempFile, out.2) := by
  have hlength : (UInt64.ofNat bytes.length).toNat = bytes.length :=
    UInt64.toNat_ofNat_of_lt' (by omega)
  have hsum : t.limit < saturatingAdd t.size (UInt64.ofNat bytes.length) ↔
      t.limit.toNat < t.size.toNat + bytes.length := by
    rw [UInt64.lt_iff_toNat_lt, saturatingAdd, hlength, UInt64.ofNatClamp, dif_pos h]
    rfl
  have hsize : (t.size + UInt64.ofNat bytes.length).toNat = t.size.toNat + bytes.length := by
    rw [UInt64.toNat_add, hlength, Nat.mod_eq_of_lt h]
  rw [TempFile.append, append]
  simp only [toTempFile, hsum, gt_iff_lt]
  by_cases hlong : t.limit.toNat < t.size.toNat + bytes.length
  · rw [if_pos hlong, if_pos hlong]
    rfl
  · rw [if_neg hlong, if_neg hlong]
    split
    · rfl
    · cases t.handle with
      | none => rfl
      | some file => simp only [Except.map, hsize]

theorem size_append_le {t t' : WordFile} {bytes : Bytes} {s s' : Storage}
    (h : t.append bytes s = .ok (t', s')) : t'.size.toNat ≤ t.size.toNat + bytes.length := by
  have hlength : (UInt64.ofNat bytes.length).toNat ≤ bytes.length := by
    rw [UInt64.toNat_ofNat']
    exact Nat.mod_le ..
  rw [append] at h
  split at h
  · cases h
  · split at h
    · cases h
      exact Nat.le_add_right ..
    · split at h
      · cases h
      · cases h
        rw [UInt64.toNat_add]
        exact (Nat.mod_le ..).trans (Nat.add_le_add_left hlength _)

variable {c : Course WordFile} {a : TempFile.Act}

/-- One act of the two. -/
theorem map_toTempFile_act (h : c.file.size.toNat + a.offered < UInt64.size) :
    (c.act append close a).map toTempFile =
      (c.map toTempFile).act TempFile.append TempFile.close a := by
  cases a with
  | close => rfl
  | append bytes =>
    have happend := append_toTempFile h c.storage
    cases hout : c.file.append bytes c.storage with
    | error e =>
      rw [hout] at happend
      simp only [Course.act, Course.map, hout, happend]
      rfl
    | ok out =>
      rw [hout] at happend
      simp only [Course.act, Course.map, hout, happend]
      rfl

theorem size_act_le :
    (c.act append close a).file.size.toNat ≤ c.file.size.toNat + a.offered := by
  cases a with
  | close => exact Nat.le_add_right ..
  | append bytes =>
    cases hout : c.file.append bytes c.storage with
    | error e =>
      simp only [Course.act, hout, Course.file_record]
      exact Nat.le_add_right ..
    | ok out =>
      simp only [Course.act, hout, Course.file_record]
      exact size_append_le hout

/-- As long as fewer bytes are offered than there are words, a course is the one of the file
that counts without bounds. -/
theorem map_toTempFile_use {acts : List TempFile.Act} {t : WordFile}
    (h : t.size.toNat + (acts.map TempFile.Act.offered).sum < UInt64.size) (s : Storage) :
    (t.use s acts).map toTempFile = t.toTempFile.use s acts := by
  -- What was taken and what is still to be offered stay below 2^64 together, so the bound
  -- passes from one act to the next although the size grows.
  have hrun (c : Course WordFile)
      (hc : c.file.size.toNat + (acts.map TempFile.Act.offered).sum < UInt64.size) :
      (acts.foldl (Course.act append close) c).map toTempFile =
        acts.foldl (Course.act TempFile.append TempFile.close) (c.map toTempFile) := by
    clear h
    induction acts generalizing c with
    | nil => rfl
    | cons a acts ih =>
      rw [List.map_cons, List.sum_cons] at hc
      have hsize := size_act_le (c := c) (a := a)
      rw [List.foldl_cons, List.foldl_cons, ih _ (by omega), map_toTempFile_act (by omega)]
  exact hrun ⟨t, s, []⟩ h

end WordFile

/-! ## Other files -/

namespace Disk.ChangesAt

variable {places : Location → Prop} {d d' : Disk}

/-- A path that leads elsewhere, and not to a file that lay at the places, reads as it did. -/
theorem read?_eq (h : d.ChangesAt places d') {path : FilePath}
    (hpath : ∀ l, d.place path = .ok l → ¬places l)
    (hother : ∀ l file, places l → d.entries.get? l = some file → d.lookup? path ≠ some file) :
    d'.read? path = d.read? path := by
  refine Disk.read?_congr h.folders fun l hl => ?_
  rw [Disk.fileAt?, Disk.fileAt?, h.entries l (hpath l hl)]
  refine Option.map_congr fun file hfile => h.contents file ?_
  rintro (hnew | ⟨l', hl', hthere⟩)
  · exact absurd (d.entries_lt _ (OrderedMap.mem_of_get? hfile)) (Nat.not_lt.mpr hnew)
  · refine hother l' file hl' hthere ?_
    rw [Disk.lookup?, hl]
    exact hfile

end Disk.ChangesAt

/-! ## The whole life -/

namespace TempFile

/-- The life of a temp file, from any disk on. Whatever is done with it, it holds what it
has taken, byte by byte, its size is the length of that, and that is within the ceiling. An
append is answered as its size and the acts before it say, and one that is refused changes
nothing. To close twice is to close once. When the file is finished, it stays where it is,
with its path and its size; when it is discarded, it is gone. No other file is touched: a
path that led to another one, or to none, reads what it read before. All this is so too if
sizes are counted in 64-bit words, for every ceiling that is a word, as long as fewer than
2^64 bytes are offered. -/
theorem lifetime {folder : String} {limit : Nat} {s s' : Storage} {t : TempFile}
    (hcreate : TempFile.create folder limit s = (.ok t, s')) (acts : List Act) :
    let c := t.use s' acts
    let gone := (c.file.discard c.storage).disk
    ∃ l, Alive s.disk l t.path limit acts c ∧
      (∀ bytes,
        let next := t.use s' (acts ++ [.append bytes])
        let answer := reply t.path limit acts c.taken.length bytes
        next.answers = c.answers ++ [(.append bytes, answer)] ∧
          (answer ≠ .ok () → next.file = c.file ∧ next.storage = c.storage)) ∧
      (let closed := t.use s' (acts ++ [.close])
        let again := t.use s' (acts ++ [.close] ++ [.close])
        closed.answers = c.answers ++ [(.close, .ok ())] ∧ closed.storage = c.storage ∧
          again.file = closed.file ∧ again.storage = closed.storage) ∧
      (c.file.finish = (t.path, c.taken.length) ∧
        c.storage.disk.read? t.path = some c.taken) ∧
      (gone.read? t.path = none ∧ s.disk.ChangesAt (· = l) gone) ∧
      (∀ path, s.disk.place path ≠ .ok l →
        (∀ file, s.disk.lookup? t.path = some file → s.disk.lookup? path ≠ some file) →
        c.storage.disk.read? path = s.disk.read? path ∧ gone.read? path = s.disk.read? path) ∧
      ∀ word : UInt64, word.toNat = limit → (acts.map Act.offered).sum < UInt64.size →
        (WordFile.use ⟨t.path, t.handle, 0, word⟩ s' acts).map WordFile.toTempFile = c := by
  intro c gone
  obtain ⟨l, halive⟩ : ∃ l, Alive s.disk l t.path limit acts c := alive_use hcreate acts
  have hremoved : s.disk.ChangesAt (· = l) gone := by
    refine halive.changes.remove fun x hx => ?_
    rw [Disk.place_eq_ok_congr halive.changes.folders, halive.path_eq, halive.place] at hx
    exact (Except.ok.inj hx).symm
  refine ⟨l, halive, fun bytes => ?_, ?_, ⟨?_, ?_⟩, ⟨?_, hremoved⟩, fun path hpath hother => ?_,
    fun word hword hoffered => ?_⟩
  · rw [use_concat]
    exact (halive.act_append bytes).2
  · intro closed again
    have hclosed : closed = c.act append close .close := use_concat ..
    have hagain : again = closed.act append close .close := use_concat ..
    rw [hagain, hclosed]
    exact ⟨rfl, rfl, rfl, rfl⟩
  · exact Prod.ext halive.path_eq halive.size_eq
  · exact halive.read?
  · rw [← halive.path_eq]
    exact Disk.read?_remove_self ..
  · have helse : ∀ x, s.disk.place path = .ok x → ¬x = l := by
      rintro x hx rfl
      exact hpath hx
    have hothers : ∀ x file, x = l → s.disk.entries.get? x = some file →
        s.disk.lookup? path ≠ some file := by
      rintro x file rfl hfile
      refine hother file ?_
      rw [Disk.lookup?, halive.place]
      exact hfile
    exact ⟨halive.changes.read?_eq helse hothers, hremoved.read?_eq helse hothers⟩
  · obtain ⟨-, hsize, hlimit⟩ := create_spec hcreate
    rw [WordFile.map_toTempFile_use (by rwa [UInt64.toNat_zero, Nat.zero_add])]
    simp only [WordFile.toTempFile, hword, UInt64.toNat_zero]
    rw [← hsize, ← hlimit]

/-- A file that refuses five bytes, takes three instead, and is closed too early. -/
theorem lifetime_of_refused :
    let s : Storage := ⟨.ofFolders [["tmp"]], ⟨1, 0, 0⟩⟩
    let acts : List Act := [.append [1, 2, 3, 4, 5], .append [6, 7, 8, 9, 10], .append [6, 7, 8],
      .close, .append [9]]
    ∃ t s', TempFile.create "tmp" 9 s = (.ok t, s') ∧
      (t.use s' acts).taken = [1, 2, 3, 4, 5, 6, 7, 8] ∧
      (t.use s' acts).storage.disk.read? t.path = some [1, 2, 3, 4, 5, 6, 7, 8] ∧
      (t.use s' acts).file.finish = (t.path, 8) ∧
      (WordFile.use ⟨t.path, t.handle, 0, 9⟩ s' acts).map WordFile.toTempFile = t.use s' acts := by
  intro s acts
  let t : TempFile := ⟨.inFolder "tmp" s.names.upcoming, some 0, 0, 9⟩
  let s' := (TempFile.create "tmp" 9 s).2
  have hcreate : TempFile.create "tmp" 9 s = (.ok t, s') := Prod.ext (by decide +kernel) rfl
  have htaken : (t.use s' acts).taken = [1, 2, 3, 4, 5, 6, 7, 8] := by decide +kernel
  obtain ⟨l, -, -, -, ⟨hfinish, hread⟩, -, -, hwords⟩ := lifetime hcreate acts
  rw [htaken] at hfinish hread
  exact ⟨t, s', hcreate, htaken, hread, hfinish, hwords 9 rfl (by decide)⟩

end TempFile

end Multipart

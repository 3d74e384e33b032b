import Mathlib.Data.List.Induction
import Mathlib.Data.List.Nodup
import Multipart.Form.Publish

/-!
# What is published

The parts of a body enter its form one after the other, each as a plain
field or as a file. The variables are then what was written last under
each name (`Publication.get?_vars_publishAll`), and the file of a field is
the last one that was published for it (`Publication.last_of_get?_files`).

The server's variables have names of their own: two files write one name
only if they belong to one field. What changes such a variable behind its
file is therefore a plain field of that name (`Form.ServerVariables`).
-/

namespace Multipart

/-! ## Writing one name after the other -/

/-- The last value that is written under a key. -/
def lastWrite? {κ α : Type} [DecidableEq κ] (key : κ) (writes : List (κ × α)) : Option α :=
  writes.reverse.lookup key

section LastWrite

variable {κ α : Type} [DecidableEq κ] {key : κ} {value : α} {writes writes' : List (κ × α)}

theorem lastWrite?_append :
    lastWrite? key (writes ++ writes') = (lastWrite? key writes').or (lastWrite? key writes) := by
  rw [lastWrite?, List.reverse_append, List.lookup_append]
  rfl

theorem lastWrite?_singleton (other : κ) :
    lastWrite? key [(other, value)] = if key = other then some value else none := by
  simp [lastWrite?, List.lookup_cons]
  split <;> simp_all

theorem lastWrite?_eq_none (h : key ∉ writes.map Prod.fst) : lastWrite? key writes = none := by
  rw [lastWrite?, List.lookup_eq_none_iff]
  intro w hw
  rw [bne_iff_ne]
  rintro rfl
  exact h (List.mem_map_of_mem (List.mem_reverse.mp hw))

theorem lastWrite?_of_mem (hnodup : (writes.map Prod.fst).Nodup) {w : κ × α} (hw : w ∈ writes) :
    lastWrite? w.1 writes = some w.2 := by
  induction writes with
  | nil => cases hw
  | cons v writes ih =>
    obtain ⟨hnew, hrest⟩ := List.nodup_cons.mp hnodup
    rw [← List.singleton_append, lastWrite?_append]
    rcases List.mem_cons.mp hw with rfl | hw
    · rw [lastWrite?_eq_none hnew, lastWrite?_singleton, if_pos rfl]
      rfl
    · rw [ih hrest hw]
      rfl

/-- What was written last is found; a key that nothing was written under keeps
its value. -/
theorem OrderedMap.get?_foldl_insert (m : OrderedMap κ α) (writes : List (κ × α)) :
    (writes.foldl (fun m w => m.insert w.1 w.2) m).get? key =
      (lastWrite? key writes).or (m.get? key) := by
  induction writes generalizing m with
  | nil => rfl
  | cons w writes ih =>
    rw [List.foldl_cons, ih, OrderedMap.get?_insert, ← List.singleton_append, lastWrite?_append,
      lastWrite?_singleton, Option.or_assoc]
    congr 1
    split <;> rfl

end LastWrite

/-! ## Publications -/

/-- What a part is published as. -/
inductive Publication where
  | plain (name : String) (value : Bytes)
  | file (name : String) (stored : StoredFile)
  deriving DecidableEq, Repr

namespace Publication

def publish (form : Form) : Publication → Form
  | plain name value => form.publishField name value
  | file name stored => form.withFile name stored

def publishAll (form : Form) (published : List Publication) : Form := published.foldl publish form

/-- The variables that are written, in order. -/
def writes : Publication → List (String × String)
  | plain name value => [(name, Text.ofBytes value)]
  | file name stored => Form.fileVariables name stored

def plain? : Publication → Option (String × String)
  | plain name value => some (name, Text.ofBytes value)
  | file _ _ => none

/-- The text of the last plain field of this name. -/
def lastPlain? (name : String) (published : List Publication) : Option String :=
  lastWrite? name (published.filterMap plain?)

variable {published : List Publication} {form : Form}

theorem publishAll_concat (form : Form) (published : List Publication) (p : Publication) :
    publishAll form (published ++ [p]) = publish (publishAll form published) p :=
  List.foldl_concat ..

theorem vars_publishAll (form : Form) (published : List Publication) :
    (publishAll form published).vars =
      (published.flatMap writes).foldl (fun vars w => vars.insert w.1 w.2) form.vars := by
  induction published generalizing form with
  | nil => rfl
  | cons p published ih =>
    rw [List.flatMap_cons, List.foldl_append]
    refine (ih (publish form p)).trans ?_
    cases p <;> rfl

theorem get?_vars_publishAll (form : Form) (published : List Publication) (key : String) :
    (publishAll form published).vars.get? key =
      (lastWrite? key (published.flatMap writes)).or (form.vars.get? key) := by
  rw [vars_publishAll, OrderedMap.get?_foldl_insert]

/-- Where no file writes a variable, the plain fields do. -/
theorem lastWrite?_writes {key : String}
    (h : ∀ name f, file name f ∈ published → key ∉ (Form.fileVariables name f).map Prod.fst) :
    lastWrite? key (published.flatMap writes) = lastPlain? key published := by
  induction published with
  | nil => rfl
  | cons p published ih =>
    have hrest := ih fun name f hf => h name f (List.mem_cons_of_mem _ hf)
    rw [List.flatMap_cons, lastWrite?_append, hrest]
    cases p with
    | plain name value => exact lastWrite?_append.symm
    | file name f =>
      rw [writes, lastWrite?_eq_none (h name f List.mem_cons_self), Option.or_none]
      rfl

/-- The file of a field is the last one that was published for it. -/
theorem last_of_get?_files {name : String} {f : StoredFile} (hform : form.files.get? name = none)
    (h : (publishAll form published).files.get? name = some f) :
    ∃ before after, published = before ++ file name f :: after ∧ ∀ g, file name g ∉ after := by
  induction published using List.reverseRecOn with
  | nil => exact absurd (h.symm.trans hform) nofun
  | append_singleton published p ih =>
    rw [publishAll_concat] at h
    have hearlier (h : (publishAll form published).files.get? name = some f)
        (hp : ∀ g, p ≠ file name g) : ∃ before after,
          published ++ [p] = before ++ file name f :: after ∧ ∀ g, file name g ∉ after := by
      obtain ⟨before, after, rfl, hafter⟩ := ih h
      refine ⟨before, after ++ [p], by rw [List.append_assoc, List.cons_append], fun g hg => ?_⟩
      rcases List.mem_append.mp hg with hg | hg
      · exact hafter g hg
      · exact hp g (List.mem_singleton.mp hg).symm
    cases p with
    | plain other value => exact hearlier h nofun
    | file other g =>
      replace h : ((publishAll form published).files.insert other g).get? name = some f := h
      rw [OrderedMap.get?_insert] at h
      split at h
      · next hname =>
        obtain rfl := Option.some.inj h
        exact ⟨published, [], by rw [hname], fun _ => List.not_mem_nil⟩
      · next hname =>
        refine hearlier h fun g' hg' => hname ?_
        cases hg'
        rfl

end Publication

/-! ## The server's variables -/

namespace Form

/-- What the names of a file's variables begin with. -/
def filePrefixes : List String :=
  ["FILE_CLIENT_FILENAME_", "FILE_CONTENT_TYPE_", "FILE_FILENAME_", "FILE_SIZE_"]

variable {name name' key : String} {f f' : StoredFile}

theorem keys_fileVariables (name : String) (f : StoredFile) :
    (fileVariables name f).map Prod.fst = filePrefixes.map (· ++ name) := rfl

/-- Seven characters tell what a name begins with. -/
theorem take_key {p : String} (hp : p ∈ filePrefixes) (name : String) :
    (p ++ name).toList.take 7 = p.toList.take 7 := by
  have hlength : ∀ p ∈ filePrefixes, 7 ≤ p.toList.length := by decide
  rw [String.toList_append, List.take_append_of_le_length (hlength p hp)]

/-- Files of different fields share no variable. -/
theorem name_eq_of_key (h : key ∈ (fileVariables name f).map Prod.fst)
    (h' : key ∈ (fileVariables name' f').map Prod.fst) : name = name' := by
  rw [keys_fileVariables] at h h'
  obtain ⟨p, hp, rfl⟩ := List.mem_map.mp h
  obtain ⟨q, hq, hkey⟩ := List.mem_map.mp h'
  have htake := congrArg (fun key => key.toList.take 7) hkey
  rw [take_key hq, take_key hp] at htake
  have hdistinct : ∀ p ∈ filePrefixes, ∀ q ∈ filePrefixes,
      q.toList.take 7 = p.toList.take 7 → q = p := by decide
  obtain rfl := hdistinct p hp q hq htake
  exact (String.append_right_inj _).mp hkey.symm

/-- No file writes the upload folder. -/
theorem uploadDirKey_not_mem (name : String) (f : StoredFile) :
    uploadDirKey ∉ (fileVariables name f).map Prod.fst := by
  rw [keys_fileVariables]
  intro h
  obtain ⟨p, hp, hkey⟩ := List.mem_map.mp h
  have htake := congrArg (fun key => key.toList.take 7) hkey
  rw [take_key hp] at htake
  have hdistinct : ∀ p ∈ filePrefixes, p.toList.take 7 ≠ uploadDirKey.toList.take 7 := by decide
  exact hdistinct p hp htake

theorem nodup_keys_fileVariables (name : String) (f : StoredFile) :
    ((fileVariables name f).map Prod.fst).Nodup := by
  rw [keys_fileVariables]
  exact List.Nodup.map (fun p q h => (String.append_left_inj name).mp h) (by decide)

/-- What the server's variables say once so much was published. Each is what
the server wrote, up to the plain fields that were published under its name
behind that. -/
structure ServerVariables (uploadDir : String) (published : List Publication) (form : Form) :
    Prop where
  folder : form.vars.get? uploadDirKey =
    some ((Publication.lastPlain? uploadDirKey published).getD uploadDir)
  files : ∀ name f, form.files.get? name = some f →
    ∃ before after, published = before ++ .file name f :: after ∧
      (∀ g, .file name g ∉ after) ∧
      ∀ v ∈ fileVariables name f, form.vars.get? v.1 =
        some ((Publication.lastPlain? v.1 after).getD v.2)

theorem serverVariables_publishAll (uploadDir : String) (published : List Publication) :
    ServerVariables uploadDir published
      (Publication.publishAll (.forFolder uploadDir) published) := by
  constructor
  · rw [Publication.get?_vars_publishAll,
      Publication.lastWrite?_writes fun name f _ => uploadDirKey_not_mem name f]
    cases Publication.lastPlain? uploadDirKey published <;> rfl
  · intro name f hf
    obtain ⟨before, after, rfl, hafter⟩ := Publication.last_of_get?_files rfl hf
    refine ⟨before, after, rfl, hafter, fun v hv => ?_⟩
    -- the field has no later file, and no other one writes its variables
    have hlater : lastWrite? v.1 (after.flatMap Publication.writes) =
        Publication.lastPlain? v.1 after := by
      refine Publication.lastWrite?_writes fun other g hg hkey => hafter g ?_
      rwa [name_eq_of_key (List.mem_map_of_mem hv) hkey]
    rw [Publication.get?_vars_publishAll, List.flatMap_append, List.flatMap_cons,
      lastWrite?_append, lastWrite?_append, hlater, Publication.writes,
      lastWrite?_of_mem (nodup_keys_fileVariables name f) hv]
    cases Publication.lastPlain? v.1 after <;> rfl

end Form

end Multipart

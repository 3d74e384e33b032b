import Multipart.Proofs.DiskView
import Multipart.Proofs.EntryWise
import Multipart.Proofs.Publication

/-!
# What publishing leaves behind

Parts are published one after the other into a form and onto the disk that their files lie
on (`Publication.enterAll`). Both maps of the form then show what was written under each
key last, in the order in which keys were written first (`OrderedMap.LastWins`). From the
disk those files are gone that a later file of the same field replaced, and no others
(`Publication.IsReplaced`).

The main statement is `Publication.enterAll_lastWins`.
-/

namespace Multipart

/-! ## Last writes in the order of first writes -/

section LastWrites

variable {κ α : Type} [DecidableEq κ]

/-- The keys that are written, each once, in the order of their first writes, with the value
that is written last under each. -/
def lastWrites (writes : List (κ × α)) : List (κ × α) :=
  (writes.map Prod.fst).eraseDups.filterMap fun key =>
    (lastWrite? key writes).map fun value => (key, value)

namespace OrderedMap

/-- What a map shows after these writes: each key where it was written first, with the value
that was written last. -/
structure LastWins (m : OrderedMap κ α) (writes : List (κ × α)) : Prop where
  keys : m.keys = (writes.map Prod.fst).eraseDups
  get? : ∀ key, m.get? key = lastWrite? key writes
  size : m.size = (writes.map Prod.fst).eraseDups.length
  entries : m.entries = lastWrites writes

theorem keys_foldl_insert (writes : List (κ × α)) :
    (writes.foldl (fun m w => m.insert w.1 w.2) (∅ : OrderedMap κ α)).keys =
      (writes.map Prod.fst).eraseDups := by
  induction writes using List.reverseRecOn with
  | nil => rfl
  | append_singleton writes w ih =>
    rw [List.foldl_concat, keys_insert, ih, List.map_append, List.eraseDups_append]
    simp only [List.mem_eraseDups, List.map_cons, List.map_nil, List.removeAll]
    by_cases h : w.1 ∈ writes.map Prod.fst
    · rw [if_pos h, List.filter_cons_of_neg (by simpa using h)]
      exact (List.append_nil _).symm
    · rw [if_neg h, List.filter_cons_of_pos (by simpa using h)]
      rfl

/-- The entries of a map are its keys with what is found under them. -/
theorem entries_eq (m : OrderedMap κ α) :
    m.entries = m.keys.filterMap fun key => (m.get? key).map fun value => (key, value) := by
  rw [keys, List.filterMap_map]
  refine (List.filterMap_some.symm.trans (List.filterMap_congr fun e he => ?_))
  rw [Function.comp_apply, get?_of_mem he, Option.map_some]

/-- Writing one key after the other, the last write wins. -/
theorem lastWins_foldl_insert (writes : List (κ × α)) :
    (writes.foldl (fun m w => m.insert w.1 w.2) (∅ : OrderedMap κ α)).LastWins writes := by
  have hkeys := keys_foldl_insert writes
  have hget (key : κ) :
      (writes.foldl (fun m w => m.insert w.1 w.2) (∅ : OrderedMap κ α)).get? key =
        lastWrite? key writes := by
    rw [get?_foldl_insert]
    exact Option.or_none
  refine ⟨hkeys, hget, ?_, ?_⟩
  · rw [← hkeys, OrderedMap.size, OrderedMap.keys, List.length_map]
  · rw [entries_eq, hkeys, lastWrites]
    simp only [hget]

end OrderedMap

end LastWrites

/-! ## Files that go -/

namespace Disk

/-- From one disk to the other, the files at these places went, and nothing else changed. -/
structure Loses (places : Location → Prop) (d d' : Disk) : Prop where
  folders : d'.folders = d.folders
  gone : ∀ l, places l → d'.fileAt? l = none
  kept : ∀ l, ¬places l → d'.fileAt? l = d.fileAt? l

namespace Loses

variable {places places' : Location → Prop} {d d' : Disk} {path : FilePath}

theorem refl (d : Disk) : d.Loses (fun _ => False) d := ⟨rfl, fun _ => False.elim, fun _ _ => rfl⟩

theorem congr (h : d.Loses places d') (hsame : ∀ l, places l ↔ places' l) : d.Loses places' d' :=
  ⟨h.folders, fun l hl => h.gone l ((hsame l).mpr hl), fun l hl => h.kept l (mt (hsame l).mp hl)⟩

theorem remove (h : d.Loses places d') (path : FilePath) :
    d.Loses (fun l => places l ∨ d.place path = .ok l) (d'.remove path) := by
  cases hplace : d'.place path with
  | error cause =>
    have hnowhere (l : Location) : d.place path ≠ .ok l := by
      intro hl
      rw [(place_eq_ok_congr h.folders).mpr hl] at hplace
      cases hplace
    rw [Disk.remove, hplace]
    exact h.congr fun l => (or_iff_left (hnowhere l)).symm
  | ok place =>
    have hview := fileAt?_remove hplace
    rw [place_eq_ok_congr h.folders] at hplace
    refine ⟨(folders_remove d' path).trans h.folders, fun l hl => ?_, fun l hl => ?_⟩
    · rw [hview]
      split
      · rfl
      · next hne =>
        refine h.gone l (hl.resolve_right fun hl => hne ?_)
        exact Except.ok.inj (hl.symm.trans hplace)
    · rw [not_or] at hl
      rw [hview, if_neg, h.kept l hl.1]
      rintro rfl
      exact hl.2 hplace

/-- A path reads nothing if it led to one of the places, and what it read before if not. -/
theorem read?_of_place {l : Location} (h : d.Loses places d') (hl : d.place path = .ok l)
    (hplace : places l) : d'.read? path = none := by
  rw [Disk.read?_eq, (place_eq_ok_congr h.folders).mpr hl]
  exact h.gone l hplace

theorem read?_eq (h : d.Loses places d') (hpath : ∀ l, d.place path = .ok l → ¬places l) :
    d'.read? path = d.read? path :=
  read?_congr h.folders fun l hl => h.kept l (hpath l hl)

end Loses

end Disk

namespace Publication

variable {published : List Publication} {p : Publication} {d : Disk} {f g : StoredFile}
  {name : String}

/-! ## Forms -/

def file? : Publication → Option (String × StoredFile)
  | plain _ _ => none
  | file name stored => some (name, stored)

theorem file?_eq_some_iff : p.file? = some (name, f) ↔ p = file name f := by
  cases p <;> simp [file?]

theorem files_publishAll (form : Form) (published : List Publication) :
    (publishAll form published).files =
      (published.filterMap file?).foldl (fun files w => files.insert w.1 w.2) form.files := by
  induction published generalizing form with
  | nil => rfl
  | cons p published ih =>
    cases p with
    | plain name value => exact ih _
    | file name stored => exact ih _

/-- One publication, with its file on the disk. -/
def enter (state : Form × Disk) : Publication → Form × Disk
  | plain name value => (state.1.publishField name value, state.2)
  | file name stored => state.1.publishFile name stored state.2

/-- One publication after the other, from an empty form on. -/
def enterAll (d : Disk) (published : List Publication) : Form × Disk :=
  published.foldl enter (.empty, d)

theorem enterAll_concat (d : Disk) (published : List Publication) (p : Publication) :
    enterAll d (published ++ [p]) = enter (enterAll d published) p := List.foldl_concat ..

/-- What happens to the disk makes no difference to the form. -/
theorem form_enterAll (d : Disk) (published : List Publication) :
    (enterAll d published).1 = publishAll .empty published := by
  induction published using List.reverseRecOn with
  | nil => rfl
  | append_singleton published p ih =>
    rw [enterAll_concat, publishAll_concat, ← ih]
    cases p <;> rfl

/-! ## Files that are replaced -/

/-- A file behind which another one is published for its field. -/
def IsReplaced (published : List Publication) (f : StoredFile) : Prop :=
  ∃ before name after, published = before ++ file name f :: after ∧ ∃ g, file name g ∈ after

theorem isReplaced_concat :
    IsReplaced (published ++ [p]) f ↔
      IsReplaced published f ∨ ∃ name g, p = file name g ∧ file name f ∈ published := by
  constructor
  · rintro ⟨before, name, after, hsplit, g, hg⟩
    rcases List.eq_nil_or_concat after with rfl | ⟨front, last, rfl⟩
    · cases hg
    · rw [List.concat_eq_append] at hsplit hg
      rw [← List.cons_append, ← List.append_assoc] at hsplit
      obtain ⟨rfl, hp⟩ := List.append_inj' hsplit rfl
      obtain rfl := List.singleton_inj.mp hp
      rcases List.mem_append.mp hg with hg | hg
      · exact .inl ⟨before, name, front, rfl, g, hg⟩
      · exact .inr ⟨name, g, (List.mem_singleton.mp hg).symm, by simp⟩
  · rintro (⟨before, name, after, rfl, g, hg⟩ | ⟨name, g, rfl, hf⟩)
    · exact ⟨before, name, after ++ [p], by simp, g, List.mem_append_left _ hg⟩
    · obtain ⟨before, after, rfl⟩ := List.append_of_mem hf
      exact ⟨before, name, after ++ [file name g], by simp, g, by simp⟩

/-- A file of a field is replaced already, or it is the one that the form has. -/
theorem isReplaced_or_get? (h : file name f ∈ published) :
    IsReplaced published f ∨ (publishAll .empty published).files.get? name = some f := by
  obtain ⟨before, after, rfl⟩ := List.append_of_mem h
  by_cases hlater : ∃ g, file name g ∈ after
  · exact .inl ⟨before, name, after, rfl, hlater⟩
  · -- no write of that name comes behind it
    right
    have hnone : lastWrite? name (after.filterMap file?) = none := by
      refine lastWrite?_eq_none fun hmem => hlater ?_
      obtain ⟨⟨name', g⟩, hg, rfl⟩ := List.mem_map.mp hmem
      obtain ⟨q, hq, hfile⟩ := List.mem_filterMap.mp hg
      exact ⟨g, file?_eq_some_iff.mp hfile ▸ hq⟩
    have hcons : (file name f :: after).filterMap file? =
        [(name, f)] ++ after.filterMap file? := rfl
    rw [files_publishAll, OrderedMap.get?_foldl_insert, List.filterMap_append, hcons,
      lastWrite?_append, lastWrite?_append, hnone, lastWrite?_singleton, if_pos rfl]
    rfl

/-- The file that the form has for a field was published for it. -/
theorem mem_of_get? (h : (publishAll .empty published).files.get? name = some f) :
    file name f ∈ published := by
  obtain ⟨before, after, rfl, -⟩ := last_of_get?_files rfl h
  simp

/-- From the disk, the files that were replaced are gone, and no others. -/
theorem loses_enterAll (d : Disk) (published : List Publication) :
    d.Loses (fun l => ∃ f, IsReplaced published f ∧ d.place f.path = .ok l)
      (enterAll d published).2 := by
  -- The last publication removes at most one file: the one that the form has under its name,
  -- which is the only one of that name that was not replaced before.
  induction published using List.reverseRecOn with
  | nil =>
    refine (Disk.Loses.refl d).congr fun l => iff_of_false not_false ?_
    rintro ⟨f, ⟨before, name, after, hsplit, -⟩, -⟩
    simp at hsplit
  | append_singleton published p ih =>
    rw [enterAll_concat]
    cases p with
    | plain name value =>
      refine ih.congr fun l => exists_congr fun f => and_congr_left fun _ => ?_
      rw [isReplaced_concat]
      refine (or_iff_left ?_).symm
      rintro ⟨name', g, hplain, -⟩
      cases hplain
    | file name g =>
      have hform := form_enterAll d published
      simp only [enter, Form.publishFile, hform]
      cases hold : (publishAll .empty published).files.get? name with
      | none =>
        refine ih.congr fun l => exists_congr fun f => and_congr_left fun _ => ?_
        rw [isReplaced_concat]
        refine (or_iff_left_of_imp ?_).symm
        rintro ⟨name', g', hg, hf⟩
        obtain ⟨rfl, rfl⟩ := Publication.file.inj hg
        refine (isReplaced_or_get? hf).resolve_right fun hlast => ?_
        rw [hold] at hlast
        cases hlast
      | some old =>
        refine (ih.remove old.path).congr fun l => ?_
        constructor
        · rintro (⟨f, hf, hl⟩ | hl)
          · exact ⟨f, isReplaced_concat.mpr (.inl hf), hl⟩
          · exact ⟨old, isReplaced_concat.mpr (.inr ⟨name, g, rfl, mem_of_get? hold⟩), hl⟩
        · rintro ⟨f, hf, hl⟩
          rcases isReplaced_concat.mp hf with hf | ⟨name', g', hg, hf⟩
          · exact .inl ⟨f, hf, hl⟩
          · obtain ⟨rfl, rfl⟩ := Publication.file.inj hg
            rcases isReplaced_or_get? hf with hf | hlast
            · exact .inl ⟨f, hf, hl⟩
            · rw [hold] at hlast
              exact .inr (Option.some.inj hlast ▸ hl)

/-- The files of these publications lie at different places. -/
def Apart (d : Disk) (published : List Publication) : Prop :=
  (published.filterMap file?).Pairwise fun a b => d.place a.2.path ≠ d.place b.2.path

theorem Apart.place_ne {before after : List Publication} {name' : String}
    (h : Apart d (before ++ file name f :: after)) (hg : file name' g ∈ after) :
    d.place f.path ≠ d.place g.path := by
  rw [Apart, List.filterMap_append, List.pairwise_append] at h
  have hcons := (List.pairwise_cons (a := (name, f)) (l := after.filterMap file?)).mp h.2.1
  exact hcons.1 (name', g) (List.mem_filterMap.mpr ⟨_, hg, rfl⟩)

/-- In one folder, files lie at different places if their paths differ. -/
theorem apart_of_folder {folder : String}
    (hthere : ∀ name f, file name f ∈ published → d.read? f.path ≠ none)
    (hfolder : ∀ name f, file name f ∈ published → f.path.folder = folder)
    (hpaths : (published.filterMap file?).Pairwise fun a b => a.2.path ≠ b.2.path) :
    Apart d published := by
  have hmem {w : String × StoredFile} (hw : w ∈ published.filterMap file?) :
      file w.1 w.2 ∈ published := by
    obtain ⟨q, hq, hfile⟩ := List.mem_filterMap.mp hw
    exact file?_eq_some_iff.mp hfile ▸ hq
  refine hpaths.imp_of_mem fun {a b} ha hb hne hplace => hne ?_
  obtain ⟨l, hl, -⟩ := Disk.read?_ne_none_iff.mp (hthere _ _ (hmem ha))
  obtain ⟨x, -, hx, -, -, -, rfl⟩ := Disk.place_eq_ok_iff.mp hl
  obtain ⟨y, -, hy, -, -, -, hsame⟩ := Disk.place_eq_ok_iff.mp (hplace.symm.trans hl)
  have hfolders : a.2.path.folder = b.2.path.folder :=
    (hfolder _ _ (hmem ha)).trans (hfolder _ _ (hmem hb)).symm
  rw [hfolders, hy] at hx
  obtain rfl := Except.ok.inj hx
  have hnames : a.2.path.name = b.2.path.name := by simpa [Location.child] using hsame
  cases hapath : a.2.path
  cases hbpath : b.2.path
  simp_all

/-- Of files that lie at different places, those are gone that were replaced. -/
theorem isReplaced_iff_of_apart {before after : List Publication}
    (h : Apart d (before ++ file name f :: after)) :
    (∃ g, IsReplaced (before ++ file name f :: after) g ∧ d.place g.path = d.place f.path) ↔
      ∃ g, file name g ∈ after := by
  constructor
  · rintro ⟨g, ⟨before', name', after', hsplit, hlater⟩, hplace⟩
    rcases List.append_eq_append_iff.mp hsplit with ⟨_ | ⟨q, between⟩, hbefore, hafter⟩ |
      ⟨_ | ⟨q, between⟩, hbefore, hafter⟩
    · cases hafter
      exact hlater
    · -- `g` behind `f`
      obtain ⟨rfl, rfl⟩ := List.cons.inj hafter
      have hg : file name' g ∈ between ++ file name' g :: after' := by simp
      exact absurd hplace.symm (h.place_ne hg)
    · cases hafter
      exact hlater
    · -- `g` in front of `f`
      obtain ⟨rfl, rfl⟩ := List.cons.inj hafter
      rw [hsplit] at h
      have hf : file name f ∈ between ++ file name f :: after := by simp
      exact absurd hplace (h.place_ne hf)
  · rintro hlater
    exact ⟨f, ⟨before, name, after, rfl, hlater⟩, rfl⟩

/-- Publishing is an ordered fold in which the last write wins. The variables are those that
were written, each where it was written first, with what was written last; so are the files,
by field. A plain field changes neither the files nor the disk. From the disk, what lies
where a replaced file lay is gone, and nothing else is changed. So where the files lie at
different places, those are gone behind which another one was published for their field. -/
theorem enterAll_lastWins (d : Disk) (published : List Publication) :
    let r := enterAll d published
    r.1.vars.LastWins (published.flatMap writes) ∧
    r.1.files.LastWins (published.filterMap file?) ∧
    (∀ name value,
      let next := enterAll d (published ++ [plain name value])
      next.1.files = r.1.files ∧ next.2 = r.2) ∧
    (∀ path,
      ((∃ f, IsReplaced published f ∧ d.place f.path = d.place path) → r.2.read? path = none) ∧
      ((¬∃ f, IsReplaced published f ∧ d.place f.path = d.place path) →
        r.2.read? path = d.read? path)) ∧
    ((∀ name f, file name f ∈ published → d.read? f.path ≠ none) → Apart d published →
      ∀ before name f after, published = before ++ file name f :: after →
        (r.2.read? f.path = none ↔ ∃ g, file name g ∈ after)) := by
  intro r
  have hdisk := loses_enterAll d published
  have hform : r.1 = publishAll .empty published := form_enterAll d published
  have hgone (path : FilePath) (h : ∃ f, IsReplaced published f ∧ d.place f.path = d.place path) :
      r.2.read? path = none := by
    obtain ⟨f, hf, hplace⟩ := h
    cases hl : d.place path with
    | ok l => exact hdisk.read?_of_place hl ⟨f, hf, hplace.trans hl⟩
    | error cause =>
      rw [hdisk.read?_eq fun l hl' => absurd (hl.symm.trans hl') nofun, Disk.read?_eq, hl]
  have hkept (path : FilePath)
      (h : ¬∃ f, IsReplaced published f ∧ d.place f.path = d.place path) :
      r.2.read? path = d.read? path := by
    refine hdisk.read?_eq fun l hl => ?_
    rintro ⟨f, hf, hplace⟩
    exact h ⟨f, hf, hplace.trans hl.symm⟩
  refine ⟨?_, ?_, fun name value => ?_, fun path => ⟨hgone path, hkept path⟩,
    fun hthere hapart before name f after hsplit => ?_⟩
  · rw [hform, vars_publishAll]
    exact OrderedMap.lastWins_foldl_insert _
  · rw [hform, files_publishAll]
    exact OrderedMap.lastWins_foldl_insert _
  · intro next
    rw [show next = enter r (plain name value) from enterAll_concat ..]
    exact ⟨rfl, rfl⟩
  · subst hsplit
    rw [← isReplaced_iff_of_apart hapart]
    refine ⟨fun hnone => ?_, hgone f.path⟩
    by_contra hnot
    rw [hkept f.path hnot] at hnone
    exact hthere name f (by simp) hnone

/-- Two files of one field, with a plain field between them that writes the name of the
first one's size. -/
theorem enterAll_lastWins_of_two_files :
    let first : StoredFile := ⟨"x", ⟨"up/", "a"⟩, none, 1⟩
    let second : StoredFile := ⟨"y", ⟨"up/", "b"⟩, some "t", 2⟩
    let d := ((Disk.ofFolders [["up"]]).write first.path [1]).write second.path [2, 3]
    let published := [file "f" first, plain "FILE_SIZE_f" [57], file "f" second]
    let r := enterAll d published
    (∀ name f, file name f ∈ published → d.read? f.path ≠ none) ∧ Apart d published ∧
      r.1.files.entries = [("f", second)] ∧
      r.1.vars.entries = [("FILE_CLIENT_FILENAME_f", "y"), ("FILE_CONTENT_TYPE_f", "t"),
        ("FILE_FILENAME_f", "up/b"), ("FILE_SIZE_f", "2")] ∧
      r.2.read? first.path = none ∧ r.2.read? second.path ≠ none := by
  intro first second d published r
  have hthere : ∀ name f, file name f ∈ published → d.read? f.path ≠ none := by
    intro name f hf
    simp only [published, List.mem_cons, file.injEq, reduceCtorEq, List.not_mem_nil, or_false,
      false_or] at hf
    rcases hf with ⟨-, rfl⟩ | ⟨-, rfl⟩ <;> decide +kernel
  have hfolder : ∀ name f, file name f ∈ published → f.path.folder = "up/" := by
    intro name f hf
    simp only [published, List.mem_cons, file.injEq, reduceCtorEq, List.not_mem_nil, or_false,
      false_or] at hf
    rcases hf with ⟨-, rfl⟩ | ⟨-, rfl⟩ <;> rfl
  have hapart : Apart d published :=
    apart_of_folder hthere hfolder (List.pairwise_pair.mpr (by decide))
  obtain ⟨hvars, hfiles, -, -, hlost⟩ := enterAll_lastWins d published
  have hgone := hlost hthere hapart
  refine ⟨hthere, hapart, hfiles.entries.trans (by decide +kernel),
    hvars.entries.trans (by decide +kernel), (hgone [] "f" first _ rfl).mpr ⟨second, by simp⟩, ?_⟩
  rw [Ne, hgone [file "f" first, plain "FILE_SIZE_f" [57]] "f" second [] rfl]
  rintro ⟨g, hg⟩
  cases hg

end Publication

end Multipart

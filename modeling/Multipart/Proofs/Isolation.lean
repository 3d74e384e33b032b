import Mathlib.Data.List.Induction
import Multipart.Proofs.Shadows

/-!
# Isolation

Sessions that share a storage do not notice each other. Each of them gives
the answers, publishes the forms and leaves the files that it would if its
acts were all that happens, up to the generated names of temp files, and
none of them touches a file that another one owns or has handed over
(`World.isolated`).

In a world each slot has its shadow in a run on its own
(`World.Shadowed`), and no number belongs to two slots. The slot that acts
takes its shadow along, and all others keep theirs, since it spares what
was shown to it, which is all that is not its own.
-/

namespace Multipart

/-! ## What a shadow shows -/

namespace Slot

variable {u : Upload} {s₀ s s₁ s' : Storage} {σ : Nat → Nat}
  {base base' : Location → Option Bytes} {x x' : Slot}

theorem paths_eq (x : Slot) (s s₁ : Storage) : x.paths s = x.paths s₁ := by
  obtain ⟨part?, form, hholdings⟩ := x.state.holdings_eq
  rw [paths, paths, hholdings, hholdings]
  rfl

/-- A slot and its shadow gave the same answers, up to generated names. -/
theorem Shadows.renamed (h : Shadows u s₀ σ base base' x s x' s') :
    x.Renamed ((u.origin s₀).Pairs σ s.names.issued) x' where
  state := by
    have hfiles := h.files
    rcases h.state.elim with ⟨hx, hx'⟩ | ⟨d, d', hd, hd', halike⟩ | ⟨hx, hx'⟩
    · rw [hx, hx']
      exact .unused
    · rw [hd, hd'] at hfiles ⊢
      exact .active ⟨halike.settings_eq.trans halike.settings_eq'.symm, halike.delimiter,
        halike.stage, hfiles.part, hfiles.form⟩
    · rw [hx, hx']
      exact .gone
  unread := h.unread
  replies := h.replies

/-- The contents of all files of a slot are those of its shadow. -/
theorem Shadows.map_read? (h : Shadows u s₀ σ base base' x s x' s') :
    (x.paths s).map s.disk.read? = (x'.paths s').map s'.disk.read? := by
  rw [← List.forall₂_eq_eq_eq, List.forall₂_map_left_iff, List.forall₂_map_right_iff]
  exact h.read?_eq.imp fun _ _ hread => hread.2

/-- All files of a slot have names with numbers that were given to it. -/
theorem Shadows.exists_of_mem_paths (h : Shadows u s₀ σ base base' x s x' s') {p : FilePath}
    (hp : p ∈ x.paths s) :
    ∃ k, s₀.names.issued + σ k < s.names.issued ∧ p = (u.origin s₀).path (σ k) := by
  have hpaths : List.Forall₂ (fun p p' => (∃ k, s₀.names.issued + σ k < s.names.issued ∧
      p = (u.origin s₀).path (σ k)) ∧ True) (x.paths s) (x'.paths s') := by
    refine h.read?_eq.imp ?_
    rintro p p' ⟨⟨k, hk, hpath, -⟩, -⟩
    exact ⟨⟨k, hk, hpath⟩, trivial⟩
  exact ((List.forall₂_and_left _ _).mp hpaths).1 p hp

end Slot

namespace World

variable {ι : Type} {u : ι → Upload} {s : Storage} {w : World ι} {lone : ι → Slot × Storage}
  {σ : ι → Nat → Nat} {bound : Nat}

/-! ## Slots and their shadows -/

/-- Each slot has a shadow on its own, and no number was given out to two
slots. -/
structure Shadowed (u : ι → Upload) (s : Storage) (w : World ι) (lone : ι → Slot × Storage)
    (σ : ι → Nat → Nat) : Prop where
  shadows : ∀ i, ∃ base base',
    (w.slots i).Shadows (u i) s (σ i) base base' w.storage (lone i).1 (lone i).2
  apart : ∀ i j, i ≠ j → ∀ k m, s.names.issued + σ i k < w.storage.names.issued →
    s.names.issued + σ j m < w.storage.names.issued → σ i k ≠ σ j m

theorem shadowed_start (hready : Ready u s bound) :
    Shadowed u s (start s) (fun _ => (.unused, s)) fun _ => id where
  shadows i := by
    have hcovers := Ledger.Covers.start (hready.fresh i)
    exact ⟨s.disk.fileAt?, s.disk.fileAt?, Function.injective_id, fun _ => Nat.le_refl _, .unused,
      rfl, .nil, ⟨.none, .empty, ⟨.start, .start, .refl _, hcovers, hcovers⟩,
        Storage.watches_nothing⟩, .nil⟩
  apart i j _ k m hk _ := absurd hk (Nat.not_lt.mpr (Nat.le_add_right ..))

/-- The other slots keep their shadows when one acts. -/
theorem Shadowed.others (h : w.Shadowed u s lone σ) (hready : Ready u s bound) {j : ι}
    {base base' : Location → Option Bytes} {asked : Nat} {s₁ : Storage}
    (hj : (w.slots j).Shadows (u j) s (σ j) base base' w.storage (lone j).1 (lone j).2)
    (hspares : w.storage.Spares ((u j).origin s) base asked s₁)
    (hle : w.storage.names.issued ≤ s₁.names.issued) {i : ι} (hi : i ≠ j) :
    ∃ σ₁, Slot.Resumes s w.storage s₁ (σ i) σ₁ ∧ ∃ base₁ base₁',
      (w.slots i).Shadows (u i) s σ₁ base₁ base₁' s₁ (lone i).1 (lone i).2 := by
  obtain ⟨baseᵢ, baseᵢ', hshadows⟩ := h.shadows i
  obtain ⟨σ₁, hresumes, hafter⟩ := hshadows.others (Eq.refl s.names) hspares hle
    (fun k l hk hl => hj.seen fun m hm hm' =>
      h.apart i j hi k m hk hm (Origin.place_inj_of_names (Eq.refl s.names) hl hm'))
    (hready.outside i)
  exact ⟨σ₁, hresumes, _, _, hafter⟩

/-- Files of different slots have different names. -/
theorem Shadowed.name_ne (h : w.Shadowed u s lone σ) {i j : ι} (hne : i ≠ j) {p q : FilePath}
    (hp : p ∈ (w.slots i).paths w.storage) (hq : q ∈ (w.slots j).paths w.storage) :
    p.name ≠ q.name := by
  obtain ⟨base, base', hi⟩ := h.shadows i
  obtain ⟨base₁, base₁', hj⟩ := h.shadows j
  obtain ⟨k, hk, rfl⟩ := hi.exists_of_mem_paths hp
  obtain ⟨m, hm, rfl⟩ := hj.exists_of_mem_paths hq
  intro hname
  have hnumber : s.names.issued + σ i k + 1 = s.names.issued + σ j m + 1 :=
    NameSupply.numbered_inj hname
  exact h.apart i j hne k m hk hm (by omega)

variable [DecidableEq ι]

/-- The slot that acts takes its shadow along, with the numbers that it had; the
others keep theirs. -/
theorem Shadowed.shadows_step (h : w.Shadowed u s lone σ) (hready : Ready u s bound)
    (op : ι × Slot.Act) (hle : (w.step u op).storage.names.issued ≤ bound) (i : ι) :
    ∃ σ₁, (i = op.1 → σ₁ = σ i) ∧
      (i ≠ op.1 → Slot.Resumes s w.storage (w.step u op).storage (σ i) σ₁) ∧
      ∃ base₁ base₁',
        let after := (lone op.1).1.act (u op.1) (lone op.1).2 op.2
        ((w.step u op).slots i).Shadows (u i) s σ₁ base₁ base₁' (w.step u op).storage
          (Function.update lone op.1 after i).1 (Function.update lone op.1 after i).2 := by
  obtain ⟨base, base', hacting⟩ := h.shadows op.1
  have hopens : ((u op.1).origin s).Uniform bound := hready.opens op.1
  obtain ⟨base₁, base₁', asked, hacts, hspares⟩ := hacting.act hopens op.2 hle
  by_cases hi : i = op.1
  · subst hi
    refine ⟨σ op.1, fun _ => rfl, fun hne => absurd rfl hne, base₁, base₁', ?_⟩
    simp only [slots_step, Function.update_self]
    exact hacts
  · obtain ⟨σ₁, hresumes, baseᵢ, baseᵢ', hother⟩ :=
      h.others hready hacting hspares (issued_le_step u w op) hi
    refine ⟨σ₁, fun heq => absurd heq hi, fun _ => hresumes, baseᵢ, baseᵢ', ?_⟩
    simp only [Function.update_of_ne hi, slots_step_of_ne u w hi]
    exact hother

/-- After an act, all slots still have shadows, and numbers that are their own. -/
theorem Shadowed.step (h : w.Shadowed u s lone σ) (hready : Ready u s bound) (op : ι × Slot.Act)
    (hle : (w.step u op).storage.names.issued ≤ bound) :
    ∃ σ₁, (w.step u op).Shadowed u s
      (Function.update lone op.1 ((lone op.1).1.act (u op.1) (lone op.1).2 op.2)) σ₁ := by
  choose σ₁ hown hothers hshadows using h.shadows_step hready op hle
  -- only the slot that acts gets new numbers
  have hold (i : ι) (k : Nat)
      (hk : s.names.issued + σ₁ i k < (w.step u op).storage.names.issued) :
      (s.names.issued + σ i k < w.storage.names.issued ∧ σ₁ i k = σ i k) ∨
        i = op.1 ∧ w.storage.names.issued ≤ s.names.issued + σ₁ i k := by
    by_cases hi : i = op.1
    · rw [hown i hi]
      exact (Nat.lt_or_ge _ _).imp (fun hlt => ⟨hlt, rfl⟩) fun hge => ⟨hi, hge⟩
    · have hpast := (hothers i hi).only k hk
      exact .inl ⟨hpast, (hothers i hi).past k hpast⟩
  refine ⟨σ₁, hshadows, ?_⟩
  intro i i' hne k m hk hm heq
  rcases hold i k hk with ⟨hlt, hσ⟩ | ⟨hi, hge⟩ <;>
    rcases hold i' m hm with ⟨hlt', hσ'⟩ | ⟨hi', hge'⟩
  · exact h.apart i i' hne k m hlt hlt' (hσ.symm.trans (heq.trans hσ'))
  · omega
  · omega
  · exact hne (hi.trans hi'.symm)

/-! ## Whole runs -/

theorem alone_concat (ops : List (ι × Slot.Act)) (op : ι × Slot.Act) :
    alone u s (ops ++ [op]) = Function.update (alone u s ops) op.1
      ((alone u s ops op.1).1.act (u op.1) (alone u s ops op.1).2 op.2) := by
  funext i
  by_cases hi : i = op.1
  · subst hi
    rw [Function.update_self, alone, actsOf, List.filter_append, List.map_append, Slot.run,
      List.foldl_append]
    simp [alone, actsOf, Slot.run]
  · rw [Function.update_of_ne hi, alone, actsOf, List.filter_append, List.map_append]
    simp [alone, actsOf, Ne.symm hi]

/-- All slots of a run have shadows on their own. -/
theorem shadowed_run (hready : Ready u s bound) (ops : List (ι × Slot.Act))
    (hle : ((start s).run u ops).storage.names.issued ≤ bound) :
    ∃ σ, ((start s).run u ops).Shadowed u s (alone u s ops) σ := by
  induction ops using List.reverseRecOn with
  | nil => exact ⟨_, shadowed_start hready⟩
  | append_singleton ops op ih =>
    rw [run_append] at hle ⊢
    obtain ⟨σ, hbefore⟩ := ih (Nat.le_trans (issued_le_step ..) hle)
    rw [alone_concat]
    exact hbefore.step hready op hle

/-- An act leaves the files of all other slots as they were. -/
theorem Shadowed.read?_step (h : w.Shadowed u s lone σ) {op : ι × Slot.Act}
    {after : Slot × Storage} {σ₁ : ι → Nat → Nat}
    (hafter : (w.step u op).Shadowed u s (Function.update lone op.1 after) σ₁) {i : ι}
    (hi : i ≠ op.1) {p : FilePath} (hp : p ∈ (w.slots i).paths w.storage) :
    (w.step u op).storage.disk.read? p = w.storage.disk.read? p := by
  obtain ⟨base, base', hshadows⟩ := h.shadows i
  obtain ⟨base₁, base₁', hshadows₁⟩ := hafter.shadows i
  rw [Function.update_of_ne hi, slots_step_of_ne u w hi] at hshadows₁
  have hread := hshadows₁.map_read?.trans hshadows.map_read?.symm
  rw [Slot.paths_eq _ _ w.storage] at hread
  exact List.map_inj_left.mp hread p hp

/-- Sessions that share a storage do not notice each other, whatever they do in
whatever order. -/
structure Isolated (u : ι → Upload) (s : Storage) (ops : List (ι × Slot.Act)) : Prop where
  /-- Each has the answers, the forms, the decoder and the files with their
  contents that it has when only its own acts happen, up to generated names:
  number `k` on its own is number `σ k` among all. -/
  alone : ∀ i, ∃ σ : Nat → Nat, σ.Injective ∧
    let w := (start s).run u ops
    let own := alone u s ops i
    let r := ((u i).origin s).Pairs σ w.storage.names.issued
    (w.slots i).Renamed r own.1 ∧
      List.Forall₂ (fun p p' => r p p' ∧ w.storage.disk.read? p = own.2.disk.read? p')
        ((w.slots i).paths w.storage) (own.1.paths own.2)
  /-- Files of different sessions have different names. -/
  apart : ∀ i j, i ≠ j →
    let w := (start s).run u ops
    ∀ p ∈ (w.slots i).paths w.storage, ∀ q ∈ (w.slots j).paths w.storage, p.name ≠ q.name
  /-- No act of one changes or removes a file that another one owns or has handed
  over. -/
  spared : ∀ before op after, ops = before ++ op :: after →
    let w := (start s).run u before
    ∀ i, i ≠ op.1 → ∀ p ∈ (w.slots i).paths w.storage,
      (w.step u op).storage.disk.read? p = w.storage.disk.read? p

/-- **Isolation.** Sessions that share a storage with room for them are isolated
as long as no more names are asked for. -/
theorem isolated (hready : Ready u s bound) (ops : List (ι × Slot.Act))
    (hcount : ((start s).run u ops).storage.names.issued ≤ bound) : Isolated u s ops := by
  obtain ⟨σ, hshadowed⟩ := shadowed_run hready ops hcount
  constructor
  case alone =>
    intro i
    obtain ⟨base, base', hi⟩ := hshadowed.shadows i
    exact ⟨σ i, hi.injective, hi.renamed, hi.read?_eq⟩
  case apart => exact fun i j hne p hp q hq => hshadowed.name_ne hne hp hq
  case spared =>
    intro before op after hops w i hi p hp
    have hle : (w.step u op).storage.names.issued ≤ bound := by
      rw [hops, run_append] at hcount
      exact Nat.le_trans (issued_le_run u (w.step u op) after) hcount
    obtain ⟨σ₁, hbefore⟩ := shadowed_run hready before (Nat.le_trans (issued_le_step ..) hle)
    obtain ⟨σ₂, hafter⟩ := hbefore.step hready op hle
    exact hbefore.read?_step hafter hi hp

/-- Two sessions that receive a file each, in one folder and by turns. One of
them hands its form over, the other one is dropped. -/
theorem isolated_of_turns :
    let u : Bool → Upload := fun _ => ⟨"B", .standard⟩
    let s : Storage := ⟨.ofFolders [["tmp"]], ⟨1, 0, 0⟩⟩
    let file (text : String) : Bytes := Text.toBytes
      ("--B\r\nContent-Disposition: form-data; name=\"a\"; filename=\"f\"\r\n\r\n" ++ text)
    let ops : List (Bool × Slot.Act) :=
      [(true, .new), (false, .new), (true, .push (file "one")), (false, .push (file "two")),
        (true, .process), (false, .process), (true, .push (Text.toBytes "\r\n--B--\r\n")),
        (true, .finish), (false, .drop)]
    Ready u s (2 ^ 64) ∧ ((start s).run u ops).storage.names.issued ≤ 2 ^ 64 ∧
      Isolated u s ops := by
  intro u s file ops
  have hu (k : Nat) {other : String} (hother : other.toList.head? ≠ some 'u') :
      s.names.numbered k ≠ other := NameSupply.nameOf_ne hother
  have hready : Ready u s (2 ^ 64) := by
    refine ready_of_short (by decide) (fun _ => show 0 < 10 ^ 20 by decide) (fun _ => by decide) ?_
      (fun _ _ => rfl) ?_
    · rintro l hl k hlast
      obtain rfl := List.mem_singleton.mp hl
      exact hu k (by decide) (Option.some.inj hlast).symm
    · rintro i k hmem
      rw [show Disk.names (FilePath.withSlash (u i).settings.uploadDir) = ["tmp", ""] by decide,
        List.mem_pair] at hmem
      exact hmem.elim (hu k (by decide)) (hu k (by decide))
  have hcount : ((start s).run u ops).storage.names.issued ≤ 2 ^ 64 := by
    have hmost : ∀ i, ((start s : World Bool).slots i).buffer.unread.length + (bytes ops).length ≤
        1000 := fun i => by
      show 0 + (bytes ops).length ≤ 1000
      decide +kernel
    exact Nat.le_trans (issued_run_le u (start s) ops hmost) (by decide)
  exact ⟨hready, hcount, isolated hready ops hcount⟩

end World

end Multipart

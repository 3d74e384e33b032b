import Multipart.Proofs.Interference
import Multipart.Proofs.Worlds

/-!
# A slot and its shadow

The shadow of a slot does the same on a storage of its own. Since nobody
else takes names there, its files have other numbers; `Slot.Shadows` says
that apart from this the two are the same. When the slot and its shadow
act, this stays so, and the slot spares the files of all others
(`Slot.Shadows.act`). When somebody else acts, who spares the files of this
slot, it stays so as well (`Slot.Shadows.others`).
-/

namespace Multipart

/-! ## Paths and their files -/

namespace Origin

/-- Where names go by number, the path of a number that was given out and that
of the shadow. -/
def Pairs (o : Origin) (σ : Nat → Nat) (issued : Nat) (p p' : FilePath) : Prop :=
  ∃ k, o.names.issued + σ k < issued ∧ p = o.path (σ k) ∧ p' = o.path k

/-- Names can all be opened, or none of them can, until so many were issued. -/
def Uniform (o : Origin) (bound : Nat) : Prop :=
  ∀ j k, o.names.issued + j < bound → o.names.issued + k < bound →
    (∃ l l', o.place j = .ok l ∧ o.place k = .ok l') ∨
      ∃ cause, o.place j = .error cause ∧ o.place k = .error cause

/-- Two paths of a pair, under which the views show one content. -/
def SameFile (o : Origin) (σ : Nat → Nat) (issued : Nat) (view view' : Location → Option Bytes)
    (p p' : FilePath) : Prop :=
  ∃ k l l' data, o.names.issued + σ k < issued ∧ p = o.path (σ k) ∧ p' = o.path k ∧
    o.place (σ k) = .ok l ∧ o.place k = .ok l' ∧ view l = some data ∧ view' l' = some data

variable {o : Origin} {σ : Nat → Nat} {issued issued' bound : Nat}
  {view view' : Location → Option Bytes} {p p' : FilePath}

theorem Pairs.mono (hle : issued ≤ issued') (h : o.Pairs σ issued p p') :
    o.Pairs σ issued' p p' := by
  obtain ⟨k, hk, hp⟩ := h
  exact ⟨k, Nat.lt_of_lt_of_le hk hle, hp⟩

theorem SameFile.pairs (h : o.SameFile σ issued view view' p p') : o.Pairs σ issued p p' := by
  obtain ⟨k, -, -, -, hk, hp, hp', -⟩ := h
  exact ⟨k, hk, hp, hp'⟩

/-- The relation of a slot and its shadow is one for which they run in
lockstep. -/
theorem Uniform.renumbers {settings : Settings} {s : Storage}
    (h : (settings.origin s).Uniform bound) (hσ : σ.Injective) (hself : ∀ k, k ≤ σ k)
    (hle : issued ≤ bound) :
    Origin.Renumbers settings issued ((settings.origin s).Pairs σ issued) (settings.origin s)
      (settings.origin s) σ where
  injective := hσ
  folder := rfl
  folder' := rfl
  limit := rfl
  limit' := rfl
  paths k hk := ⟨k, hk, rfl, rfl⟩
  opens k hk := h (σ k) k (by omega) (by have := hself k; omega)

end Origin

/-! ## Shadows -/

/-- The same decoder, apart from files. -/
structure Decoder.Alike (settings : Settings) (d d' : Decoder) : Prop where
  settings_eq : d.settings = settings
  settings_eq' : d'.settings = settings
  delimiter : d.delimiter = d'.delimiter
  stage : d.stage.Matches d'.stage

theorem Decoder.InStep.alike {settings : Settings} {R : Holdings → Holdings → Prop}
    {d d' : Decoder} {s s' : Storage} (h : d.InStep settings R s d' s') :
    d.Alike settings d' :=
  ⟨h.settings_eq, h.settings_eq', h.delimiter, h.stage⟩

/-- The origin of the files of an upload. -/
abbrev Upload.origin (u : Upload) (s₀ : Storage) : Origin := u.settings.origin s₀

/-- What a slot and its shadow have of files. The slot leaves `watched` files
alone. -/
abbrev Slot.Files (u : Upload) (s₀ : Storage) (σ : Nat → Nat) (issued : Nat)
    (base base' : Location → Option Bytes) (watched : Location → FileId → Prop) :
    Holdings → Holdings → Prop :=
  Holdings.Renumbered ((u.origin s₀).Pairs σ issued) (u.origin s₀) (u.origin s₀) σ base base'
    watched

/-- The slot `x` and its shadow `x'`, which both started from `s₀`, are the same
apart from numbers: number `k` of the shadow is number `σ k` of the slot. What
they have handed over is in the base views. -/
structure Slot.Shadows (u : Upload) (s₀ : Storage) (σ : Nat → Nat)
    (base base' : Location → Option Bytes) (x : Slot) (s : Storage) (x' : Slot)
    (s' : Storage) : Prop where
  injective : σ.Injective
  self_le : ∀ k, k ≤ σ k
  state : x.state.Related (Decoder.Alike u.settings) x'.state
  unread : x.buffer.unread = x'.buffer.unread
  replies : List.Forall₂ (Reply.Renamed ((u.origin s₀).Pairs σ s.names.issued)) x.replies
    x'.replies
  files : Files u s₀ σ s.names.issued base base' (fun _ _ => False) (x.state.holdings s)
    (x'.state.holdings s')
  handed : List.Forall₂ ((u.origin s₀).SameFile σ s.names.issued base base') x.handedPaths
    x'.handedPaths

namespace Slot

variable {u : Upload} {s₀ s s₁ s' s₁' : Storage} {σ : Nat → Nat} {issued issued' : Nat}
  {base base' base₁ base₁' : Location → Option Bytes} {watched : Location → FileId → Prop}
  {x x' : Slot} {y y' : Holdings} {d d' : Decoder} {form form' : Form}

/-! ## Files of a slot and its shadow -/

theorem Files.unwatched (h : Files u s₀ σ issued base base' watched y y') :
    Files u s₀ σ issued base base' (fun _ _ => False) y y' :=
  ⟨h.part, h.form, h.ledgers, Storage.watches_nothing⟩

/-- More names may be given out, and files of others watched. -/
theorem Files.widen (h : Files u s₀ σ issued base base' (fun _ _ => False) y y')
    (hle : issued ≤ issued') (hwatches : y.storage.Watches base watched) :
    Files u s₀ σ issued' base base' watched y y' :=
  ⟨FilePart.Renamed.mono_option (fun _ _ => .mono hle) h.part,
    h.form.mono fun _ _ => .mono hle, h.ledgers, hwatches⟩

theorem Files.issued_eq (h : Files u s₀ σ issued base base' watched y y') :
    ∃ c c' : Ledger, c.Renumbered σ c' ∧ y.storage.names.issued = s₀.names.issued + c.asked ∧
      c.Covers (u.origin s₀) base (y.part?.map FilePart.target) y.form.files y.storage ∧
      c'.Covers (u.origin s₀) base' (y'.part?.map FilePart.target) y'.form.files y'.storage := by
  obtain ⟨c, c', hσ, hc, hc'⟩ := h.ledgers
  exact ⟨c, c', hσ, congrArg NameSupply.issued hc.keeps.names, hc, hc'⟩

/-- What is held under a number of the shadow is held under that of the slot. -/
theorem Files.sameFile {c c' : Ledger} (hσ : c.Renumbered σ c')
    (hc : s.Keeps (u.origin s₀) base c.asked c.held)
    (hc' : s'.Keeps (u.origin s₀) base' c'.asked c'.held) {k : Nat} (hk : c'.held k ≠ none) :
    (u.origin s₀).SameFile σ s.names.issued s.disk.fileAt? s'.disk.fileAt?
      ((u.origin s₀).path (σ k)) ((u.origin s₀).path k) := by
  obtain ⟨data, hdata'⟩ := Option.ne_none_iff_exists'.mp hk
  have hdata : c.held (σ k) = some data := (congrFun hσ.held k).trans hdata'
  obtain ⟨l, hl, hat⟩ := hc.at_held _ data hdata
  obtain ⟨l', hl', hat'⟩ := hc'.at_held k data hdata'
  have hlt : s₀.names.issued + σ k < s.names.issued := by
    rw [hc.names]
    exact Nat.add_lt_add_left (hc.lt_asked (σ k) (by simp [hdata])) _
  exact ⟨k, l, l', data, hlt, rfl, rfl, hl, hl', hat, hat'⟩

/-- The files of the form of a slot are those of its shadow. -/
theorem Files.form_sameFile (h : Files u s₀ σ issued base base' watched y y') :
    List.Forall₂ ((u.origin s₀).SameFile σ y.storage.names.issued y.storage.disk.fileAt?
      y'.storage.disk.fileAt?) (y.form.files.values.map StoredFile.path)
      (y'.form.files.values.map StoredFile.path) := by
  obtain ⟨c, c', hσ, hc, hc'⟩ := h.ledgers
  rw [hc.paths_eq, hc'.paths_eq, List.forall₂_map_left_iff, List.forall₂_map_right_iff]
  refine OrderedMap.EntryWise.forall₂_values ⟨hσ.stored.keys, fun field n k hn hk => ?_⟩
  obtain rfl := hσ.stored.related field n k hn hk
  obtain ⟨-, data, -, -, hdata, -⟩ := hc'.held_of_stored hk
  exact Files.sameFile hσ hc.keeps hc'.keeps (by simp [hdata])

/-- The open file of a slot is that of its shadow. -/
theorem Files.part_sameFile (h : Files u s₀ σ issued base base' watched y y') :
    List.Forall₂ ((u.origin s₀).SameFile σ y.storage.names.issued y.storage.disk.fileAt?
      y'.storage.disk.fileAt?) (y.part?.map (·.target.path)).toList
      (y'.part?.map (·.target.path)).toList := by
  obtain ⟨c, c', hσ, hc, hc'⟩ := h.ledgers
  obtain ⟨part?, form, s⟩ := y
  obtain ⟨part?', form', s'⟩ := y'
  have hpart := h.part
  cases hpart with
  | none => exact .nil
  | @some part part' hpart =>
    obtain ⟨n, _, hopen, -, hfilled⟩ := hc.filled part.target rfl
    obtain ⟨k, data, hopen', hdata, hfilled'⟩ := hc'.filled part'.target rfl
    have hn := hσ.opened
    rw [hopen, hopen'] at hn
    obtain rfl : n = σ k := Option.some.inj hn
    have hsame := Files.sameFile hσ hc.keeps hc'.keeps (k := k) (by simp [hdata])
    rw [← hfilled.fills.1, ← hfilled'.fills.1] at hsame
    exact .cons hsame .nil

/-- Handing a form over moves its files to the base views. -/
theorem Files.handOver (h : Files u s₀ σ issued base base' watched ⟨none, form, s⟩
      ⟨none, form', s'⟩) :
    Files u s₀ σ issued s.disk.fileAt? s'.disk.fileAt? (fun _ _ => False) ⟨none, .empty, s⟩
      ⟨none, .empty, s'⟩ := by
  obtain ⟨c, c', hσ, hc, hc'⟩ := h.ledgers
  exact ⟨.none, .empty, ⟨c.clear, c'.clear, hσ.clear, hc.handOver, hc'.handOver⟩,
    Storage.watches_nothing⟩

/-- What was shown is shown by the storages. -/
theorem Files.fileAt?_of_base (h : Files u s₀ σ issued base base' watched y y') :
    (∀ l data, base l = some data → y.storage.disk.fileAt? l = some data) ∧
      ∀ l data, base' l = some data → y'.storage.disk.fileAt? l = some data := by
  obtain ⟨c, c', -, hc, hc'⟩ := h.ledgers
  exact ⟨fun _ _ => hc.keeps.fileAt?_of_base, fun _ _ => hc'.keeps.fileAt?_of_base⟩

/-- What a move with files spares. -/
theorem Files.spares {z z' : Holdings} (h : Files u s₀ σ issued base base' watched y y')
    (hz : Files u s₀ σ issued' base base'
      (fun l file => base l ≠ none ∧ y.storage.disk.Names l file) z z')
    (hle : y.storage.names.issued ≤ z.storage.names.issued)
    (hfolders : z.storage.disk.folders = y.storage.disk.folders) :
    ∃ asked, y.storage.Spares (u.origin s₀) base asked z.storage := by
  obtain ⟨c, -, -, hissued, hc, -⟩ := h.issued_eq
  obtain ⟨c₁, -, -, hissued₁, hc₁, -⟩ := hz.issued_eq
  exact ⟨c₁.asked, hc.spares hc₁ (by omega) hfolders hz.watches⟩

/-! ## What a slot and its shadow do -/

/-- The answer of an act hands these paths over. -/
def Reply.paths (reply : Reply) : List FilePath :=
  reply.form?.toList.flatMap fun form => form.files.values.map StoredFile.path

theorem handedPaths_answer (x : Slot) (reply : Reply) :
    (x.answer reply).handedPaths = x.handedPaths ++ reply.paths := by
  rw [handedPaths, answer, List.filterMap_append, List.flatMap_append, handedPaths, Reply.paths]
  cases hform : reply.form? <;> simp [hform]

theorem State.storage_holdings (state : State) (s : Storage) : (state.holdings s).storage = s := by
  cases state <;> rfl

namespace Shadows

/-- Nothing but the answers changes. -/
theorem answer (h : Shadows u s₀ σ base base' x s x' s') {reply reply' : Reply}
    (hreply : Reply.Renamed ((u.origin s₀).Pairs σ s.names.issued) reply reply')
    (hpaths : List.Forall₂ ((u.origin s₀).SameFile σ s.names.issued base base') reply.paths
      reply'.paths) :
    Shadows u s₀ σ base base' (x.answer reply) s (x'.answer reply') s' where
  injective := h.injective
  self_le := h.self_le
  state := h.state
  unread := h.unread
  replies := List.rel_append h.replies (.cons hreply .nil)
  files := h.files
  handed := by
    rw [handedPaths_answer, handedPaths_answer]
    exact List.rel_append h.handed hpaths

/-- The session and the buffer change, and more names may be given out. What
was shown must still be. -/
theorem moveOn (h : Shadows u s₀ σ base base' x s x' s')
    (hle : s.names.issued ≤ s₁.names.issued) {state state' : State}
    {buffer buffer' : InputBuffer} (hunread : buffer.unread = buffer'.unread)
    (hstate : state.Related (Decoder.Alike u.settings) state')
    (hfiles : Files u s₀ σ s₁.names.issued base₁ base₁' (fun _ _ => False) (state.holdings s₁)
      (state'.holdings s₁'))
    (hshown : (∀ l data, base l = some data → base₁ l = some data) ∧
      ∀ l data, base' l = some data → base₁' l = some data) :
    Shadows u s₀ σ base₁ base₁' { x with state, buffer } s₁
      { x' with state := state', buffer := buffer' } s₁' where
  injective := h.injective
  self_le := h.self_le
  state := hstate
  unread := hunread
  replies := h.replies.imp fun _ _ => .mono fun _ _ => .mono hle
  files := hfiles
  handed := by
    refine h.handed.imp ?_
    rintro p p' ⟨k, l, l', data, hk, hp, hp', hl, hl', hdata, hdata'⟩
    exact ⟨k, l, l', data, Nat.lt_of_lt_of_le hk hle, hp, hp', hl, hl', hshown.1 l data hdata,
      hshown.2 l' data hdata'⟩

/-- The decoders of a slot and its shadow are in step. The files that are shown
to the slot are watched. -/
theorem inStep (h : Shadows u s₀ σ base base' x s x' s') (hd : x.state = .active d)
    (hd' : x'.state = .active d') (hle : s.names.issued ≤ issued) :
    d.InStep u.settings (Files u s₀ σ issued base base'
      fun l file => base l ≠ none ∧ s.disk.Names l file) s d' s' := by
  have hstate := h.state
  have hfiles := h.files
  rw [hd, hd'] at hstate hfiles
  cases hstate with
  | active halike =>
    exact ⟨halike.settings_eq, halike.settings_eq', halike.delimiter, halike.stage,
      hfiles.widen hle fun l file hw => hw⟩

theorem pass {bound : Nat} (h : Shadows u s₀ σ base base' x s x' s')
    (hopens : (u.origin s₀).Uniform bound) (hd : x.state = .active d) (hd' : x'.state = .active d')
    {atEnd : Bool} (hle : (d.pass s x.buffer atEnd).storage.names.issued ≤ bound) :
    (d.pass s x.buffer atEnd).InStep u.settings
      (Files u s₀ σ (d.pass s x.buffer atEnd).storage.names.issued base base'
        fun l file => base l ≠ none ∧ s.disk.Names l file)
      (UploadError.Renamed
        ((u.origin s₀).Pairs σ (d.pass s x.buffer atEnd).storage.names.issued))
      (d'.pass s' x'.buffer atEnd) :=
  Decoder.pass_inStep (Holdings.lockstep_renumbered (hopens.renumbers h.injective h.self_le hle))
    (h.inStep hd hd' (Decoder.issued_le_pass ..)) h.unread (Nat.le_refl _)

end Shadows

/-- A slot and its shadow have gone on to `y` and `y'`, and the slot spared what
it was shown. -/
def Goes (u : Upload) (s₀ : Storage) (σ : Nat → Nat) (base : Location → Option Bytes)
    (s : Storage) (y y' : Slot × Storage) : Prop :=
  ∃ base₁ base₁' asked, Shadows u s₀ σ base₁ base₁' y.1 y.2 y'.1 y'.2 ∧
    s.Spares (u.origin s₀) base asked y.2

namespace Shadows

variable {bound : Nat} {state state' : State} {buffer buffer' : InputBuffer}

/-- A slot that does not touch the storage spares everything. -/
theorem goes (h : Shadows u s₀ σ base base' x s x' s') {y y' : Slot}
    (hy : Shadows u s₀ σ base base' y s y' s') : Goes u s₀ σ base s (y, s) (y', s') := by
  obtain ⟨c, -, -, -, hc, -⟩ := h.files.issued_eq
  rw [State.storage_holdings] at hc
  exact ⟨base, base', c.asked, hy, hc.spares hc (Nat.le_refl _) rfl fun _ _ hw => hw⟩

/-- Moves of the decoders in lockstep. -/
theorem moved (h : Shadows u s₀ σ base base' x s x' s')
    (hle : s.names.issued ≤ s₁.names.issued) (hfolders : s₁.disk.folders = s.disk.folders)
    (hunread : buffer.unread = buffer'.unread)
    (hstate : state.Related (Decoder.Alike u.settings) state')
    (hfiles : Files u s₀ σ s₁.names.issued base base'
      (fun l file => base l ≠ none ∧ s.disk.Names l file) (state.holdings s₁)
      (state'.holdings s₁')) :
    Shadows u s₀ σ base base' { x with state, buffer } s₁
        { x' with state := state', buffer := buffer' } s₁' ∧
      ∃ asked, s.Spares (u.origin s₀) base asked s₁ := by
  refine ⟨h.moveOn hle hunread hstate hfiles.unwatched ⟨fun _ _ => id, fun _ _ => id⟩, ?_⟩
  have hspares := h.files.spares (by simpa only [State.storage_holdings] using hfiles)
  simp only [State.storage_holdings] at hspares
  exact hspares hle hfolders

/-- Moves of the decoders in lockstep that end with a form. -/
theorem handsOver (h : Shadows u s₀ σ base base' x s x' s')
    (hle : s.names.issued ≤ s₁.names.issued) (hfolders : s₁.disk.folders = s.disk.folders)
    (hunread : buffer.unread = buffer'.unread)
    (hstate : state.Related (Decoder.Alike u.settings) state')
    (hfiles : Files u s₀ σ s₁.names.issued base base'
      (fun l file => base l ≠ none ∧ s.disk.Names l file) ⟨none, form, s₁⟩ ⟨none, form', s₁'⟩)
    (hnone : state.holdings s₁ = ⟨none, .empty, s₁⟩)
    (hnone' : state'.holdings s₁' = ⟨none, .empty, s₁'⟩) :
    Goes u s₀ σ base s (Slot.answer { x with state, buffer } (.form (.ok form)), s₁)
      (Slot.answer { x' with state := state', buffer := buffer' } (.form (.ok form')), s₁') := by
  have hspares := h.files.spares (by simpa only [State.storage_holdings] using hfiles)
  simp only [State.storage_holdings] at hspares
  obtain ⟨asked, hspares⟩ := hspares hle hfolders
  refine ⟨s₁.disk.fileAt?, s₁'.disk.fileAt?, asked, ?_, hspares⟩
  have hafter := h.moveOn hle hunread hstate (hnone ▸ hnone' ▸ hfiles.handOver)
    hfiles.fileAt?_of_base
  refine hafter.answer (.form (.ok hfiles.form)) ?_
  simpa [Reply.paths, Reply.form?] using hfiles.form_sameFile

theorem act_new (h : Shadows u s₀ σ base base' x s x' s') (hx : x.state = .unused)
    (hx' : x'.state = .unused) :
    Goes u s₀ σ base s (x.act u s .new) (x'.act u s' .new) := by
  have hfiles := h.files
  rw [hx, hx'] at hfiles
  have hsame (state : State) (hstate : state.Related (Decoder.Alike u.settings) state)
      (hafter : Files u s₀ σ s.names.issued base base' (fun _ _ => False) (state.holdings s)
        (state.holdings s')) :=
    h.moveOn (Nat.le_refl _) h.unread hstate hafter ⟨fun _ _ => id, fun _ _ => id⟩
  simp only [act, hx, hx']
  cases hnew : Decoder.new u.token u.settings with
  | error e => exact h.goes ((hsame .gone .gone hfiles).answer (.opened _) .nil)
  | ok d =>
    obtain rfl := Decoder.eq_of_new hnew
    refine h.goes (Shadows.answer (hsame (.active _) (.active ⟨rfl, rfl, rfl, .refl _⟩) ?_)
      (.opened _) .nil)
    exact ⟨.none, .refl rfl, hfiles.ledgers, Storage.watches_nothing⟩

theorem act_process (h : Shadows u s₀ σ base base' x s x' s')
    (hopens : (u.origin s₀).Uniform bound) (hd : x.state = .active d) (hd' : x'.state = .active d')
    (hle : (d.pass s x.buffer false).storage.names.issued ≤ bound) :
    Goes u s₀ σ base s (x.act u s .process) (x'.act u s' .process) := by
  obtain ⟨hresult, hunread, hafter⟩ := h.pass hopens hd hd' hle
  obtain ⟨hmoved, asked, hspares⟩ := h.moved (Decoder.issued_le_pass ..) (Decoder.folders_pass ..)
    hunread (.active hafter.alike) hafter.files
  simp only [act, hd, hd']
  exact ⟨base, base', asked, hmoved.answer (.progress hresult) .nil, hspares⟩

/-- A decoder that finishes or gives up hands over its form, or nothing. -/
theorem act_finish (h : Shadows u s₀ σ base base' x s x' s')
    (hopens : (u.origin s₀).Uniform bound) (hd : x.state = .active d) (hd' : x'.state = .active d')
    (hle : (d.pass s x.buffer true).storage.names.issued ≤ bound) :
    Goes u s₀ σ base s (x.act u s .finish) (x'.act u s' .finish) := by
  obtain ⟨hresult, hunread, hafter⟩ := h.pass hopens hd hd' hle
  have hissued := Decoder.issued_le_pass d s x.buffer true
  have hfolders := Decoder.folders_pass d s x.buffer true
  simp only [act, hd, hd']
  rcases hresult.elim with ⟨progress, progress', hres, hres', rfl⟩ | ⟨e, e', hres, hres', he⟩
  · cases progress with
    | complete =>
      have hstage := Decoder.stage_of_result_pass hres
      have hstage' := Decoder.stage_of_result_pass hres'
      have hfiles := hafter.files
      rw [hstage, hstage'] at hfiles
      rw [Decoder.finish_of_complete hres, Decoder.finish_of_complete hres']
      refine h.handsOver hissued hfolders hunread (.active ⟨hafter.settings_eq, hafter.settings_eq',
        hafter.delimiter, hafter.stage⟩) hfiles ?_ ?_
      · simp only [State.holdings, Decoder.holdings, hstage]
        rfl
      · simp only [State.holdings, Decoder.holdings, hstage']
        rfl
    | needsMore =>
      rw [Decoder.finish_of_needsMore hres, Decoder.finish_of_needsMore hres']
      have habort := hafter.abort
        (Holdings.lockstep_renumbered (hopens.renumbers h.injective h.self_le hle))
      have hnames := Decoder.names_release (d.pass s x.buffer true).decoder
        (d.pass s x.buffer true).storage
      obtain ⟨hmoved, asked, hspares⟩ := h.moved (hissued.trans_eq (congrArg _ hnames.symm))
        ((Decoder.folders_release (d.pass s x.buffer true).decoder _).trans hfolders) hunread
        (.active habort.alike) (by rw [hnames]; exact habort.files)
      exact ⟨base, base', asked, hmoved.answer (.form (.error (.same _))) .nil, hspares⟩
  · rw [Decoder.finish_of_error hres, Decoder.finish_of_error hres']
    obtain ⟨hmoved, asked, hspares⟩ := h.moved hissued hfolders hunread (.active hafter.alike)
      hafter.files
    refine ⟨base, base', asked, hmoved.answer (.form (.error he)) .nil, hspares⟩

/-- A decoder that is dropped takes its files with it. -/
theorem released (h : Shadows u s₀ σ base base' x s x' s')
    (hopens : (u.origin s₀).Uniform bound) (hd : x.state = .active d) (hd' : x'.state = .active d')
    (hle : s.names.issued ≤ bound) :
    Shadows u s₀ σ base base' { x with state := .gone } (d.release s) { x' with state := .gone }
        (d'.release s') ∧
      ∃ asked, s.Spares (u.origin s₀) base asked (d.release s) := by
  have hstep := (h.inStep hd hd' (Nat.le_refl _)).release
    (Holdings.lockstep_renumbered (hopens.renumbers h.injective h.self_le hle))
  refine h.moved ?_ (Decoder.folders_release ..) h.unread .gone ?_
  · rw [Decoder.names_release]
  · rw [Decoder.names_release]
    exact hstep

theorem act_intoForm (h : Shadows u s₀ σ base base' x s x' s')
    (hopens : (u.origin s₀).Uniform bound) (hd : x.state = .active d) (hd' : x'.state = .active d')
    (hle : s.names.issued ≤ bound) :
    Goes u s₀ σ base s (x.act u s .intoForm) (x'.act u s' .intoForm) := by
  have hstep := h.inStep hd hd' (Nat.le_refl _)
  simp only [act, hd, hd']
  by_cases hstage : d.stage = .ended
  · have hstage' : d'.stage = .ended := hstep.stage.ended_iff.mp hstage
    have hfiles := hstep.files
    rw [hstage, hstage'] at hfiles
    simp only [Decoder.intoForm, hstage, hstage']
    exact h.handsOver (Nat.le_refl _) rfl h.unread .gone hfiles rfl rfl
  · have hstage' : d'.stage ≠ .ended := fun h => hstage (hstep.stage.ended_iff.mpr h)
    obtain ⟨hreleased, asked, hspares⟩ := h.released hopens hd hd' hle
    rw [Decoder.intoForm_of_ne hstage, Decoder.intoForm_of_ne hstage']
    exact ⟨base, base', asked, hreleased.answer (.form (.error (.same _))) .nil, hspares⟩

theorem act_drop (h : Shadows u s₀ σ base base' x s x' s')
    (hopens : (u.origin s₀).Uniform bound) (hd : x.state = .active d) (hd' : x'.state = .active d')
    (hle : s.names.issued ≤ bound) :
    Goes u s₀ σ base s (x.act u s .drop) (x'.act u s' .drop) := by
  obtain ⟨hreleased, asked, hspares⟩ := h.released hopens hd hd' hle
  simp only [act, hd, hd']
  exact ⟨base, base', asked, hreleased, hspares⟩

theorem act_push (h : Shadows u s₀ σ base base' x s x' s') (bytes : Bytes) :
    Goes u s₀ σ base s (x.act u s (.push bytes)) (x'.act u s' (.push bytes)) := by
  have hpushed : (x.buffer.push bytes).unread = (x'.buffer.push bytes).unread := by
    rw [InputBuffer.unread_push, InputBuffer.unread_push, h.unread]
  simp only [act]
  exact h.goes (h.moveOn (Nat.le_refl _) hpushed h.state h.files ⟨fun _ _ => id, fun _ _ => id⟩)

/-- Whatever a slot does, its shadow does it as well. -/
theorem act (h : Shadows u s₀ σ base base' x s x' s') (hopens : (u.origin s₀).Uniform bound)
    (a : Act) (hle : (x.act u s a).2.names.issued ≤ bound) :
    Goes u s₀ σ base s (x.act u s a) (x'.act u s' a) := by
  have hidle (hx : x.act u s a = (x, s)) (hx' : x'.act u s' a = (x', s')) :
      Goes u s₀ σ base s (x.act u s a) (x'.act u s' a) := by
    rw [hx, hx']
    exact h.goes h
  have hbefore := Nat.le_trans (issued_le_act u x s a) hle
  rcases h.state.elim with ⟨hx, hx'⟩ | ⟨d, d', hd, hd', -⟩ | ⟨hx, hx'⟩
  · -- a session that is not created yet can only be created
    cases a with
    | push bytes => exact h.act_push bytes
    | new => exact h.act_new hx hx'
    | _ => exact hidle (by simp only [Slot.act, hx]) (by simp only [Slot.act, hx'])
  · cases a with
    | push bytes => exact h.act_push bytes
    | new => exact hidle (by simp only [Slot.act, hd]) (by simp only [Slot.act, hd'])
    | process =>
      simp only [Slot.act, hd] at hle
      exact h.act_process hopens hd hd' hle
    | finish =>
      simp only [Slot.act, hd, Decoder.names_finish] at hle
      exact h.act_finish hopens hd hd' hle
    | intoForm => exact h.act_intoForm hopens hd hd' hbefore
    | drop => exact h.act_drop hopens hd hd' hbefore
  · cases a with
    | push bytes => exact h.act_push bytes
    | _ => exact hidle (by simp only [Slot.act, hx]) (by simp only [Slot.act, hx'])

end Shadows

/-! ## When others move -/

/-- Numbers of the past keep their partners, and no other number was given out
to this slot. -/
structure Resumes (s₀ s s₁ : Storage) (σ σ₁ : Nat → Nat) : Prop where
  injective : σ₁.Injective
  self_le : ∀ k, k ≤ σ₁ k
  issued_le : s.names.issued ≤ s₁.names.issued
  past : ∀ k, s₀.names.issued + σ k < s.names.issued → σ₁ k = σ k
  only : ∀ k, s₀.names.issued + σ₁ k < s₁.names.issued →
    s₀.names.issued + σ k < s.names.issued

variable {σ₁ : Nat → Nat} {o : Origin} {asked : Nat} {shown : Location → Option Bytes}

theorem Resumes.pairs (h : Resumes s₀ s s₁ σ σ₁) {p p' : FilePath}
    (hp : (u.origin s₀).Pairs σ s.names.issued p p') :
    (u.origin s₀).Pairs σ₁ s₁.names.issued p p' := by
  obtain ⟨k, hk, rfl, rfl⟩ := hp
  have hpast := h.past k hk
  exact ⟨k, hpast ▸ Nat.lt_of_lt_of_le hk h.issued_le, congrArg _ hpast.symm, rfl⟩

theorem Files.others {part? : Option FilePart}
    (h : Files u s₀ σ s.names.issued base base' (fun _ _ => False) ⟨part?, form, s⟩ y')
    (hσ : σ.Injective) (hself : ∀ k, k ≤ σ k) (hnames : o.names = s₀.names)
    (hs : s.Spares o shown asked s₁) (hle : s.names.issued ≤ s₁.names.issued)
    (hseen : ∀ k l, s₀.names.issued + σ k < s.names.issued →
      (u.origin s₀).place (σ k) = .ok l → shown l = s.disk.fileAt? l)
    (houtside : ∀ k, s₀.names.numbered k ∉ Disk.names (FilePath.withSlash u.settings.uploadDir)) :
    ∃ σ₁, Resumes s₀ s s₁ σ σ₁ ∧
      Files u s₀ σ₁ s₁.names.issued (s.shownAfter base s₁) base' (fun _ _ => False)
        ⟨part?, form, s₁⟩ y' := by
  obtain ⟨c, c', hren, hissued, hc, hc'⟩ := h.issued_eq
  simp only at hissued
  have hissued₁ : s₁.names.issued = s₀.names.issued + asked := by
    rw [hs.names, hnames]
    rfl
  have hasked : c.asked ≤ asked := by omega
  have hpast {k : Nat} : s₀.names.issued + σ k < s.names.issued ↔ k < c'.asked := by
    rw [hissued, Nat.add_lt_add_iff_left, hren.lt_asked hσ]
  have hresumes : Resumes s₀ s s₁ σ (shiftFrom c'.asked asked σ) := by
    refine ⟨hren.shiftFrom_injective hσ hasked, fun k => ?_, hle, fun k hk => ?_, fun k hk => ?_⟩
    · have := hself c'.asked
      have := hren.asked_eq
      have := hself k
      rw [shiftFrom]
      split <;> omega
    · exact if_pos (hpast.mp hk)
    · by_contra hge
      rw [shiftFrom, if_neg (mt hpast.mpr hge)] at hk
      omega
  refine ⟨_, hresumes, ?_⟩
  have hseen' (n : Nat) (l : Location) (hn : c.held n ≠ none)
      (hl : (u.origin s₀).place n = .ok l) : shown l = s.disk.fileAt? l := by
    obtain ⟨k, rfl⟩ := hren.only n hn
    exact hseen k l (hpast.mpr ((hren.lt_asked hσ).mp (hc.keeps.lt_asked _ hn))) hl
  have hpairs (p p' : FilePath) (hp : (u.origin s₀).Pairs σ s.names.issued p p') :
      (u.origin s₀).Pairs (shiftFrom c'.asked asked σ) s₁.names.issued p p' := hresumes.pairs hp
  exact ⟨FilePart.Renamed.mono_option hpairs h.part, h.form.mono hpairs, ⟨_, c',
    hren.others hσ hasked hc hc', hc.others hs hasked hnames.symm hseen' houtside, hc'⟩,
    Storage.watches_nothing⟩

/-- What a slot has stays the same when the storage changes. -/
theorem State.holdings_eq (state : State) :
    ∃ part? form, ∀ s, state.holdings s = ⟨part?, form, s⟩ := by
  cases state with
  | active d => exact ⟨d.stage.openFile?, d.form, fun _ => rfl⟩
  | _ => exact ⟨none, .empty, fun _ => rfl⟩

namespace Shadows

/-- Where a slot has no file, all that lies there is shown to it. -/
theorem seen (h : Shadows u s₀ σ base base' x s x' s') {l : Location}
    (hl : ∀ k, s₀.names.issued + σ k < s.names.issued → (u.origin s₀).place (σ k) ≠ .ok l) :
    base l = s.disk.fileAt? l := by
  obtain ⟨c, c', hren, hissued, hc, -⟩ := h.files.issued_eq
  rw [State.storage_holdings] at hissued hc
  refine (hc.keeps.elsewhere l ?_).symm
  intro n hn
  obtain ⟨k, rfl⟩ := hren.only n hn
  exact hl k (hissued ▸ Nat.add_lt_add_left (hc.keeps.lt_asked _ hn) _)

/-- A slot whose files are spared has the same shadow as before. -/
theorem others (h : Shadows u s₀ σ base base' x s x' s') (hnames : o.names = s₀.names)
    (hs : s.Spares o shown asked s₁) (hle : s.names.issued ≤ s₁.names.issued)
    (hseen : ∀ k l, s₀.names.issued + σ k < s.names.issued →
      (u.origin s₀).place (σ k) = .ok l → shown l = s.disk.fileAt? l)
    (houtside : ∀ k, s₀.names.numbered k ∉ Disk.names (FilePath.withSlash u.settings.uploadDir)) :
    ∃ σ₁, Resumes s₀ s s₁ σ σ₁ ∧
      Shadows u s₀ σ₁ (s.shownAfter base s₁) base' x s₁ x' s' := by
  obtain ⟨part?, form, hholdings⟩ := x.state.holdings_eq
  have hfiles := h.files
  rw [hholdings] at hfiles
  obtain ⟨σ₁, hresumes, hafter⟩ := hfiles.others h.injective h.self_le hnames hs hle hseen houtside
  have hpairs (p p' : FilePath) (hp : (u.origin s₀).Pairs σ s.names.issued p p') :
      (u.origin s₀).Pairs σ₁ s₁.names.issued p p' := hresumes.pairs hp
  refine ⟨σ₁, hresumes, hresumes.injective, hresumes.self_le, h.state, h.unread,
    h.replies.imp fun _ _ => .mono hpairs, hholdings s₁ ▸ hafter, h.handed.imp ?_⟩
  rintro p p' ⟨k, l, l', data, hk, rfl, rfl, hl, hl', hdata, hdata'⟩
  have hpast := hresumes.past k hk
  have hat : s.disk.fileAt? l = some data := hfiles.fileAt?_of_base.1 l data hdata
  have hshown : s.shownAfter base s₁ l = some data := by
    rw [Storage.shownAfter, if_pos (hdata.trans hat.symm)]
    exact hs.kept l data ((hseen k l hk hl).trans hat)
  exact ⟨k, l, l', data, hpast ▸ Nat.lt_of_lt_of_le hk hle, congrArg _ hpast.symm, rfl,
    hpast ▸ hl, hl', hshown, hdata'⟩

/-! ## What is on disk -/

/-- Paths lead where they led at the start. -/
theorem place_path (h : Shadows u s₀ σ base base' x s x' s') (k : Nat) :
    s.disk.place ((u.origin s₀).path k) = (u.origin s₀).place k ∧
      s'.disk.place ((u.origin s₀).path k) = (u.origin s₀).place k := by
  obtain ⟨c, c', -, -, hc, hc'⟩ := h.files.issued_eq
  rw [State.storage_holdings] at hc hc'
  exact ⟨hc.keeps.place_path k, hc'.keeps.place_path k⟩

/-- All files of a slot and of its shadow. -/
theorem sameFiles (h : Shadows u s₀ σ base base' x s x' s') :
    List.Forall₂ ((u.origin s₀).SameFile σ s.names.issued s.disk.fileAt? s'.disk.fileAt?)
      (x.paths s) (x'.paths s') := by
  have hpart := h.files.part_sameFile
  have hform := h.files.form_sameFile
  have hshown := h.files.fileAt?_of_base
  simp only [State.storage_holdings] at hpart hform hshown
  refine List.rel_append (List.rel_append hpart hform) (h.handed.imp ?_)
  rintro p p' ⟨k, l, l', data, hk, hp, hp', hl, hl', hdata, hdata'⟩
  exact ⟨k, l, l', data, hk, hp, hp', hl, hl', hshown.1 l data hdata, hshown.2 l' data hdata'⟩

/-- The files of a slot have the content of those of its shadow. -/
theorem read?_eq (h : Shadows u s₀ σ base base' x s x' s') :
    List.Forall₂ (fun p p' => (u.origin s₀).Pairs σ s.names.issued p p' ∧
      s.disk.read? p = s'.disk.read? p') (x.paths s) (x'.paths s') := by
  refine h.sameFiles.imp ?_
  intro p p' hsame
  refine ⟨hsame.pairs, ?_⟩
  obtain ⟨k, l, l', data, -, rfl, rfl, hl, hl', hdata, hdata'⟩ := hsame
  rw [Disk.read?_eq, Disk.read?_eq, (h.place_path (σ k)).1, (h.place_path k).2, hl, hl']
  exact hdata.trans hdata'.symm

end Shadows

end Slot

end Multipart

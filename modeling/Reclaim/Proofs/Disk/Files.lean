import Reclaim.Disk.Basic

/-!
# What changes to files do to a disk

* `MoreFolders`   a disk has all folders of another, and its paths lead to the same places;
* `HasFile`       a path leads to a file with the given bytes;
* `touch_ok`, `create_ok`, `fill_ok`, `sync_ok`, `rename_ok`, `write_ok`   what is there when a
  change has worked;
* `makeFolders_again`   folders that were made are not made again.
-/

namespace Reclaim.Disk

variable {d d' d'' : Disk} {p q : Path} {here : Place} {b b' : Bytes}

/-! ## folders -/

/-- disks of which the second has all folders of the first -/
structure MoreFolders (d d' : Disk) : Prop where
  base : d'.base = d.base
  folder : ∀ z, d.node? z = some .folder → d'.node? z = some .folder

theorem MoreFolders.refl (d : Disk) : MoreFolders d d := ⟨rfl, fun _ h => h⟩

theorem MoreFolders.trans (h : MoreFolders d d') (h' : MoreFolders d' d'') : MoreFolders d d'' :=
  ⟨h'.base.trans h.base, fun z hz => h'.folder z (h.folder z hz)⟩

theorem walk_ok (h : MoreFolders d d') {parts : List String} {z : Place}
    (hw : d.walk here parts = .ok z) : d'.walk here parts = .ok z := by
  induction parts generalizing here with
  | nil => exact hw
  | cons s r ih =>
    rw [walk] at hw ⊢
    split at hw
    · cases hw
    · cases hw
    · next hf =>
      rw [h.folder here hf]
      simp only
      split at hw
      · next hs =>
        rw [if_pos hs]
        exact ih hw
      · next hs =>
        rw [if_neg hs]
        split at hw
        · next hup =>
          rw [if_pos hup]
          exact ih hw
        · next hup =>
          rw [if_neg hup]
          exact ih hw

theorem locate_ok (h : MoreFolders d d') {z : Place} (hl : d.locate p = .ok z) :
    d'.locate p = .ok z := by
  unfold locate at hl ⊢
  split at hl
  · cases hl
  · cases hl
  · exact walk_ok h hl
  · rw [h.base]
    exact walk_ok h hl

/-! ## files -/

/-- a path leads to a file with the given bytes -/
def HasFile (d : Disk) (p : Path) (here : Place) (b : Bytes) : Prop :=
  d.locate p = .ok here ∧ d.node? here = some (.file b)

theorem read_eq_ok_iff : d.read p = .ok b ↔ ∃ here, d.HasFile p here b := by
  unfold read look HasFile
  cases hl : d.locate p with
  | error e => simp
  | ok z =>
    cases hn : d.node? z with
    | none => simp [hn]
    | some n => cases n <;> simp [hn]

/-- disks that differ in nothing but what a place holds that has no folder in either -/
structure OnlyAt (here : Place) (d d' : Disk) : Prop where
  base : d'.base = d.base
  before : d.node? here ≠ some .folder
  after : d'.node? here ≠ some .folder
  other : ∀ z, z ≠ here → d'.node? z = d.node? z

theorem OnlyAt.moreFolders (h : OnlyAt here d d') : MoreFolders d d' := by
  refine ⟨h.base, fun z hz => ?_⟩
  have hne : z ≠ here := by
    rintro rfl
    exact h.before hz
  rw [h.other z hne, hz]

theorem OnlyAt.trans (h : OnlyAt here d d') (h' : OnlyAt here d' d'') : OnlyAt here d d'' :=
  ⟨h'.base.trans h.base, h.before, h'.after, fun z hz => (h'.other z hz).trans (h.other z hz)⟩

theorem OnlyAt.not_folder (h : OnlyAt here d d') {z : Place} (hz : d.node? z ≠ some .folder) :
    d'.node? z ≠ some .folder := by
  by_cases e : z = here
  · rw [e]
    exact h.after
  · rw [h.other z e]
    exact hz

theorem OnlyAt.hasFile (h : OnlyAt here d d') (hl : d.locate p = .ok here)
    (hn : d'.node? here = some (.file b)) : d'.HasFile p here b :=
  ⟨locate_ok h.moreFolders hl, hn⟩

/-- every other file is what it was -/
theorem OnlyAt.read (h : OnlyAt here d d') (hn : d'.node? here = some (.file b))
    (hq : d.read q = .ok b') : d'.read q = .ok b' ∨ d'.read q = .ok b := by
  obtain ⟨z, hl, hz⟩ := read_eq_ok_iff.1 hq
  have hl' := locate_ok h.moreFolders hl
  by_cases e : z = here
  · subst e
    exact .inr (read_eq_ok_iff.2 ⟨z, hl', hn⟩)
  · exact .inl (read_eq_ok_iff.2 ⟨z, hl', by rw [h.other z e, hz]⟩)

/-- a file in place of no folder -/
theorem onlyAt_put (h : d.node? here ≠ some .folder) (b : Bytes) :
    OnlyAt here d (d.put here (.file b)) ∧ (d.put here (.file b)).node? here = some (.file b) := by
  have hne : here ≠ [] := by
    rintro rfl
    exact h rfl
  have hself := node?_put_self d here (.file b) hne
  refine ⟨⟨rfl, h, ?_, fun z hz => node?_put_ne d here z _ hz⟩, hself⟩
  rw [hself]
  exact fun e => (nomatch e)

theorem onlyAt_drop (h : d.node? here = some (.file b)) : OnlyAt here d (d.drop here) := by
  have hne : here ≠ [] := by
    rintro rfl
    cases h
  refine ⟨rfl, ?_, ?_, fun z hz => node?_drop_ne d here z hz⟩
  · rw [h]
    exact fun e => (nomatch e)
  · rw [node?_drop_self d here hne]
    exact fun e => (nomatch e)

/-! ## luck -/

/-- disks that hold the same, whatever becomes of the coming changes -/
structure Alike (d d' : Disk) : Prop where
  base : d'.base = d.base
  node : ∀ z, d'.node? z = d.node? z

theorem alike_draw (d : Disk) : Alike d d.draw.2 := by
  rw [draw]
  split
  · exact ⟨rfl, fun _ => rfl⟩
  · exact ⟨rfl, fun _ => rfl⟩

theorem Alike.walk (h : Alike d d') (parts : List String) : d'.walk here parts = d.walk here parts := by
  induction parts generalizing here with
  | nil => rfl
  | cons s r ih => simp only [Disk.walk, h.node, ih]

theorem Alike.locate (h : Alike d d') : d'.locate p = d.locate p := by
  unfold Disk.locate
  rw [h.base]
  split
  · rfl
  · rfl
  · exact h.walk _
  · exact h.walk _

theorem Alike.look (h : Alike d d') : d'.look p = d.look p := by
  simp only [Disk.look, h.locate, h.node]

theorem Alike.read (h : Alike d d') : d'.read p = d.read p := by
  simp only [Disk.read, h.look]

theorem Alike.moreFolders (h : Alike d d') : MoreFolders d d' :=
  ⟨h.base, fun z hz => by rw [h.node, hz]⟩

theorem Alike.hasFile (h : Alike d d') (hp : d.HasFile p here b) : d'.HasFile p here b :=
  ⟨by rw [h.locate, hp.1], by rw [h.node, hp.2]⟩

theorem OnlyAt.of_alike (h : Alike d d') (h' : OnlyAt here d' d'') : OnlyAt here d d'' where
  base := h'.base.trans h.base
  before := by
    rw [← h.node]
    exact h'.before
  after := h'.after
  other := fun z hz => (h'.other z hz).trans (h.node z)

theorem draw_cases (d : Disk) : ∃ l d₁, d.draw = (l, d₁) ∧ Alike d d₁ :=
  ⟨d.draw.1, d.draw.2, rfl, alike_draw d⟩

/-! ## changes that work -/

/-- what was opened is no folder, and nothing else has changed -/
theorem touch_ok (h : touch p d = (.ok here, d')) : d.locate p = .ok here ∧ OnlyAt here d d' := by
  obtain ⟨l, d₁, hdraw, halike⟩ := draw_cases d
  rw [touch, hdraw] at h
  cases l with
  | some k => cases h
  | none =>
    simp only [halike.locate] at h
    split at h
    · cases h
    · next z hz =>
      split at h
      · cases h
      · next b hn =>
        cases h
        refine ⟨hz, .of_alike halike ?_⟩
        have hne : d'.node? here ≠ some .folder := by
          rw [hn]
          exact fun e => (nomatch e)
        exact ⟨rfl, hne, hne, fun _ _ => rfl⟩
      · next hn =>
        cases h
        have hne : d₁.node? here ≠ some .folder := by
          rw [hn]
          exact fun e => (nomatch e)
        exact ⟨hz, .of_alike halike (onlyAt_put hne []).1⟩

theorem create_ok (h : create p d = (.ok here, d')) :
    d.locate p = .ok here ∧ OnlyAt here d d' ∧ d'.node? here = some (.file []) := by
  unfold create at h
  split at h
  · cases h
  · next z d₁ htouch =>
    cases h
    obtain ⟨hl, honly⟩ := touch_ok htouch
    obtain ⟨hput, hself⟩ := onlyAt_put honly.after []
    exact ⟨hl, honly.trans hput, hself⟩

theorem fill_ok (hne : d.node? here ≠ some .folder) (h : fill here b d = (.ok (), d')) :
    OnlyAt here d d' ∧ d'.node? here = some (.file b) := by
  obtain ⟨l, d₁, hdraw, halike⟩ := draw_cases d
  rw [fill, hdraw] at h
  cases l with
  | some k => cases h
  | none =>
    cases h
    have hne₁ : d₁.node? here ≠ some .folder := by
      rw [halike.node]
      exact hne
    obtain ⟨hput, hself⟩ := onlyAt_put hne₁ b
    exact ⟨.of_alike halike hput, hself⟩

theorem sync_ok (h : sync d = (.ok (), d')) : Alike d d' := by
  obtain ⟨l, d₁, hdraw, halike⟩ := draw_cases d
  rw [sync, hdraw] at h
  cases l with
  | some k => cases h
  | none =>
    cases h
    exact halike

/-- a file that was written holds the bytes, and nothing else has changed -/
theorem write_ok (h : write p b d = (.ok (), d')) :
    ∃ here, d'.HasFile p here b ∧ OnlyAt here d d' := by
  unfold write at h
  split at h
  · cases h
  · next here d₁ hcreate =>
    obtain ⟨hl, honly, -⟩ := create_ok hcreate
    obtain ⟨hfill, hself⟩ := fill_ok honly.after h
    have hall := honly.trans hfill
    exact ⟨here, hall.hasFile hl hself, hall⟩

/-- a file that was moved is found where it was moved to -/
theorem rename_ok (h : rename p q d = (.ok (), d')) (hp : d.HasFile p here b) :
    MoreFolders d d' ∧ ∃ z, d'.HasFile q z b := by
  obtain ⟨l, d₁, hdraw, halike⟩ := draw_cases d
  rw [rename, hdraw] at h
  cases l with
  | some k => cases h
  | none =>
    simp only [halike.locate, hp.1] at h
    split at h
    · next a z ha hz =>
      cases ha
      simp only [halike.node, hp.2] at h
      split at h
      · cases h
      · next b' hb hfolder =>
        cases hb
        cases h
        have hhere : d₁.node? here = some (.file b) := by rw [halike.node, hp.2]
        have hdrop := onlyAt_drop hhere
        have hgone : MoreFolders d (d₁.drop here) := halike.moreFolders.trans hdrop.moreFolders
        have hne : (d₁.drop here).node? z ≠ some .folder := by
          refine hdrop.not_folder ?_
          rw [halike.node]
          exact hfolder
        obtain ⟨hput, hself⟩ := onlyAt_put hne b
        exact ⟨hgone.trans hput.moreFolders, z, hput.hasFile (locate_ok hgone hz) hself⟩
      · cases h
      · cases h
    · cases h
    · cases h

/-! ## folders that are made -/

theorem moreFolders_put {z : Place} (h : d.node? z = none) : MoreFolders d (d.put z .folder) := by
  have hne : z ≠ [] := by
    rintro rfl
    cases h
  refine ⟨rfl, fun y hy => ?_⟩
  by_cases e : y = z
  · rw [e, node?_put_self d z .folder hne]
  · rw [node?_put_ne d z y .folder e, hy]

theorem grow_more {parts : List String} {r : Except DiskError Unit}
    (h : d.grow here parts = (r, d')) : MoreFolders d d' := by
  induction parts generalizing d here with
  | nil =>
    cases h
    exact .refl _
  | cons s r ih =>
    rw [grow] at h
    split at h
    · exact ih h
    split at h
    · exact ih h
    split at h
    · exact ih h
    · cases h
      exact .refl _
    · next hn => exact (moreFolders_put hn).trans (ih h)

/-- where all folders on the way are there, none is made -/
theorem grow_again {parts : List String} (h : d.grow here parts = (.ok (), d'))
    (hd : MoreFolders d' d'') : d''.grow here parts = (.ok (), d'') := by
  induction parts generalizing d here with
  | nil => rfl
  | cons s r ih =>
    have hmore := (grow_more h).trans hd
    rw [grow] at h ⊢
    split at h
    · next hs =>
      rw [if_pos hs]
      exact ih h
    next hs =>
    rw [if_neg hs]
    split at h
    · next hup =>
      rw [if_pos hup]
      exact ih h
    next hup =>
    rw [if_neg hup]
    split at h
    · next hf =>
      rw [hmore.folder _ hf]
      exact ih h
    · cases h
    · next hn =>
      have hne : s :: here ≠ [] := List.cons_ne_nil s here
      have hf := ((grow_more h).trans hd).folder _ (node?_put_self d (s :: here) .folder hne)
      rw [hf]
      exact ih h

theorem look_ok (h : MoreFolders d d') (hl : d.look p = .ok .folder) : d'.look p = .ok .folder := by
  unfold look at hl ⊢
  split at hl
  · cases hl
  · next here hlocate =>
    rw [locate_ok h hlocate]
    simp only
    split at hl
    · cases hl
    · next n hn =>
      cases hl
      rw [h.folder here hn]

/-- where a path begins, and the parts that lead on from there -/
def start (d : Disk) (p : Path) : Place × List String :=
  match p.parts with
  | "" :: r => ([], r)
  | parts => (d.base, parts)

theorem start_congr (h : d'.base = d.base) : d'.start p = d.start p := by
  unfold start
  rw [h]

theorem makeFolders_there (h : d.look p = .ok .folder) : makeFolders p d = (.ok (), d.draw.2) := by
  rw [makeFolders, h]

theorem makeFolders_absent (h : d.look p ≠ .ok .folder) : makeFolders p d =
    match d.draw with
    | (some _, d) => (.error .fault, d)
    | (none, d) => d.grow (d.start p).1 (d.start p).2 := by
  have hgrow : ∀ d₁ : Disk, (match p.parts with
      | "" :: r => d₁.grow [] r
      | parts => d₁.grow d₁.base parts) = d₁.grow (d₁.start p).1 (d₁.start p).2 := by
    intro d₁
    unfold start
    generalize p.parts = parts
    split <;> rfl
  unfold makeFolders
  split
  · next e => exact absurd e h
  · rcases d.draw with ⟨_ | _, d₁⟩
    · exact hgrow d₁
    · rfl

/-- to make folders again that were made changes nothing, and fails of bad luck alone -/
theorem makeFolders_again (h : makeFolders p d = (.ok (), d')) (hd : MoreFolders d' d'') :
    (makeFolders p d'').2 = d''.draw.2 ∧
      (d''.draw.1 = none → (makeFolders p d'').1 = .ok ()) := by
  by_cases hthere : d''.look p = .ok .folder
  · rw [makeFolders_there hthere]
    exact ⟨rfl, fun _ => rfl⟩
  obtain ⟨l, d₂, hdraw₂, halike₂⟩ := draw_cases d''
  rw [makeFolders_absent hthere, hdraw₂]
  cases l with
  | some k => exact ⟨rfl, fun e => (nomatch e)⟩
  | none =>
    obtain ⟨l, d₁, hdraw₁, halike₁⟩ := draw_cases d
    have habsent : d.look p ≠ .ok .folder := by
      intro hl
      rw [makeFolders_there hl] at h
      cases h
      exact hthere (look_ok ((alike_draw d).moreFolders.trans hd) hl)
    rw [makeFolders_absent habsent, hdraw₁] at h
    cases l with
    | some k => cases h
    | none =>
      have hbase : d₂.base = d₁.base :=
        halike₂.base.trans (hd.base.trans (grow_more h).base)
      have hagain := grow_again h (hd.trans halike₂.moreFolders)
      rw [← start_congr hbase] at hagain
      simp only
      rw [hagain]
      exact ⟨rfl, fun _ => rfl⟩

end Reclaim.Disk

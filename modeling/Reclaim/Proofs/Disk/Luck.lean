import Reclaim.Proofs.Disk.Files

/-!
# Disks that let every change work

* `touch_lucky`, `create_lucky`, `fill_lucky`, `sync_lucky`, `rename_lucky`, `makeFolders_lucky`
  a change works as long as no folder is in its way;
* `luck_touch` and so on   luck is drawn in the order in which it is in store;
* `locate_concat`, `locate_below`   a path with a name at its end, and with one more;
* `locate_beside`   one name in a folder can be found if another can;
* `locate_named`    what is found has the name.
-/

namespace Reclaim.Disk

variable {d d' d'' : Disk} {p q : Path} {here z : Place} {b : Bytes}

/-! ## changes without bad luck -/

theorem draw_lucky (h : d.luck = []) : d.draw = (none, d) := by
  rw [draw, h]

theorem touch_lucky (h : d.luck = []) (hl : d.locate p = .ok here)
    (hn : d.node? here ≠ some .folder) : ∃ d', touch p d = (.ok here, d') ∧ d'.luck = [] := by
  rw [touch, draw_lucky h]
  simp only [hl]
  split
  · next e => exact absurd e hn
  · exact ⟨d, rfl, h⟩
  · exact ⟨_, rfl, h⟩

theorem create_lucky (h : d.luck = []) (hl : d.locate p = .ok here)
    (hn : d.node? here ≠ some .folder) : ∃ d', create p d = (.ok here, d') ∧ d'.luck = [] := by
  obtain ⟨d₁, htouch, hluck⟩ := touch_lucky h hl hn
  rw [create, htouch]
  exact ⟨_, rfl, hluck⟩

theorem fill_lucky (h : d.luck = []) (here : Place) (b : Bytes) :
    ∃ d', fill here b d = (.ok (), d') ∧ d'.luck = [] := by
  rw [fill, draw_lucky h]
  exact ⟨_, rfl, h⟩

theorem sync_lucky (h : d.luck = []) : sync d = (.ok (), d) := by
  rw [sync, draw_lucky h]

theorem rename_lucky (h : d.luck = []) (hp : d.HasFile p here b) (hq : d.locate q = .ok z)
    (hn : d.node? z ≠ some .folder) : ∃ d', rename p q d = (.ok (), d') := by
  rw [rename, draw_lucky h]
  simp only [hp.1, hq, hp.2]
  exact ⟨_, rfl⟩

theorem makeFolders_lucky (hluck : d''.luck = []) (h : makeFolders p d = (.ok (), d'))
    (hd : MoreFolders d' d'') : makeFolders p d'' = (.ok (), d'') := by
  have hagain := makeFolders_again h hd
  rw [draw_lucky hluck] at hagain
  exact Prod.ext (hagain.2 rfl) hagain.1

/-! ## luck that is drawn -/

theorem luck_draw (d : Disk) : d.draw.2.luck <:+ d.luck := by
  unfold draw
  split
  · exact List.suffix_refl _
  · next e =>
    rw [e]
    exact List.suffix_cons _ _

theorem luck_touch (p : Path) (d : Disk) : (touch p d).2.luck <:+ d.luck := by
  have hdraw := luck_draw d
  unfold touch
  split
  · next e => rwa [e] at hdraw
  · next e =>
    rw [e] at hdraw
    split
    · exact hdraw
    · split <;> exact hdraw

theorem luck_create (p : Path) (d : Disk) : (create p d).2.luck <:+ d.luck := by
  have htouch := luck_touch p d
  unfold create
  split
  · next e => rwa [e] at htouch
  · next e => rwa [e] at htouch

theorem luck_fill (here : Place) (b : Bytes) (d : Disk) : (fill here b d).2.luck <:+ d.luck := by
  have hdraw := luck_draw d
  unfold fill
  split
  · next e => rwa [e] at hdraw
  · next e => rwa [e] at hdraw

theorem luck_sync (d : Disk) : (sync d).2.luck <:+ d.luck := by
  have hdraw := luck_draw d
  unfold sync
  split
  · next e => rwa [e] at hdraw
  · next e => rwa [e] at hdraw

theorem luck_rename (p q : Path) (d : Disk) : (rename p q d).2.luck <:+ d.luck := by
  have hdraw := luck_draw d
  unfold rename
  split
  · next e => rwa [e] at hdraw
  · next e =>
    rw [e] at hdraw
    split
    · split <;> exact hdraw
    · exact hdraw
    · exact hdraw

/-- a part of a path that is the name of something -/
structure Names (s : String) : Prop where
  leads : Path.leadsNowhere s = false
  up : s ≠ ".."

theorem Names.ne_empty {s : String} (h : Names s) : s ≠ "" := by
  rintro rfl
  cases h.leads

theorem names_of_lt_length {s : String} (h : 2 < s.length) : Names s := by
  have hne : ∀ t : String, t.length ≤ 2 → s ≠ t := by
    rintro t ht rfl
    exact Nat.not_lt.2 ht h
  refine ⟨?_, hne _ (by decide)⟩
  rw [Path.leadsNowhere, decide_eq_false (hne _ (by decide)), decide_eq_false (hne _ (by decide))]
  rfl

theorem walk_name {s : String} (hs : Names s) (hf : d.node? here = some .folder)
    (r : List String) : d.walk here (s :: r) = d.walk (s :: here) r := by
  have hleads : ¬ Path.leadsNowhere s = true := by
    rw [hs.leads]
    exact Bool.false_ne_true
  rw [walk, hf]
  simp only
  rw [if_neg hleads, if_neg hs.up]

theorem folder_of_walk {s : String} {r : List String} (h : d.walk here (s :: r) = .ok z) :
    d.node? here = some .folder := by
  rw [walk] at h
  split at h
  · cases h
  · cases h
  · next hf => exact hf

/-- a name at the end of a path stands in the folder that the path leads to without it -/
theorem walk_concat {l : List String} {s : String} (hs : Names s) :
    d.walk here (l ++ [s]) = .ok z ↔
      ∃ y, d.walk here l = .ok y ∧ d.node? y = some .folder ∧ z = s :: y := by
  induction l generalizing here with
  | nil =>
    constructor
    · intro h
      have hf := folder_of_walk h
      rw [List.nil_append, walk_name hs hf] at h
      cases h
      exact ⟨here, rfl, hf, rfl⟩
    · rintro ⟨y, hy, hf, rfl⟩
      cases hy
      exact walk_name hs hf []
  | cons t l ih =>
    rw [List.cons_append, walk, walk]
    split
    · exact ⟨fun h => (by cases h), fun hy => by obtain ⟨y, h, -⟩ := hy; cases h⟩
    · exact ⟨fun h => (by cases h), fun hy => by obtain ⟨y, h, -⟩ := hy; cases h⟩
    · split
      · exact ih
      · split
        · exact ih
        · exact ih

/-- a path with a name at its end is followed from where it begins -/
theorem locate_concat {s : String} (hs : Names s) (d : Disk) (l : List String) :
    d.locate ⟨l ++ [s]⟩ = d.walk (d.start ⟨l⟩).1 ((d.start ⟨l⟩).2 ++ [s]) := by
  unfold locate start
  cases l with
  | nil =>
    split
    · next e => cases e
    · next e => exact absurd (List.cons.inj e).1 hs.ne_empty
    · next e => exact absurd (List.cons.inj e).1 hs.ne_empty
    · rfl
  | cons t l =>
    by_cases ht : t = ""
    · rw [ht]
      split
      · next e => cases e
      · next e => exact absurd (List.cons.inj e).2 (List.append_ne_nil_of_right_ne_nil l (by simp))
      · next e =>
        cases e
        rfl
      · next e => exact absurd rfl (e (l ++ [s]))
    · split
      · next e => cases e
      · next e => exact absurd (List.cons.inj e).1 ht
      · next e => exact absurd (List.cons.inj e).1 ht
      · split
        · next e => exact absurd (List.cons.inj e).1 ht
        · rfl

theorem start_concat {s : String} (hs : Names s) (d : Disk) (l : List String) :
    d.start ⟨l ++ [s]⟩ = ((d.start ⟨l⟩).1, (d.start ⟨l⟩).2 ++ [s]) := by
  unfold start
  cases l with
  | nil =>
    split
    · next e => exact absurd (List.cons.inj e).1 hs.ne_empty
    · rfl
  | cons t l =>
    by_cases ht : t = ""
    · rw [ht]
      rfl
    · split
      · next e => exact absurd (List.cons.inj e).1 ht
      · split
        · next e => exact absurd (List.cons.inj e).1 ht
        · rfl

theorem walk_append {l r : List String} {y : Place} (h : d.walk here l = .ok y) :
    d.walk here (l ++ r) = d.walk y r := by
  induction l generalizing here with
  | nil =>
    cases h
    rfl
  | cons s l ih =>
    rw [List.cons_append, walk]
    rw [walk] at h
    split at h
    · cases h
    · cases h
    · split at h
      · next hs =>
        simp only [if_pos hs]
        exact ih h
      · next hs =>
        split at h
        · next hup =>
          simp only [if_neg hs, if_pos hup]
          exact ih h
        · next hup =>
          simp only [if_neg hs, if_neg hup]
          exact ih h

/-- one name further down from where a path leads to -/
theorem locate_below {l : List String} {s t : String} {y : Place} (hs : Names s) (ht : Names t)
    (h : d.locate ⟨l ++ [s]⟩ = .ok y) : d.locate ⟨l ++ [s] ++ [t]⟩ = d.walk y [t] := by
  rw [locate_concat hs] at h
  rw [locate_concat ht, start_concat hs]
  exact walk_append h

/-- where one name is found in a folder, so is another -/
theorem locate_beside {l : List String} {s t : String} (hs : Names s) (ht : Names t)
    (h : d.locate ⟨l ++ [s]⟩ = .ok z) : ∃ y, d.locate ⟨l ++ [t]⟩ = .ok (t :: y) := by
  rw [locate_concat hs] at h
  obtain ⟨y, hy, hf, -⟩ := (walk_concat hs).1 h
  exact ⟨y, by rw [locate_concat ht]; exact (walk_concat ht).2 ⟨y, hy, hf, rfl⟩⟩

/-- what a path with a name at its end leads to has that name -/
theorem locate_named {l : List String} {s : String} (hs : Names s) (h : d.locate ⟨l ++ [s]⟩ = .ok z) :
    ∃ y, z = s :: y := by
  obtain ⟨y, hy⟩ := locate_beside hs hs h
  exact ⟨y, Except.ok.inj (h.symm.trans hy)⟩

/-- the path of a name in a folder has the same parts in front, whatever the name -/
theorem join_concat (p : Path) : ∃ l, ∀ name, p.join name = ⟨l ++ [name]⟩ := by
  unfold Path.join
  split
  · exact ⟨_, fun _ => rfl⟩
  · exact ⟨_, fun _ => rfl⟩

theorem join_concat_concat {l : List String} {s : String} (hs : Names s) (t : String) :
    Path.join ⟨l ++ [s]⟩ t = ⟨l ++ [s] ++ [t]⟩ := by
  unfold Path.join
  rw [List.getLast?_concat]
  split
  · next e => exact absurd (Option.some.inj e) hs.ne_empty
  · rfl

theorem append_concat (l : List String) (s more : String) :
    Path.append ⟨l ++ [s]⟩ more = ⟨l ++ [s ++ more]⟩ := by
  rw [Path.append, List.getLast?_concat, List.dropLast_concat]

theorem not_folder_of_look (hl : d.locate p = .ok here) (h : d.look p ≠ .ok .folder) :
    d.node? here ≠ some .folder := by
  intro hf
  refine h ?_
  rw [look, hl]
  simp only [hf]

end Reclaim.Disk

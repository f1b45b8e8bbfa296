import Reclaim.Proofs.Contract.Document
import Reclaim.Proofs.Contract.Files
import Reclaim.Proofs.Contract.Sorted

/-!
# The contract store is written through

* `save_ok`, `save_lucky`   what was saved is in the document, and when saving works;
* `openIn_ok`, `openIn_error`   what an opening has done;
* `Synced`             what is held is what the document lists, however late it is read again;
* `Synced.reopened`    so that a new opening finds it, and `Synced.not_reopened` never fails there;
* `Course`             a store and a disk after any changes that worked: all are `Synced`;
* `written_through`    the store as a map, kept in its document.
-/

namespace Reclaim

/-- a change to the disk has failed, not the reading of the document -/
def StoreError.OfChange : StoreError → Prop
  | .read _ => False
  | .parse _ => False
  | _ => True

namespace ContractStore

open Contracts

variable {dir p : Path} {d d' : Disk} {s s' : ContractStore} {e : StoreError} {cs : Contracts}
  {height : UInt64} {key : Option String}

/-! ## the document -/

theorem load_eq_ok_iff : load p d = .ok cs ↔
    (d.read p = .error .missing ∧ cs = Contracts.empty) ∨
      ∃ b, d.read p = .ok b ∧ ofDocument? b = some cs := by
  unfold load
  constructor
  · intro h
    split at h
    · next hm =>
      cases h
      exact .inl ⟨hm, rfl⟩
    · cases h
    · next b hb =>
      split at h
      · cases h
      · next hcs =>
        cases h
        exact .inr ⟨b, hb, hcs⟩
  · rintro (⟨hm, rfl⟩ | ⟨b, hb, hcs⟩)
    · rw [hm]
    · rw [hb]
      simp only [hcs]

theorem load_alike (h : d.Alike d') (p : Path) : load p d' = load p d := by
  rw [load, load, h.read]

theorem load_document {here : Place} (h : d.HasFile p here cs.toDocument) : load p d = .ok cs :=
  load_eq_ok_iff.2 (.inr ⟨_, Disk.read_eq_ok_iff.2 ⟨here, h⟩, ofDocument?_toDocument cs⟩)

/-- what was saved is in the document, and the folders are still there -/
theorem save_ok (h : s.save d = (.ok (), d')) :
    d.MoreFolders d' ∧ load s.path d' = .ok s.contents := by
  unfold save at h
  split at h
  · cases h
  · next lock d₁ hlock =>
    obtain ⟨-, honly₁⟩ := Disk.touch_ok hlock
    split at h
    · cases h
    · next file d₂ hcreate =>
      obtain ⟨hplace, honly₂, -⟩ := Disk.create_ok hcreate
      split at h
      · cases h
      · next d₃ hfill =>
        obtain ⟨honly₃, hself⟩ := Disk.fill_ok honly₂.after hfill
        have hnew : d₃.HasFile s.newPath file s.contents.toDocument :=
          (honly₂.trans honly₃).hasFile hplace hself
        split at h
        · cases h
        · next d₄ hsync =>
          have halike := Disk.sync_ok hsync
          split at h
          · cases h
          · next d₅ hrename =>
            cases h
            obtain ⟨hmore₅, z, hz⟩ := Disk.rename_ok hrename (halike.hasFile hnew)
            have hmore := (honly₂.trans honly₃).moreFolders.trans (halike.moreFolders.trans hmore₅)
            exact ⟨honly₁.moreFolders.trans hmore, load_document hz⟩

theorem save_error (h : s.save d = (.error e, d')) : e.OfChange := by
  unfold save at h
  split at h
  · cases h
    exact True.intro
  split at h
  · cases h
    exact True.intro
  split at h
  · cases h
    exact True.intro
  split at h
  · cases h
    exact True.intro
  split at h
  · cases h
    exact True.intro
  · cases h

/-- without bad luck and with no folder in its way the document is written -/
theorem save_lucky (hluck : d.luck = []) {here : Place} {b : Bytes} (hfile : d.HasFile s.path here b)
    (hpath : s.path = dir.join fileName) (hlock : d.look s.lockPath ≠ .ok .folder)
    (hnew : d.look s.newPath ≠ .ok .folder) : ∃ d', s.save d = (.ok (), d') := by
  have hname : Disk.Names fileName := ⟨by decide, by decide⟩
  obtain ⟨l, hl⟩ := Disk.join_concat dir
  have hplace := hfile.1
  rw [hpath, hl] at hplace
  have hbeside : ∀ more, Disk.Names (fileName ++ more) →
      ∃ y, d.locate (s.path.append more) = .ok ((fileName ++ more) :: y) := by
    intro more hmore
    rw [hpath, hl, Disk.append_concat]
    exact Disk.locate_beside hname hmore hplace
  obtain ⟨y, hy⟩ := hbeside ".lock" ⟨by decide, by decide⟩
  obtain ⟨z, hz⟩ := hbeside ".tmp" ⟨by decide, by decide⟩
  obtain ⟨d₁, htouch, hluck₁⟩ :=
    Disk.touch_lucky hluck hy (Disk.not_folder_of_look hy hlock)
  obtain ⟨-, honly₁⟩ := Disk.touch_ok htouch
  obtain ⟨d₂, hcreate, hluck₂⟩ := Disk.create_lucky hluck₁ (Disk.locate_ok honly₁.moreFolders hz)
    (honly₁.not_folder (Disk.not_folder_of_look hz hnew))
  obtain ⟨hl₂, honly₂, -⟩ := Disk.create_ok hcreate
  obtain ⟨d₃, hfill, hluck₃⟩ := Disk.fill_lucky hluck₂ ((fileName ++ ".tmp") :: z) s.contents.toDocument
  obtain ⟨honly₃, hself⟩ := Disk.fill_ok honly₂.after hfill
  have hwritten := honly₂.trans honly₃
  have hdocument : d.node? here ≠ some .folder := by
    rw [hfile.2]
    exact fun e => (nomatch e)
  obtain ⟨d₄, hrename⟩ := Disk.rename_lucky hluck₃ (hwritten.hasFile hl₂ hself)
    (Disk.locate_ok (honly₁.moreFolders.trans hwritten.moreFolders) hfile.1)
    (hwritten.not_folder (honly₁.not_folder hdocument))
  refine ⟨d₄, ?_⟩
  rw [save, lockPath, htouch]
  simp only
  rw [newPath, hcreate]
  simp only
  rw [hfill]
  simp only
  rw [Disk.sync_lucky hluck₃]
  simp only
  rw [hrename]

/-! ## opening -/

/-- an opening that works, and one that does not -/
theorem openIn_ok (h : openIn dir height d = (.ok s, d')) : ∃ d₁ cs,
    Disk.makeFolders dir d = (.ok (), d₁) ∧ load (dir.join fileName) d₁ = .ok cs ∧
      s = ofContracts (dir.join fileName) height cs ∧
      (s.list.length < cs.list.length ∧ s.save d₁ = (.ok (), d') ∨
        cs.list.length ≤ s.list.length ∧ d' = d₁) := by
  unfold openIn at h
  split at h
  · cases h
  · next d₁ hmade =>
    simp only at h
    split at h
    · cases h
    · next cs hload =>
      split at h
      · next hlt =>
        split at h
        · cases h
        · next hsave =>
          cases h
          exact ⟨d₁, cs, hmade, hload, rfl, .inl ⟨hlt, hsave⟩⟩
      · next hlt =>
        cases h
        exact ⟨_, cs, hmade, hload, rfl, .inr ⟨Nat.le_of_not_lt hlt, rfl⟩⟩

theorem openIn_kept {d₁ : Disk} (hmade : Disk.makeFolders dir d = (.ok (), d₁))
    (hload : load (dir.join fileName) d₁ = .ok cs)
    (hall : cs.list.length ≤ (ofContracts (dir.join fileName) height cs).list.length) :
    openIn dir height d = (.ok (ofContracts (dir.join fileName) height cs), d₁) := by
  rw [openIn, hmade]
  simp only
  rw [hload]
  exact if_neg (Nat.not_lt.2 hall)

theorem openIn_error (h : openIn dir height d = (.error e, d')) :
    e.OfChange ∨ load (dir.join fileName) (Disk.makeFolders dir d).2 = .error e := by
  unfold openIn at h
  split at h
  · cases h
    exact .inl True.intro
  · next d₁ hmade =>
    rw [hmade]
    simp only at h
    split at h
    · next hload =>
      cases h
      exact .inr hload
    · split at h
      · split at h
        · next hsave =>
          cases h
          exact .inl (save_error hsave)
        · cases h
      · cases h

/-! ## what holds between changes -/

/-- what is held is what the document lists, however late it is read again -/
structure Synced (dir : Path) (key : Option String) (s : ContractStore) (d : Disk) : Prop where
  path : s.path = dir.join fileName
  folders : ∃ d₁ d₂, Disk.makeFolders dir d₁ = (.ok (), d₂) ∧ d₂.MoreFolders d
  holder : s.contents.renterKey = key
  order : Increasing s.list
  listed : ∃ cs, load s.path d = .ok cs ∧ cs.renterKey = key ∧
    ∀ height, sorted (unexpired height cs.list) = unexpired height s.list

theorem Synced.saved (h : Synced dir key s d) {l : List Contract} (hl : Increasing l)
    (hsave : (s.withList l).save d = (.ok (), d')) : Synced dir key (s.withList l) d' := by
  obtain ⟨d₁, d₂, hmade, hmore⟩ := h.folders
  obtain ⟨hmore', hload⟩ := save_ok hsave
  exact ⟨h.path, ⟨d₁, d₂, hmade, hmore.trans hmore'⟩, h.holder, hl, _, hload, h.holder,
    fun height => sorted_eq_self (increasing_unexpired height hl)⟩

theorem synced_opened (h : openIn dir height d = (.ok s, d')) : ∃ cs,
    load (dir.join fileName) (Disk.makeFolders dir d).2 = .ok cs ∧
      s.list = sorted (unexpired height cs.list) ∧ Synced dir cs.renterKey s d' := by
  obtain ⟨d₁, cs, hmade, hload, rfl, hsave⟩ := openIn_ok h
  have horder : Increasing (sorted (unexpired height cs.list)) := increasing_sorted _
  refine ⟨cs, by rw [hmade]; exact hload, rfl, ?_⟩
  rcases hsave with ⟨-, hsave⟩ | ⟨hle, rfl⟩
  · obtain ⟨hmore, hload'⟩ := save_ok hsave
    exact ⟨rfl, ⟨d, d₁, hmade, hmore⟩, rfl, horder, _, hload', rfl,
      fun later => sorted_eq_self (increasing_unexpired later horder)⟩
  · exact ⟨rfl, ⟨d, d', hmade, .refl d'⟩, rfl, horder, cs, hload, rfl,
      fun later => sorted_unexpired_again hle later⟩

theorem Synced.load_again (h : Synced dir key s d) :
    load (dir.join fileName) (Disk.makeFolders dir d).2 = load s.path d := by
  obtain ⟨d₁, d₂, hmade, hmore⟩ := h.folders
  rw [(Disk.makeFolders_again hmade hmore).1, load_alike (Disk.alike_draw d), h.path]

/-- a new opening finds what is held and has not expired by then -/
theorem Synced.reopened (h : Synced dir key s d) (hopen : openIn dir height d = (.ok s', d')) :
    s'.list = unexpired height s.list ∧ Synced dir key s' d' := by
  obtain ⟨cs, hload, hkey, hlist⟩ := h.listed
  obtain ⟨cs', hload', hlist', hsynced⟩ := synced_opened hopen
  rw [h.load_again, hload] at hload'
  cases hload'
  rw [hkey] at hsynced
  exact ⟨by rw [hlist', hlist], hsynced⟩

theorem Synced.not_reopened (h : Synced dir key s d) (hopen : openIn dir height d = (.error e, d')) :
    e.OfChange := by
  obtain ⟨cs, hload, -⟩ := h.listed
  rcases openIn_error hopen with he | he
  · exact he
  · rw [h.load_again, hload] at he
    cases he

theorem Synced.reopens (h : Synced dir key s d) (hluck : d.luck = [])
    (hlock : d.look s.lockPath ≠ .ok .folder) (hnew : d.look s.newPath ≠ .ok .folder)
    (height : UInt64) : ∃ s' d', openIn dir height d = (.ok s', d') := by
  obtain ⟨d₁, d₂, hmade, hmore⟩ := h.folders
  obtain ⟨cs, hload, -⟩ := h.listed
  rw [h.path] at hload
  rw [openIn, Disk.makeFolders_lucky hluck hmade hmore]
  simp only
  rw [hload]
  simp only
  split
  · next hlt =>
    rcases load_eq_ok_iff.1 hload with ⟨-, rfl⟩ | ⟨b, hb, -⟩
    · exact absurd hlt (Nat.not_lt_zero _)
    · obtain ⟨here, hfile⟩ := Disk.read_eq_ok_iff.1 hb
      rw [lockPath, h.path] at hlock
      rw [newPath, h.path] at hnew
      obtain ⟨d', hsave⟩ :=
        save_lucky (s := ofContracts (dir.join fileName) height cs) hluck hfile rfl hlock hnew
      rw [hsave]
      exact ⟨_, _, rfl⟩
  · exact ⟨_, _, rfl⟩

/-! ## changes -/

theorem remove_ok {k : HostKey} {held : Bool} (h : remove k s d = (.ok held, s', d')) :
    held = (s.contract? k).isSome ∧ (s.contract? k = none ∧ s' = s ∧ d' = d ∨
      s' = s.withList (without s.list k) ∧ s'.save d = (.ok (), d')) := by
  rcases remove_any h with ⟨hnone, hr, rfl, rfl⟩ | ⟨hsome, rfl, hsave, hr⟩
  · cases hr
    exact ⟨by rw [hnone]; rfl, .inl ⟨hnone, rfl, rfl⟩⟩
  · refine ⟨?_, .inr ⟨rfl, hsave⟩⟩
    cases held with
    | false => exact absurd rfl hr
    | true => exact hsome.symm

theorem Synced.insertAll (h : Synced dir key s d) {l : List Contract}
    (hs : insertAll l s d = (.ok (), s', d')) : Synced dir key s' d' := by
  obtain ⟨rfl, hsave⟩ := insertAll_any hs
  exact h.saved (increasing_insertAll l h.order) hsave

theorem Synced.remove (h : Synced dir key s d) {k : HostKey} {held : Bool}
    (hs : remove k s d = (.ok held, s', d')) : Synced dir key s' d' := by
  obtain ⟨-, ⟨-, rfl, rfl⟩ | ⟨rfl, hsave⟩⟩ := remove_ok hs
  · exact h
  · exact h.saved (increasing_without k h.order) hsave

/-- a store in a folder and the disk after it was opened there and any changes, all of which
worked -/
inductive Course (dir : Path) (start : Disk) : ContractStore → Disk → Prop where
  | opened {height : UInt64} {s : ContractStore} {d : Disk}
      (hopen : openIn dir height start = (.ok s, d)) : Course dir start s d
  | reopened {height : UInt64} {s s' : ContractStore} {d d' : Disk} (h : Course dir start s d)
      (hopen : openIn dir height d = (.ok s', d')) : Course dir start s' d'
  | inserted {c : Contract} {s s' : ContractStore} {d d' : Disk} (h : Course dir start s d)
      (hinsert : s.insert c d = (.ok (), s', d')) : Course dir start s' d'
  | extended {cs : List Contract} {s s' : ContractStore} {d d' : Disk} (h : Course dir start s d)
      (hinsert : insertAll cs s d = (.ok (), s', d')) : Course dir start s' d'
  | removed {k : HostKey} {held : Bool} {s s' : ContractStore} {d d' : Disk}
      (h : Course dir start s d) (hremove : remove k s d = (.ok held, s', d')) :
      Course dir start s' d'

theorem Course.synced {start : Disk} {first : Contracts}
    (hfirst : load (dir.join fileName) (Disk.makeFolders dir start).2 = .ok first)
    (h : Course dir start s d) : Synced dir first.renterKey s d := by
  induction h with
  | opened hopen =>
    obtain ⟨cs, hload, -, hsynced⟩ := synced_opened hopen
    rw [hfirst] at hload
    cases hload
    exact hsynced
  | reopened _ hopen ih => exact (ih.reopened hopen).2
  | inserted _ hinsert ih => exact ih.insertAll hinsert
  | extended _ hinsert ih => exact ih.insertAll hinsert
  | removed _ hremove ih => exact ih.remove hremove

/-! ## the store as a map -/

theorem contract?_opened {start : Disk} {first : Contracts}
    (hfirst : load (dir.join fileName) (Disk.makeFolders dir start).2 = .ok first)
    (h : openIn dir height start = (.ok s, d)) (k : HostKey) :
    s.contract? k =
      (first.list.filter fun c => c.host = k ∧ height < c.expirationHeight).getLast? := by
  obtain ⟨cs, hload, hlist, -⟩ := synced_opened h
  rw [hfirst] at hload
  cases hload
  rw [contract?, hlist, with?_sorted, unexpired, List.filter_filter]
  congr 1
  refine List.filter_congr fun c _ => ?_
  rw [← Bool.decide_and]

theorem contract?_insertAll {l : List Contract} (h : insertAll l s d = (.ok (), s', d'))
    (k : HostKey) :
    s'.contract? k = ((l.filter fun c => c.host = k).getLast?).or (s.contract? k) := by
  obtain ⟨rfl, -⟩ := insertAll_any h
  exact with?_insertAll l s.list k

theorem contract?_insert {c : Contract} (h : insert c s d = (.ok (), s', d')) (k : HostKey) :
    s'.contract? k = if k = c.host then some c else s.contract? k := by
  rw [contract?_insertAll h k]
  split
  · next hk =>
    rw [List.filter_cons_of_pos (by simpa using hk.symm)]
    rfl
  · next hk =>
    rw [List.filter_cons_of_neg (by simpa using fun e : c.host = k => hk e.symm)]
    rfl

theorem contract?_remove {k : HostKey} {held : Bool} (h : remove k s d = (.ok held, s', d'))
    (j : HostKey) : s'.contract? j = if j = k then none else s.contract? j := by
  obtain ⟨-, ⟨hnone, rfl, -⟩ | ⟨rfl, -⟩⟩ := remove_ok h
  · split
    · next hj => rw [hj, hnone]
    · rfl
  · exact with?_without s.list k j

/-- Contracts are held in order of their hosts, one for each host, as the changes say: an opening
keeps the last one listed for each host of those that have not expired, contracts that are put in
take the place of earlier ones in turn, a removal takes one away and tells whether there was one.
At any time a new opening finds what is held and has not expired by then, with the key of the first
document; it never fails on the document, and works if no folder stands where a file is written. -/
theorem written_through {start : Disk} {first : Contracts}
    (hfirst : load (dir.join fileName) (Disk.makeFolders dir start).2 = .ok first) :
    (∀ height s d, openIn dir height start = (.ok s, d) → ∀ k, s.contract? k =
      (first.list.filter fun c => c.host = k ∧ height < c.expirationHeight).getLast?) ∧
    ∀ s d, Course dir start s d →
      s.list.Pairwise (fun a b => a.host < b.host) ∧
      (∀ c s' d', insert c s d = (.ok (), s', d') →
        ∀ k, s'.contract? k = if k = c.host then some c else s.contract? k) ∧
      (∀ l s' d', insertAll l s d = (.ok (), s', d') →
        ∀ k, s'.contract? k = ((l.filter fun c => c.host = k).getLast?).or (s.contract? k)) ∧
      (∀ k held s' d', remove k s d = (.ok held, s', d') →
        held = (s.contract? k).isSome ∧
          ∀ j, s'.contract? j = if j = k then none else s.contract? j) ∧
      ∀ height,
        (∀ s' d', openIn dir height d = (.ok s', d') →
          s'.list = s.list.filter (fun c => height < c.expirationHeight) ∧
            s'.contents.renterKey = first.renterKey) ∧
        (∀ e d', openIn dir height d = (.error e, d') → e.OfChange) ∧
        (d.luck = [] → d.look s.lockPath ≠ .ok .folder → d.look s.newPath ≠ .ok .folder →
          ∃ s' d', openIn dir height d = (.ok s', d')) := by
  refine ⟨fun height s d h => contract?_opened hfirst h, fun s d hcourse => ?_⟩
  have hsynced := hcourse.synced hfirst
  refine ⟨hsynced.order, fun c s' d' h => contract?_insert h, fun l s' d' h => contract?_insertAll h,
    fun k held s' d' h => ⟨(remove_ok h).1, contract?_remove h⟩, fun height => ⟨?_, ?_, ?_⟩⟩
  · intro s' d' h
    obtain ⟨hlist, hsynced'⟩ := hsynced.reopened h
    exact ⟨hlist, hsynced'.holder⟩
  · exact fun e d' h => hsynced.not_reopened h
  · exact fun hluck hlock hnew => hsynced.reopens hluck hlock hnew height

/-- contracts of which two are with one host and one has expired by height 10 -/
def crowded : Contracts :=
  ⟨some "holder",
    [⟨Hash256.ofBytes [1], HostKey.ofBytes [7], 100⟩, ⟨Hash256.ofBytes [2], HostKey.ofBytes [5], 50⟩,
      ⟨Hash256.ofBytes [3], HostKey.ofBytes [7], 200⟩, ⟨Hash256.ofBytes [4], HostKey.ofBytes [6], 10⟩]⟩

/-- a disk with their document in a folder -/
def crowdedDisk : Disk :=
  ⟨[(["data"], .folder), (["contracts.json", "data"], .file crowded.toDocument)], [], []⟩

/-- the store in that folder at height 10, and without the host that had two contracts -/
def crowdedStore : ContractStore := ofContracts ⟨["data", "contracts.json"]⟩ 10 crowded

def sparseStore : ContractStore :=
  crowdedStore.withList (without crowdedStore.list (HostKey.ofBytes [7]))

/-- the disk after either was saved -/
def tidiedDisk : Disk := (crowdedStore.save crowdedDisk).2

def sparseDisk : Disk := (sparseStore.save tidiedDisk).2

theorem written_through_crowded :
    openIn ⟨["data"]⟩ 10 crowdedDisk = (.ok crowdedStore, tidiedDisk) ∧
      crowdedStore.contract? (HostKey.ofBytes [7]) =
        some ⟨Hash256.ofBytes [3], HostKey.ofBytes [7], 200⟩ ∧
      remove (HostKey.ofBytes [7]) crowdedStore tidiedDisk = (.ok true, sparseStore, sparseDisk) ∧
      sparseStore.contract? (HostKey.ofBytes [7]) = none ∧
      ∃ s d, openIn ⟨["data"]⟩ 30 sparseDisk = (.ok s, d) ∧ s.contents.renterKey = some "holder" ∧
        s.list = [⟨Hash256.ofBytes [2], HostKey.ofBytes [5], 50⟩] := by
  have hmade : Disk.makeFolders ⟨["data"]⟩ crowdedDisk = (.ok (), crowdedDisk) := rfl
  have hfile : crowdedDisk.HasFile ⟨["data", "contracts.json"]⟩ ["contracts.json", "data"]
      crowded.toDocument := ⟨rfl, rfl⟩
  have hload : load (Path.join ⟨["data"]⟩ fileName) crowdedDisk = .ok crowded := load_document hfile
  have hopen : openIn ⟨["data"]⟩ 10 crowdedDisk = (.ok crowdedStore, tidiedDisk) := by
    rw [openIn, hmade]
    simp only
    rw [hload]
    simp only
    rw [if_pos (by decide +kernel)]
    rfl
  have hremove : remove (HostKey.ofBytes [7]) crowdedStore tidiedDisk =
      (.ok true, sparseStore, sparseDisk) := rfl
  have hfirst : load (Path.join ⟨["data"]⟩ fileName) (Disk.makeFolders ⟨["data"]⟩ crowdedDisk).2 =
      .ok crowded := hload
  obtain ⟨hkept, hmap⟩ := written_through hfirst
  obtain ⟨-, -, -, hremoved, -⟩ := hmap _ _ (.opened hopen)
  obtain ⟨-, -, -, -, hfresh⟩ := hmap _ _ (.removed (.opened hopen) hremove)
  obtain ⟨s, d, hagain⟩ := (hfresh 30).2.2 rfl (by decide +kernel) (by decide +kernel)
  obtain ⟨hlist, hkey⟩ := (hfresh 30).1 s d hagain
  refine ⟨hopen, ?_, hremove, ?_, s, d, hagain, hkey, ?_⟩
  · rw [hkept _ _ _ hopen]
    decide +kernel
  · rw [(hremoved _ _ _ _ hremove).2, if_pos rfl]
  · rw [hlist]
    decide +kernel

end ContractStore

end Reclaim

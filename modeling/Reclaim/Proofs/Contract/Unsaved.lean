import Reclaim.Proofs.Contract.Files
import Reclaim.Proofs.Contract.Store

/-!
# Changes to a contract store that cannot be saved

A change is made in memory first and then saved.  If that fails, memory and document differ until
the next change that is saved: the document goes on listing what was held when it was last written.

* `Call`, `Call.run`    the changes, each telling whether it was saved;
* `run_cases`           a call does nothing at all, or saves what it has made of the store;
* `Calls`               a store and its disk after any calls, and what was held when the document
                        was last written;
* `Written`             what holds of these; `Calls.written` by one lemma for each kind of step;
* `removal_is_written`  after a removal that was answered, the document lists the host only if there
                        was nothing to remove, and the host was held when it was last written;
* `removal_unwritten`   and that can happen.
-/

namespace Reclaim.ContractStore

open Contracts

variable {dir : Path} {start d d' : Disk} {s s' : ContractStore} {k : HostKey} {key : Option String}
  {held last : List Contract} {e : StoreError} {height : UInt64}

/-! ## calls -/

/-- a change that a store is asked for -/
inductive Call where
  | insert (c : Contract)
  | extend (cs : List Contract)
  | remove (k : HostKey)

/-- what a call comes to; a call that works tells whether the store was saved -/
def Call.run : Call → ContractStore → Disk → Except StoreError Bool × ContractStore × Disk
  | .insert c, s, d =>
    let r := s.insert c d
    (r.1.map fun _ => true, r.2)
  | .extend cs, s, d =>
    let r := s.insertAll cs d
    (r.1.map fun _ => true, r.2)
  | .remove k, s, d => s.remove k d

theorem run_cases {c : Call} {r : Except StoreError Bool} (h : c.run s d = (r, s', d')) :
    r = .ok false ∧ s' = s ∧ d' = d
      ∨ ∃ r', s'.save d = (r', d') ∧ r = r'.map (fun _ => true) ∧ s' = s.withList s'.list
          ∧ (Increasing s.list → Increasing s'.list) := by
  have hinsert : ∀ l : List Contract, ((s.insertAll l d).1.map fun _ => true, (s.insertAll l d).2)
      = (r, s', d') → ∃ r', s'.save d = (r', d') ∧ r = r'.map (fun _ => true)
        ∧ s' = s.withList s'.list ∧ (Increasing s.list → Increasing s'.list) := by
    intro l h
    obtain ⟨hr, h⟩ := Prod.mk.inj h
    obtain ⟨rfl, hsave⟩ := insertAll_any (show s.insertAll l d = (_, s', d') from Prod.ext rfl h)
    exact ⟨_, hsave, hr.symm, rfl, increasing_insertAll l⟩
  cases c with
  | insert c => exact .inr (hinsert [c] h)
  | extend cs => exact .inr (hinsert cs h)
  | remove k =>
    rcases remove_any h with ⟨-, rfl, rfl, rfl⟩ | ⟨-, rfl, hsave, hr⟩
    · exact .inl ⟨rfl, rfl, rfl⟩
    · refine .inr ⟨_, hsave, ?_, rfl, increasing_without k⟩
      cases r with
      | error e => rfl
      | ok b =>
        cases b with
        | false => exact absurd rfl hr
        | true => rfl

/-- a store and its disk after it was opened and any calls, working or not, and what was held when
the document was last written, or else when the store was opened -/
inductive Calls (dir : Path) : ContractStore → Disk → List Contract → Prop
  | opened {height : UInt64} {start d : Disk} {s : ContractStore}
      (hopen : openIn dir height start = (.ok s, d)) : Calls dir s d s.list
  | saved {s s' : ContractStore} {d d' : Disk} {written : List Contract} (h : Calls dir s d written)
      (c : Call) (hrun : c.run s d = (.ok true, s', d')) : Calls dir s' d' s'.list
  | unsaved {s s' : ContractStore} {d d' : Disk} {written : List Contract}
      (h : Calls dir s d written) (c : Call) {r : Except StoreError Bool}
      (hrun : c.run s d = (r, s', d')) (hr : r ≠ .ok true) : Calls dir s' d' written

/-! ## what was written -/

/-- the hosts of some contracts -/
def Lists (cs : List Contract) (k : HostKey) : Prop := ∃ c ∈ cs, c.host = k

/-- the document lists the hosts of what was written, and read again it gives just that -/
structure Written (dir : Path) (s : ContractStore) (d : Disk) (last : List Contract) : Prop where
  order : Increasing s.list
  synced : ∃ key, Synced dir key (s.withList last) d
  lists : ∃ cs, load (dir.join fileName) d = .ok cs ∧ ∀ k, Lists cs.list k ↔ Lists last k

theorem Written.path (h : Written dir s d last) : s.path = dir.join fileName := by
  obtain ⟨key, hsynced⟩ := h.synced
  exact hsynced.path

theorem Synced.beside (h : Synced dir key s d) (hd : d.FilesAt (s.Beside d) d') :
    Synced dir key s d' := by
  obtain ⟨d₁, d₂, hmade, hmore⟩ := h.folders
  have hload : load s.path d' = load s.path d := by
    rw [load, load, read_of_beside h.path hd]
  exact ⟨h.path, ⟨d₁, d₂, hmade, hmore.trans hd.moreFolders⟩, h.holder, h.order, by
    rw [hload]
    exact h.listed⟩

theorem written_opened (h : openIn dir height start = (.ok s, d)) : Written dir s d s.list := by
  obtain ⟨cs, -, -, hsynced⟩ := synced_opened h
  refine ⟨hsynced.order, ⟨cs.renterKey, hsynced⟩, ?_⟩
  obtain ⟨d₁, cs, -, hload, rfl, ⟨-, hsave⟩ | ⟨hle, rfl⟩⟩ := openIn_ok h
  · exact ⟨_, (save_ok hsave).2, fun _ => Iff.rfl⟩
  · obtain ⟨hall, hnodup⟩ := kept_all hle
    have hperm : (ofContracts (dir.join fileName) height cs).list.Perm cs.list := by
      show (sorted (unexpired height cs.list)).Perm cs.list
      rw [hall]
      exact sorted_perm hnodup
    refine ⟨cs, hload, fun k => ?_⟩
    simp only [Lists, hperm.mem_iff]

theorem Written.saved (h : Written dir s d last) {c : Call}
    (hrun : c.run s d = (.ok true, s', d')) : Written dir s' d' s'.list := by
  obtain ⟨key, hsynced⟩ := h.synced
  rcases run_cases hrun with ⟨hr, -, -⟩ | ⟨r', hsave, hr, hs, horder⟩
  · cases hr
  · cases r' with
    | error e => cases hr
    | ok _ =>
      have horder := horder h.order
      have hpath : s'.path = dir.join fileName := by
        rw [hs]
        exact h.path
      have hload := (save_ok hsave).2
      rw [hpath] at hload
      rw [hs] at hsave
      have hsaved : Synced dir key (s.withList s'.list) d' :=
        Synced.saved (s := s.withList last) hsynced horder hsave
      refine ⟨horder, ⟨key, ?_⟩, _, hload, fun _ => Iff.rfl⟩
      rw [hs]
      exact hsaved

theorem Written.unsaved (h : Written dir s d last) {c : Call} {r : Except StoreError Bool}
    (hrun : c.run s d = (r, s', d')) (hr : r ≠ .ok true) :
    Written dir s' d' last ∧ d'.read (dir.join fileName) = d.read (dir.join fileName) := by
  rcases run_cases hrun with ⟨-, rfl, rfl⟩ | ⟨r', hsave, hr', hs, horder⟩
  · exact ⟨h, rfl⟩
  · cases r' with
    | ok _ => exact absurd hr' hr
    | error e =>
      have hbeside : d.FilesAt (s.Beside d) d' := by
        have hfails := save_fails hsave
        rw [hs] at hfails
        exact hfails
      have hread := read_of_beside h.path hbeside
      rw [h.path] at hread
      obtain ⟨key, hsynced⟩ := h.synced
      obtain ⟨cs, hload, hlists⟩ := h.lists
      refine ⟨⟨horder h.order, ⟨key, ?_⟩, cs, ?_, hlists⟩, hread⟩
      · rw [hs]
        exact hsynced.beside (s := s.withList last) hbeside
      · rw [load, hread]
        exact hload

theorem Calls.written (h : Calls dir s d last) : Written dir s d last := by
  induction h with
  | opened hopen => exact written_opened hopen
  | saved _ c hrun ih => exact ih.saved hrun
  | unsaved _ c hrun hr ih => exact (ih.unsaved hrun hr).1

theorem with?_eq_none_of_not_lists (h : ¬Lists held k) : with? held k = none := by
  rw [with?, List.find?_eq_none]
  intro c hc he
  exact h ⟨c, hc, by simpa using he⟩

/-! ## removals -/

/-- After any calls, working or not: a call that fails leaves the document as it is.  When a removal
is answered, the document lists the host only if there was nothing to remove, and yet the host was
held when the document was last written: a removal since then has failed.  Then, and only then, may
a later opening bring the contract back. -/
theorem removal_is_written (h : Calls dir s d last) :
    (∀ c e s' d', Call.run c s d = (.error e, s', d') →
        d'.read (dir.join fileName) = d.read (dir.join fileName))
      ∧ ∀ k removed s' d', s.remove k d = (.ok removed, s', d') →
        (∃ cs, load (dir.join fileName) d' = .ok cs
            ∧ (Lists cs.list k ↔ removed = false ∧ Lists last k))
          ∧ ∀ height s'' d'', openIn dir height d' = (.ok s'', d'') →
              s''.contract? k = if removed then none else with? (unexpired height last) k := by
  have hw := h.written
  refine ⟨fun c e s' d' hrun => (hw.unsaved hrun fun he => by cases he).2, ?_⟩
  intro k removed s' d' hremove
  have hrun : (Call.remove k).run s d = (.ok removed, s', d') := hremove
  cases removed with
  | false =>
    obtain ⟨cs, hload, hlists⟩ := (hw.unsaved hrun fun he => by cases he).1.lists
    obtain ⟨key, hsynced⟩ := (hw.unsaved hrun fun he => by cases he).1.synced
    refine ⟨⟨cs, hload, ?_⟩, fun height s'' d'' hopen => ?_⟩
    · rw [hlists k]
      exact ⟨fun hk => ⟨rfl, hk⟩, And.right⟩
    · rw [contract?, (hsynced.reopened hopen).1]
      rfl
  | true =>
    have hgone : ¬Lists s'.list k := by
      rcases remove_any hremove with ⟨-, he, -, -⟩ | ⟨-, rfl, -, -⟩
      · cases he
      · rintro ⟨c, hc, hk⟩
        exact absurd hk (by simpa using (List.mem_filter.1 hc).2)
    obtain ⟨cs, hload, hlists⟩ := (hw.saved hrun).lists
    obtain ⟨key, hsynced⟩ := (hw.saved hrun).synced
    refine ⟨⟨cs, hload, ?_⟩, fun height s'' d'' hopen => ?_⟩
    · rw [hlists k]
      exact ⟨fun hk => absurd hk hgone, fun hk => by cases hk.1⟩
    · rw [contract?, (hsynced.reopened hopen).1]
      refine with?_eq_none_of_not_lists fun hk => hgone ?_
      obtain ⟨c, hc, hk⟩ := hk
      exact ⟨c, (List.mem_filter.1 hc).1, hk⟩

/-! ## a lock that cannot be had -/

/-- contracts with two hosts -/
def pair : Contracts :=
  ⟨none, [⟨Hash256.ofBytes [1], HostKey.ofBytes [5], 50⟩, ⟨Hash256.ofBytes [2], HostKey.ofBytes [7], 60⟩]⟩

/-- a disk with their document in a folder, of whose changes the second fails -/
def faultyDisk : Disk :=
  ⟨[(["data"], .folder), (["contracts.json", "data"], .file pair.toDocument)], [], [none, some 0]⟩

def pairDocument : Path := ⟨["data", "contracts.json"]⟩

/-- the store in that folder, without one host, and without either -/
def pairStore : ContractStore := ofContracts pairDocument 10 pair

def loneStore : ContractStore := pairStore.withList (without pairStore.list (HostKey.ofBytes [7]))

def bareStore : ContractStore := loneStore.withList (without loneStore.list (HostKey.ofBytes [5]))

/-- the disk when the store was opened, when saving has failed, and when it has worked -/
def openedDisk : Disk := faultyDisk.draw.2

def failedDisk : Disk := openedDisk.draw.2

def bareDisk : Disk := (bareStore.save failedDisk).2

theorem open_pairStore {disk opened : Disk} (hmade : Disk.makeFolders ⟨["data"]⟩ disk = (.ok (), opened))
    (hfile : opened.HasFile pairDocument ["contracts.json", "data"] pair.toDocument) :
    openIn ⟨["data"]⟩ 10 disk = (.ok pairStore, opened) :=
  openIn_kept hmade (load_document hfile) (by decide +kernel)

theorem removal_is_written_after_all :
    Calls ⟨["data"]⟩ bareStore bareDisk bareStore.list ∧
      (bareStore.remove (HostKey.ofBytes [7]) bareDisk).1 = .ok false ∧
      ∃ cs, load pairDocument bareDisk = .ok cs ∧ ¬Lists cs.list (HostKey.ofBytes [7]) := by
  have hopen : openIn ⟨["data"]⟩ 10 faultyDisk = (.ok pairStore, openedDisk) :=
    open_pairStore rfl ⟨rfl, rfl⟩
  have hfailed : pairStore.remove (HostKey.ofBytes [7]) openedDisk
      = (.error (.lock pairStore.lockPath), loneStore, failedDisk) := rfl
  have hcalls : Calls ⟨["data"]⟩ bareStore bareDisk bareStore.list :=
    ((Calls.opened hopen).unsaved (.remove (HostKey.ofBytes [7])) hfailed
      fun h => by cases h).saved (.remove (HostKey.ofBytes [5])) rfl
  have hremove : bareStore.remove (HostKey.ofBytes [7]) bareDisk = (.ok false, bareStore, bareDisk) :=
    rfl
  obtain ⟨⟨cs, hload, hlists⟩, -⟩ := (removal_is_written hcalls).2 _ _ _ _ hremove
  refine ⟨hcalls, by rw [hremove], cs, hload, fun h => ?_⟩
  obtain ⟨-, c, hc, -⟩ := hlists.1 h
  have hbare : bareStore.list = [] := by decide +kernel
  rw [hbare] at hc
  exact absurd hc List.not_mem_nil

/-- The removal of a host fails.  When it is tried again, the answer is that there is none to
remove, while the document goes on listing the host, and the next opening brings it back. -/
theorem removal_unwritten :
    openIn ⟨["data"]⟩ 10 faultyDisk = (.ok pairStore, openedDisk) ∧
      pairStore.remove (HostKey.ofBytes [7]) openedDisk
        = (.error (.lock pairStore.lockPath), loneStore, failedDisk) ∧
      loneStore.remove (HostKey.ofBytes [7]) failedDisk = (.ok false, loneStore, failedDisk) ∧
      load pairDocument failedDisk = .ok pair ∧ Lists pair.list (HostKey.ofBytes [7]) ∧
      openIn ⟨["data"]⟩ 10 failedDisk = (.ok pairStore, failedDisk) ∧
      (pairStore.contract? (HostKey.ofBytes [7])).isSome = true := by
  refine ⟨open_pairStore rfl ⟨rfl, rfl⟩, rfl, rfl, load_document ⟨rfl, rfl⟩, ?_,
    open_pairStore rfl ⟨rfl, rfl⟩, by decide +kernel⟩
  exact ⟨⟨Hash256.ofBytes [2], HostKey.ofBytes [7], 60⟩, by decide, rfl⟩

end Reclaim.ContractStore

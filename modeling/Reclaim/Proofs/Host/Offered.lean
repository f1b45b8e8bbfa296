import Reclaim.Proofs.Contract.Unsaved
import Reclaim.Proofs.Health.Survey
import Reclaim.Proofs.Host.Folder
import Reclaim.Proofs.Recovery.Recover

/-!
# Which hosts are offered, run after run

In each run the contracts that are held are opened, and with them the hosts of a folder; these are
asked, and contracts are given up.  From one run to the next the folder may change, and heights may
go up and down.

* `offered_iff`     the hosts that an opening offers: those under contract, or if there are none all
                    that have folders;
* `Clear`           a disk on which changes work;
* `Steady`          what holds of hosts from the opening on: the document lists those offered;
* `Later`           the hosts in a run, and those at any time later in this run or in another one;
* `offered_later`   later on nobody is offered who was not, if no opening finds the store empty;
* `offered_again`   but where one does, a host that was dropped is offered again.
-/

namespace Reclaim

namespace Folder

open ContractStore

section
variable {dir root : Path} {height : UInt64} {d d' d₁ d₂ : Disk} {s s' : ContractStore}
  {h h' h'' : Hosts} {k : HostKey} {cs : Contracts}

/-! ## an opening -/

theorem held_opened (hload : load (dir.join fileName) (Disk.makeFolders dir d).2 = .ok cs)
    (hopen : openIn dir height d = (.ok s, d₁)) :
    k ∈ s.hosts ↔ ∃ c ∈ cs.list, c.host = k ∧ height < c.expirationHeight := by
  rw [ContractStore.mem_hosts_iff, contract?_opened hload hopen k, List.getLast?_isSome, ne_eq,
    List.filter_eq_nil_iff]
  simp only [decide_eq_true_eq, not_forall, not_not, exists_prop]

theorem offered_iff (hload : load (dir.join fileName) (Disk.makeFolders dir d).2 = .ok cs)
    (hopen : openIn dir height d = (.ok s, d₁)) (hhosts : openHosts root s d₁ = (.ok h, d₂)) :
    k ∈ h.store.hosts ↔ (∃ c ∈ cs.list, c.host = k ∧ height < c.expirationHeight)
      ∨ (∀ c ∈ cs.list, c.expirationHeight ≤ height) ∧ ∃ ks, scan root d₁ = .ok ks ∧ k ∈ ks := by
  have hempty : s.list = [] ↔ ∀ c ∈ cs.list, c.expirationHeight ≤ height := by
    have hnone : s.list = [] ↔ ∀ k, k ∉ s.hosts := by
      rw [← List.map_eq_nil_iff (f := Contract.host), List.eq_nil_iff_forall_not_mem]
      rfl
    rw [hnone]
    simp only [held_opened hload hopen, not_exists, not_and, UInt64.not_lt]
    exact ⟨fun hn c hc => hn c.host c hc rfl, fun ha k c hc _ => ha c hc⟩
  rcases openHosts_cases hhosts with ⟨hheld, rfl, -⟩ | ⟨hnone, ks, s', hscan, hinsert, rfl⟩
  · rw [held_opened hload hopen]
    exact ⟨.inl, fun hor => hor.resolve_right fun hall => hheld (hempty.2 hall.1)⟩
  · have hgiven : k ∈ s'.hosts ↔ k ∈ ks := by
      obtain ⟨rfl, -⟩ := insertAll_any hinsert
      rw [ContractStore.mem_hosts_iff, contract?]
      show (Contracts.with? ((ks.map seed).foldl _ s.list) k).isSome = true ↔ _
      rw [Contracts.with?_insertAll, hnone]
      simp [Contracts.with?, seed]
    have hall := hempty.1 hnone
    rw [hgiven]
    constructor
    · exact fun hk => .inr ⟨hall, ks, hscan, hk⟩
    · rintro (⟨c, hc, -, hheight⟩ | ⟨-, ks', hscan', hk⟩)
      · exact absurd hheight (UInt64.not_lt.2 (hall c hc))
      · rw [hscan] at hscan'
        exact Except.ok.inj hscan' ▸ hk

/-! ## from run to run -/

/-- changes work: there is no bad luck, and no folder is where a store keeps its files beside the
document -/
structure Clear (dir : Path) (d : Disk) : Prop where
  luck : d.luck = []
  lock : d.look ((dir.join fileName).append ".lock") ≠ .ok .folder
  new : d.look ((dir.join fileName).append ".tmp") ≠ .ok .folder

/-- the hosts at some time in a run, and those at the same time or later, in the same run or in
another one; no later opening finds the store empty -/
inductive Later (dir root : Path) (h : Hosts) : Hosts → Prop
  | refl : Later dir root h h
  /-- a recovery, a check, or any part of them -/
  | asked {h' h'' : Hosts} (hl : Later dir root h h')
      (hr : network.Reach (fun _ => True) h' h'') : Later dir root h h''
  /-- a new run, at whatever height; what became of the disk in between has put no contracts into
  the document -/
  | opened {h' h'' : Hosts} {height : UInt64} {d d₁ d₂ : Disk} {s : ContractStore} {cs : Contracts}
      (hl : Later dir root h h')
      (hfound : load (dir.join fileName) (Disk.makeFolders dir d).2 = .ok cs)
      (hnone : ∀ k, Lists cs.list k →
        ∃ cs', load (dir.join fileName) h'.disk = .ok cs' ∧ Lists cs'.list k)
      (hopen : openIn dir height d = (.ok s, d₁)) (hclear : Clear dir d₁) (hheld : s.list ≠ [])
      (hhosts : openHosts root s d₁ = (.ok h'', d₂)) : Later dir root h h''

/-- what holds of hosts from their opening on: the document lists those under contract, and changes
go on working -/
structure Steady (dir : Path) (h : Hosts) : Prop where
  written : Written dir h.store h.disk h.store.list
  clear : Clear dir h.disk

theorem Clear.saved (hc : Clear dir d) (hsave : s.save d = (.ok (), d')) : Clear dir d' := by
  have hfiles := save_any hsave
  refine ⟨?_, ?_, ?_⟩
  · have hluck := luck_save s d
    rwa [hsave, hc.luck, List.suffix_nil] at hluck
  · rw [Ne, hfiles.look_folder_iff]
    exact hc.lock
  · rw [Ne, hfiles.look_folder_iff]
    exact hc.new

theorem lists_hosts_iff : Lists s.list k ↔ k ∈ s.hosts := List.mem_map.symm

theorem steady_opened (hopen : openIn dir height d = (.ok s, d₁)) (hclear : Clear dir d₁)
    (hhosts : openHosts root s d₁ = (.ok h, d₂)) : Steady dir h := by
  have hw := written_opened hopen
  rcases openHosts_cases hhosts with ⟨-, rfl, -⟩ | ⟨-, ks, s', -, hinsert, rfl⟩
  · exact ⟨hw, hclear⟩
  · have hrun : (Call.extend (ks.map seed)).run s d₁ = (.ok true, s', d₂) := by
      rw [Call.run, hinsert]
      rfl
    obtain ⟨rfl, hsave⟩ := insertAll_any hinsert
    have hafter := hclear.saved hsave
    exact ⟨hw.saved hrun, hafter⟩

theorem Steady.removed (hs : Steady dir h) (k : HostKey) : Steady dir (removeContract k h).2 := by
  obtain ⟨r, s', d', hremove⟩ : ∃ r s' d', h.store.remove k h.disk = (r, s', d') :=
    ⟨_, _, _, rfl⟩
  rw [removeContract, hremove]
  rcases remove_any hremove with ⟨-, -, rfl, rfl⟩ | ⟨hheld, rfl, hsave, hr⟩
  · exact hs
  · have hpath := hs.written.path
    obtain ⟨here, b, hfile⟩ : ∃ here b, h.disk.HasFile h.store.path here b := by
      obtain ⟨cs, hload, hlists⟩ := hs.written.lists
      obtain ⟨c, hc, -⟩ := (hlists k).2 (lists_hosts_iff.2 (ContractStore.mem_hosts_iff.2 hheld))
      rcases load_eq_ok_iff.1 hload with ⟨-, rfl⟩ | ⟨b, hb, -⟩
      · exact absurd hc List.not_mem_nil
      · obtain ⟨here, hfile⟩ := Disk.read_eq_ok_iff.1 hb
        exact ⟨here, b, hpath ▸ hfile⟩
    obtain ⟨d'', hsaved⟩ := save_lucky (s := h.store.withList (Contracts.without h.store.list k))
      hs.clear.luck hfile hpath
      (by
        rw [lockPath]
        exact hpath ▸ hs.clear.lock)
      (by
        rw [newPath]
        exact hpath ▸ hs.clear.new)
    rw [hsaved] at hsave
    obtain ⟨hr', rfl⟩ := Prod.mk.inj hsave
    obtain rfl : r = .ok true := by
      cases r with
      | error e => cases hr'
      | ok b =>
        cases b with
        | false => exact absurd rfl hr
        | true => rfl
    have hafter := hs.clear.saved hsaved
    exact ⟨hs.written.saved (c := .remove k) hremove, hafter⟩

theorem Steady.reach (hs : Steady dir h) (hr : network.Reach (fun _ => True) h h') :
    Steady dir h' ∧ ∀ k ∈ h'.store.hosts, k ∈ h.store.hosts := by
  induction hr with
  | refl => exact ⟨hs, fun _ hk => hk⟩
  | dial s host _ ih => exact ih
  | settings s host _ ih => exact ih
  | read s host parts cost _ ih => exact ih
  | remove s host _ _ ih =>
    refine ⟨ih.1.removed host, fun k hk => ih.2 k ?_⟩
    have hk : k ∈ (removeContract host s).2.store.hosts := hk
    rw [hosts_removed] at hk
    exact (List.mem_filter.1 hk).1

theorem Later.steady (hl : Later dir root h h') (hs : Steady dir h) :
    Steady dir h' ∧ ∀ k ∈ h'.store.hosts, k ∈ h.store.hosts := by
  induction hl with
  | refl => exact ⟨hs, fun _ hk => hk⟩
  | asked _ hr ih =>
    obtain ⟨hs', hfewer⟩ := ih.1.reach hr
    exact ⟨hs', fun k hk => ih.2 k (hfewer k hk)⟩
  | opened _ hfound hnone hopen hclear hheld hhosts ih =>
    refine ⟨steady_opened hopen hclear hhosts, fun k hk => ih.2 k ?_⟩
    rcases openHosts_cases hhosts with ⟨-, rfl, -⟩ | ⟨hempty, -⟩
    · obtain ⟨c, hc, hhost, -⟩ := (held_opened hfound hopen).1 hk
      obtain ⟨cs', hload, hlisted⟩ := hnone k ⟨c, hc, hhost⟩
      obtain ⟨cs'', hload', hlists⟩ := ih.1.written.lists
      rw [hload] at hload'
      cases hload'
      exact lists_hosts_iff.1 ((hlists k).1 hlisted)
    · exact absurd hempty hheld

/-- An opening offers the hosts that are listed and have not expired; only where there are none it
offers all that have folders.  From then on the document lists just the hosts that are offered.  At
any later time, in the same run or in others, after any recoveries and checks, at any heights and
whatever became of the folder of hosts, nobody is offered who was not offered before, as long as no
opening finds the store empty. -/
theorem offered_later (hopen : openIn dir height d = (.ok s, d₁)) (hclear : Clear dir d₁)
    (hhosts : openHosts root s d₁ = (.ok h, d₂)) :
    (∃ cs, load (dir.join fileName) (Disk.makeFolders dir d).2 = .ok cs ∧ ∀ k, k ∈ h.store.hosts ↔
        (∃ c ∈ cs.list, c.host = k ∧ height < c.expirationHeight)
          ∨ (∀ c ∈ cs.list, c.expirationHeight ≤ height) ∧ ∃ ks, scan root d₁ = .ok ks ∧ k ∈ ks)
      ∧ ∀ h', Later dir root h h' →
        (∃ cs, load (dir.join fileName) h'.disk = .ok cs ∧ ∀ k, Lists cs.list k ↔ k ∈ h'.store.hosts)
          ∧ (∀ c orders f sink progress, Later dir root h'
              (Recovery.recover network c orders f sink (Run.fresh h' progress)).run.wire.net)
          ∧ (∀ c schedule f (w : Wire Hosts), w.net = h' →
              Later dir root h' (Health.check network c schedule f w).2.net)
          ∧ ∀ h'', Later dir root h' h'' → ∀ k, k ∉ h'.store.hosts → k ∉ h''.store.hosts := by
  refine ⟨?_, fun h' hl => ?_⟩
  · obtain ⟨cs, hload, -⟩ := synced_opened hopen
    exact ⟨cs, hload, fun k => offered_iff hload hopen hhosts⟩
  · obtain ⟨hs, -⟩ := hl.steady (steady_opened hopen hclear hhosts)
    obtain ⟨cs, hload, hlists⟩ := hs.written.lists
    refine ⟨⟨cs, hload, fun k => (hlists k).trans lists_hosts_iff⟩, ?_, ?_, ?_⟩
    · intro c orders f sink progress
      exact .asked .refl (Recovery.recover_reach network c orders f sink h' progress)
    · rintro c schedule f w rfl
      exact .asked .refl (Health.check_reach network c schedule f w)
    · exact fun h'' hl' k hk hk' => hk ((hl'.steady hs).2 k hk')

end

/-! ## the last contract -/

/-- a disk with the document of two contracts, and with the folder of one of their hosts -/
def pairDisk : Disk where
  entries :=
    [(["data"], .folder), (["contracts.json", "data"], .file pair.toDocument),
      (["hosts"], .folder), ([(HostKey.ofBytes [7]).hex, "hosts"], .folder)]
  base := []
  luck := []

/-- the hosts there; without the one that has a folder; and without either -/
def pairHosts : Hosts := ⟨⟨["hosts"]⟩, pairStore, pairDisk⟩

def loneHosts : Hosts := (removeContract (HostKey.ofBytes [7]) pairHosts).2

def bareHosts : Hosts := (removeContract (HostKey.ofBytes [5]) loneHosts).2

/-- the hosts of the next opening, when no contract is left -/
def renewedHosts : Hosts where
  root := ⟨["hosts"]⟩
  store := bareStore.withList [seed (HostKey.ofBytes [7])]
  disk := ((bareStore.withList [seed (HostKey.ofBytes [7])]).save bareHosts.disk).2

theorem offered_later_lone :
    openIn ⟨["data"]⟩ 10 pairDisk = (.ok pairStore, pairDisk) ∧
      openHosts ⟨["hosts"]⟩ pairStore pairDisk = (.ok pairHosts, pairDisk) ∧
      HostKey.ofBytes [7] ∈ pairHosts.store.hosts ∧
      openIn ⟨["data"]⟩ 10 loneHosts.disk = (.ok loneStore, loneHosts.disk) ∧
      openHosts ⟨["hosts"]⟩ loneStore loneHosts.disk = (.ok loneHosts, loneHosts.disk) ∧
      loneHosts.store.hosts = [HostKey.ofBytes [5]] ∧
      ∀ h, Later ⟨["data"]⟩ ⟨["hosts"]⟩ loneHosts h → HostKey.ofBytes [7] ∉ h.store.hosts := by
  have hopen : openIn ⟨["data"]⟩ 10 pairDisk = (.ok pairStore, pairDisk) :=
    open_pairStore rfl ⟨rfl, rfl⟩
  have hload : load (Path.join ⟨["data"]⟩ fileName) loneHosts.disk = .ok loneStore.contents :=
    load_document ⟨rfl, rfl⟩
  have hreopen : openIn ⟨["data"]⟩ 10 loneHosts.disk = (.ok loneStore, loneHosts.disk) :=
    openIn_kept rfl hload (by decide +kernel)
  have hclear : Clear ⟨["data"]⟩ pairDisk := ⟨rfl, by decide, by decide⟩
  have hgiven : Later ⟨["data"]⟩ ⟨["hosts"]⟩ pairHosts loneHosts :=
    .asked .refl (.remove _ _ trivial .refl)
  have hnone : HostKey.ofBytes [7] ∉ loneHosts.store.hosts := by decide +kernel
  obtain ⟨-, -, -, hlater⟩ := (offered_later hopen hclear rfl).2 _ hgiven
  exact ⟨hopen, rfl, by decide +kernel, hreopen, rfl, by decide +kernel,
    fun h hl => hlater h hl _ hnone⟩

/-- Both hosts are given up.  The document is there and lists neither, but the next run takes the
empty store for one that was never there, and offers the host that still has a folder. -/
theorem offered_again :
    openIn ⟨["data"]⟩ 10 pairDisk = (.ok pairStore, pairDisk) ∧
      openHosts ⟨["hosts"]⟩ pairStore pairDisk = (.ok pairHosts, pairDisk) ∧
      removeContract (HostKey.ofBytes [7]) pairHosts = (true, loneHosts) ∧
      removeContract (HostKey.ofBytes [5]) loneHosts = (true, bareHosts) ∧
      bareHosts.disk.holds pairDocument = true ∧
      load pairDocument bareHosts.disk = .ok ⟨none, []⟩ ∧
      HostKey.ofBytes [7] ∉ bareHosts.store.hosts ∧
      openIn ⟨["data"]⟩ 10 bareHosts.disk = (.ok bareStore, bareHosts.disk) ∧
      openHosts ⟨["hosts"]⟩ bareStore bareHosts.disk = (.ok renewedHosts, renewedHosts.disk) ∧
      HostKey.ofBytes [7] ∈ renewedHosts.store.hosts := by
  have hload : load (Path.join ⟨["data"]⟩ fileName) bareHosts.disk = .ok bareStore.contents :=
    load_document ⟨rfl, rfl⟩
  have hreopen : openIn ⟨["data"]⟩ 10 bareHosts.disk = (.ok bareStore, bareHosts.disk) :=
    openIn_kept rfl hload (by decide +kernel)
  have hbare : bareStore.contents = ⟨none, []⟩ := by decide +kernel
  have hscan : scan ⟨["hosts"]⟩ bareHosts.disk = .ok [HostKey.ofBytes [7]] := by decide +kernel
  refine ⟨open_pairStore rfl ⟨rfl, rfl⟩, rfl, rfl, rfl, rfl, hbare ▸ hload, by decide +kernel,
    hreopen, ?_, List.mem_cons_self⟩
  have hempty : bareStore.list.isEmpty = true := by decide +kernel
  rw [openHosts, if_pos hempty, hscan]
  rfl

end Folder

end Reclaim

import Reclaim.Host.Folder
import Reclaim.Proofs.Contract.Files
import Reclaim.Proofs.Contract.Sorted
import Reclaim.Proofs.Host.Static

/-!
# Hosts in a folder always answer the same

* `names_hex`, `names_text`, `names_denial`   what the folders of hosts and the files in them are
                    called, none of them as a file of the store;
* `openHosts_cases`, `openHosts_any`   what an opening does, and what it changes;
* `Folder.Kept`     hosts of whose disk only the files of the store have changed; so it is whatever is
                    asked and whichever contracts are given up (`kept_of_reach`);
* `Kept.read`       what a host answers to a read stays the same;
* `Folder.tells`    what a host in a folder says of a sector;
* `Folder.static`   it says so whenever it is asked.
-/

namespace Reclaim

/-! ## names -/

theorem names_of_length {s : String} (h : s.length = 64) :
    Disk.Names s ∧ s ∉ ContractStore.ownNames := by
  refine ⟨Disk.names_of_lt_length (by rw [h]; decide), fun hs => ?_⟩
  simp only [ContractStore.ownNames, List.mem_cons, List.not_mem_nil, or_false] at hs
  rcases hs with rfl | rfl | rfl
  · exact absurd h (by decide)
  · exact absurd h (by decide)
  · exact absurd h (by decide)

theorem length_text {b : Bytes} (h : b.length = 32) : (Hex.text b).length = 64 := by
  rw [Hex.text, String.length_ofList, List.length_map, Hex.length_digits, h]

theorem names_hex (k : HostKey) : Disk.Names k.hex ∧ k.hex ∉ ContractStore.ownNames :=
  names_of_length (length_text k.length_eq)

theorem names_text (root : Hash256) : Disk.Names root.text ∧ root.text ∉ ContractStore.ownNames :=
  names_of_length (length_text root.length_eq)

namespace Folder

theorem names_denial : Disk.Names denial ∧ denial ∉ ContractStore.ownNames :=
  ⟨⟨by decide, by decide⟩, by decide⟩

/-! ## an opening -/

section
variable {root : Path} {s : ContractStore} {d d' : Disk} {h : Hosts}

/-- the hosts of a store that holds contracts; or every host that is found gets one -/
theorem openHosts_cases (hopen : openHosts root s d = (.ok h, d')) :
    s.list ≠ [] ∧ h = ⟨root, s, d⟩ ∧ d' = d
      ∨ s.list = [] ∧ ∃ ks s', scan root d = .ok ks
        ∧ s.insertAll (ks.map seed) d = (.ok (), s', d') ∧ h = ⟨root, s', d'⟩ := by
  unfold openHosts at hopen
  split at hopen
  · next hempty =>
    refine .inr ⟨List.isEmpty_iff.1 hempty, ?_⟩
    split at hopen
    · cases hopen
    · next ks hscan =>
      split at hopen
      · cases hopen
      · next s' d₁ hinsert =>
        cases hopen
        exact ⟨ks, _, hscan, hinsert, rfl⟩
  · next hempty =>
    cases hopen
    exact .inl ⟨fun he => hempty (List.isEmpty_iff.2 he), rfl, rfl⟩

end

/-! ## what stays the same -/

/-- hosts in the same folder, of whose disk only the files of the store have changed -/
structure Kept (h s : Hosts) : Prop where
  root : s.root = h.root
  path : s.store.path = h.store.path
  disk : h.disk.FilesAt (h.store.Own h.disk) s.disk

section
variable {h s s' : Hosts} {host k : HostKey} {root : Hash256} {c : Settings} {dir : Path}

theorem Kept.refl (h : Hosts) : Kept h h := ⟨rfl, rfl, .refl _ _⟩

theorem Kept.trans (a : Kept h s) (b : Kept s s') : Kept h s' :=
  ⟨b.root.trans a.root, b.path.trans a.path,
    a.disk.trans (b.disk.mono fun _ hz => (ContractStore.own_congr a.path a.disk).1 hz)⟩

theorem removed_store (k : HostKey) (h : Hosts) :
    (removeContract k h).2.store = h.store.withList (Contracts.without h.store.list k)
      ∧ Kept h (removeContract k h).2 := by
  obtain ⟨r, s', d', hremove⟩ : ∃ r s' d', h.store.remove k h.disk = (r, s', d') :=
    ⟨_, _, _, rfl⟩
  rw [removeContract, hremove]
  rcases ContractStore.remove_any hremove with ⟨hnone, -, rfl, rfl⟩ | ⟨-, rfl, hsave, -⟩
  · have hwithout : Contracts.without h.store.list k = h.store.list := by
      refine List.filter_eq_self.2 fun c hc => ?_
      simpa using List.find?_eq_none.1 hnone c hc
    rw [hwithout]
    exact ⟨rfl, .refl h⟩
  · have hfiles := ContractStore.save_any hsave
    exact ⟨rfl, rfl, rfl, hfiles⟩

theorem eq_of_asked (hr : network.Asked h s) : s = h := by
  induction hr with
  | refl => rfl
  | dial s host _ ih => exact ih
  | settings s host _ ih => exact ih
  | read s host parts cost _ ih => exact ih
  | remove s host hg _ ih => exact hg.elim

theorem kept_of_reach {gone : HostKey → Prop} (hr : network.Reach gone h s) : Kept h s := by
  induction hr with
  | refl => exact .refl h
  | dial s host _ ih => exact ih
  | settings s host _ ih => exact ih
  | read s host parts cost _ ih => exact ih
  | remove s host _ _ ih => exact ih.trans (removed_store host s).2

theorem Kept.holds (a : Kept h s) (hp : h.store.path = dir.join ContractStore.fileName)
    (host : HostKey) :
    s.disk.holds (hostPath s.root host) = h.disk.holds (hostPath h.root host)
      ∧ s.disk.holds ((hostPath s.root host).join denial)
        = h.disk.holds ((hostPath h.root host).join denial) := by
  rw [a.root]
  exact ⟨ContractStore.holds_of_own hp a.disk (names_hex host).1 (names_hex host).2,
    ContractStore.holds_of_own hp a.disk names_denial.1 names_denial.2⟩

/-- the sectors of a host that is there stay -/
theorem Kept.file (a : Kept h s) (hp : h.store.path = dir.join ContractStore.fileName)
    (hthere : h.disk.holds (hostPath h.root host) = true) (root : Hash256) :
    s.disk.read ((hostPath s.root host).join root.text)
      = h.disk.read ((hostPath h.root host).join root.text) := by
  rw [a.root]
  exact ContractStore.read_of_own hp a.disk (names_hex host).1 (names_hex host).2
    (names_text root).1 (names_text root).2 hthere

theorem Kept.payload (a : Kept h s) (hp : h.store.path = dir.join ContractStore.fileName)
    (hthere : h.disk.holds (hostPath h.root host) = true) (sections : List ReadSection) :
    Folder.payload (hostPath s.root host) s.disk sections
      = Folder.payload (hostPath h.root host) h.disk sections := by
  induction sections with
  | nil => rfl
  | cons part rest ih =>
    rw [Folder.payload, Folder.payload, a.file hp hthere, ih, a.root]

/-- what a host that is there answers to a read -/
theorem Kept.read (a : Kept h s) (hp : h.store.path = dir.join ContractStore.fileName)
    (hthere : h.disk.holds (hostPath h.root host) = true) (sections : List ReadSection)
    (cost : Nat) : (Folder.read host sections cost s).1 = (Folder.read host sections 0 h).1 := by
  unfold Folder.read
  simp only [(a.holds hp host).2, a.payload hp hthere]

/-! ## contracts -/

theorem mem_hosts_iff : host ∈ h.store.hosts ↔ (network.contract? h host).isSome = true :=
  ContractStore.mem_hosts_iff

theorem hosts_removed (k : HostKey) (h : Hosts) :
    (removeContract k h).2.store.hosts = h.store.hosts.filter (· ≠ k) := by
  rw [(removed_store k h).1]
  show (Contracts.without h.store.list k).map Contract.host = (h.store.list.map _).filter _
  rw [List.filter_map]
  rfl

theorem contract?_removed :
    (network.contract? (network.removeContract host h).2 k).isSome = true
      ↔ (network.contract? h k).isSome = true ∧ k ≠ host := by
  rw [← mem_hosts_iff, ← mem_hosts_iff]
  show k ∈ (removeContract host h).2.store.hosts ↔ _
  rw [hosts_removed, List.mem_filter, decide_eq_true_iff]

/-! ## what is said -/

/-- what a host in a folder says of a sector -/
def tells (c : Settings) (h : Hosts) (host : HostKey) (root : Hash256) : Verdict :=
  if h.disk.holds (hostPath h.root host) then
    c.verdict root (read host [Exchange.wholeSector c root] 0 h).1.result
  else .nothing

theorem dial_there (hc : host ∈ h.store.hosts)
    (ht : h.disk.holds (hostPath h.root host) = true) :
    (network.dial host h).1 = ⟨some 0, .ok ()⟩ := by
  obtain ⟨contract, hs⟩ := Option.isSome_iff_exists.1 (mem_hosts_iff.1 hc)
  have hs : h.store.contract? host = some contract := hs
  show (dial host h).1 = _
  unfold dial
  simp only [hs, if_pos ht]
  rfl

theorem dial_away (hc : host ∈ h.store.hosts)
    (ht : h.disk.holds (hostPath h.root host) = false) :
    ∃ m, (network.dial host h).1 = ⟨some 0, .error (.transport m)⟩ := by
  obtain ⟨contract, hs⟩ := Option.isSome_iff_exists.1 (mem_hosts_iff.1 hc)
  have hs : h.store.contract? host = some contract := hs
  refine ⟨s!"host {host} is unreachable", ?_⟩
  show (dial host h).1 = _
  unfold dial
  simp only [hs, ht, Bool.false_eq_true, if_false]
  rfl

theorem read_delay (host : HostKey) (sections : List ReadSection) (cost : Nat) (h : Hosts) :
    (read host sections cost h).1.delay = some 0 := by
  unfold read
  dsimp only
  split <;> rfl

theorem verdict_payload (dir : Path) (d : Disk) (sections : List ReadSection) :
    c.verdict root (payload dir d sections) ≠ .denies := by
  induction sections with
  | nil =>
    rw [payload, Settings.verdict]
    split <;> decide
  | cons part rest ih =>
    rw [payload]
    split
    · rw [Settings.verdict, classify_missing]
      decide
    · exact fun h => by cases h
    · split
      · next he =>
        rw [he] at ih
        exact ih
      · rw [Settings.verdict]
        split <;> decide

theorem tells_denies_iff : tells c h host root = .denies ↔
    h.disk.holds (hostPath h.root host) = true
      ∧ h.disk.holds ((hostPath h.root host).join denial) = true := by
  unfold tells read
  by_cases ht : h.disk.holds (hostPath h.root host) = true
  · by_cases hd : h.disk.holds ((hostPath h.root host).join denial) = true
    · simp only [if_pos ht, if_pos hd, Settings.verdict, Reply.now, classify_unknown]
      exact ⟨fun _ => ⟨ht, hd⟩, fun _ => rfl⟩
    · simp only [if_pos ht, if_neg hd]
      exact ⟨fun h => absurd h (verdict_payload _ _ _), fun h => absurd h.2 hd⟩
  · simp only [if_neg ht]
    exact ⟨fun h => (by cases h), fun h => absurd h.1 ht⟩

theorem talk_tells (a : Kept h s) (hp : h.store.path = dir.join ContractStore.fileName)
    (hc : host ∈ s.store.hosts) {t : Talk} (hk : network.Talks c s host root t) :
    ∃ r, t.Ends c r ∧ c.verdict root r = tells c h host root := by
  obtain ⟨s₁, s₂, s₃, cost, h₁, h₂, h₃, -⟩ := hk
  obtain rfl := eq_of_asked h₁
  obtain rfl : s₂ = s₁ := eq_of_asked h₂
  obtain rfl : s₃ = s₂ := eq_of_asked h₃
  cases ht : h.disk.holds (hostPath h.root host) with
  | false =>
    obtain ⟨m, hdial⟩ := dial_away hc ((a.holds hp host).1.trans ht)
    refine ⟨.error (.transport m), .refused 0 _ hdial (Nat.zero_le _) (Nat.zero_le _), ?_⟩
    rw [tells, ht]
    rfl
  | true =>
    have hdial := dial_there hc ((a.holds hp host).1.trans ht)
    have hread := a.read hp ht [Exchange.wholeSector c root] cost
    refine ⟨(read host [Exchange.wholeSector c root] 0 h).1.result,
      .answered 0 0 0 ⟨0, 0, 0⟩ _ hdial rfl ?_ (Nat.zero_le _) (Nat.zero_le _) (Nat.zero_le _)
        (Nat.zero_le _), by rw [tells, if_pos ht]⟩
    refine hread.trans ?_
    rw [← read_delay host [Exchange.wholeSector c root] 0 h]

/-- hosts in a folder always answer the same -/
theorem static (c : Settings) (h : Hosts) (hp : h.store.path = dir.join ContractStore.fileName) :
    network.Static c h (tells c h) where
  listed s host _ := mem_hosts_iff
  asked s s' host _ hr := by rw [eq_of_asked hr]
  lost s host k _ hk := (contract?_removed.1 hk).1
  kept s host k _ hne hk := contract?_removed.2 ⟨hk, hne⟩
  removed s host _ _ := Bool.eq_false_iff.2 fun hk => (contract?_removed.1 hk).2 rfl
  talks s host root t hr hc hk :=
    .inl (talk_tells (kept_of_reach hr) hp (mem_hosts_iff.2 hc) hk)
  denies host root root' hd := tells_denies_iff.2 (tells_denies_iff.1 hd)

end

end Folder

end Reclaim

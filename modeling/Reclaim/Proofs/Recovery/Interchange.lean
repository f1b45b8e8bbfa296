import Reclaim.Proofs.Host.Folder
import Reclaim.Proofs.Key
import Reclaim.Proofs.Recovery.Agreement
import Reclaim.Proofs.Recovery.Lockstep

/-!
# Hosts in a folder and hosts in memory are interchangeable

* `Folder.Station`  a host in memory that behaves as one in a folder;
* `Folder.Mirrors`  hosts in memory with the contracts of a store, each of them such a host;
* `Mirrors.lockstep`   whatever becomes of them, they say the same at once;
* `Mirrors.accepted`   the same sectors can be accepted from both;
* `recover_mirrored`   recoveries from both come to the same, even in their reports if one host is
                    asked at a time.
-/

namespace Reclaim

namespace Folder

/-- a host in memory that behaves as one in a folder -/
inductive Station (h : Hosts) (m : Memory.Hosts) (k : HostKey) : Prop
  /-- one has no folder, the other refuses connections -/
  | away (hd : h.disk.holds (hostPath h.root k) = false) (hm : m.behaviorOf k = .offline)
  /-- one has a denial in its folder, the other denies every read -/
  | denying (hd : h.disk.holds (hostPath h.root k) = true)
      (hn : h.disk.holds ((hostPath h.root k).join denial) = true)
      (hm : m.behaviorOf k = .contractMissing)
  /-- one has the files that the other stores -/
  | serving (hd : h.disk.holds (hostPath h.root k) = true)
      (hn : h.disk.holds ((hostPath h.root k).join denial) = false) (hm : m.behaviorOf k = .serve)
      (hfiles : ∀ root : Hash256, h.disk.read ((hostPath h.root k).join root.text)
        = match (m.sectors.getOr k []).lookup root with
          | none => .error .missing
          | some b => .ok b)

/-- hosts in memory that have the contracts of a store of hosts in a folder, and behave as these -/
structure Mirrors (h : Hosts) (m : Memory.Hosts) : Prop where
  document : ∃ dir : Path, h.store.path = dir.join ContractStore.fileName
  contracts : m.contracts = h.store.hosts
  stations : ∀ k ∈ m.contracts, Station h m k

section
variable {h h' : Hosts} {m m' : Memory.Hosts} {k host : HostKey} {root : Hash256} {b : Bytes}
  {c : Settings}

/-! ## what stays the same -/

theorem Station.kept (hs : Station h m k)
    (hp : ∃ dir : Path, h.store.path = dir.join ContractStore.fileName) (a : Kept h h')
    (a' : Memory.Alike m m') : Station h' m' k := by
  obtain ⟨dir, hp⟩ := hp
  obtain ⟨hthere, hdenial⟩ := a.holds hp k
  cases hs with
  | away hd hm => exact .away (hthere.trans hd) ((a'.behaviorOf k).trans hm)
  | denying hd hn hm =>
    exact .denying (hthere.trans hd) (hdenial.trans hn) ((a'.behaviorOf k).trans hm)
  | serving hd hn hm hfiles =>
    refine .serving (hthere.trans hd) (hdenial.trans hn) ((a'.behaviorOf k).trans hm) fun root => ?_
    rw [a.file hp hd root, hfiles root, a'.sectors]

theorem Mirrors.kept (hm : Mirrors h m) (a : Kept h h') (a' : Memory.Alike m m')
    (hcontracts : m'.contracts = h'.store.hosts) (hfewer : ∀ k ∈ m'.contracts, k ∈ m.contracts) :
    Mirrors h' m' where
  document := hm.document.imp fun _ hp => a.path.trans hp
  contracts := hcontracts
  stations k hk := (hm.stations k (hfewer k hk)).kept hm.document a a'

/-! ## what is said -/

theorem payload_eq {dir : Path} {d : Disk} {stored : List (Hash256 × Bytes)}
    (hfiles : ∀ root : Hash256, d.read (dir.join root.text)
      = match stored.lookup root with
        | none => .error .missing
        | some b => .ok b) (sections : List ReadSection) :
    payload dir d sections = match Memory.payload stored sections with
      | none => .error (.rpc sectorMissingText)
      | some b => .ok b := by
  induction sections with
  | nil => rfl
  | cons part rest ih =>
    rw [payload, hfiles part.root, Memory.payload]
    cases stored.lookup part.root with
    | none => rfl
    | some b =>
      dsimp only
      rw [ih]
      cases Memory.payload stored rest <;> rfl

theorem Station.read (hs : Station h m k) (hd : h.disk.holds (hostPath h.root k) = true)
    (sections : List ReadSection) (cost cost' : Nat) :
    (Folder.read k sections cost h).1 = (Memory.read k sections cost' m).1 := by
  unfold Folder.read Memory.read
  cases hs with
  | away hd' hm =>
    rw [hd] at hd'
    cases hd'
  | denying _ hn hm => simp only [if_pos hn, hm]
  | serving _ hn hm hfiles =>
    simp only [hn, hm, Memory.served, payload_eq hfiles, Bool.false_eq_true, if_false]
    cases Memory.payload (m.sectors.getOr k []) sections <;> rfl

theorem Station.offline (hs : Station h m k) (hd : h.disk.holds (hostPath h.root k) = false) :
    m.behaviorOf k = .offline := by
  cases hs with
  | away _ hm => exact hm
  | denying hd' =>
    rw [hd] at hd'
    cases hd'
  | serving hd' =>
    rw [hd] at hd'
    cases hd'

theorem Station.online (hs : Station h m k) (hd : h.disk.holds (hostPath h.root k) = true) :
    m.behaviorOf k ≠ .offline := by
  cases hs with
  | away hd' =>
    rw [hd] at hd'
    cases hd'
  | denying _ _ hm =>
    rw [hm]
    exact fun e => by cases e
  | serving _ _ hm =>
    rw [hm]
    exact fun e => by cases e

theorem Mirrors.exchange {w : Wire Hosts} {w' : Wire Memory.Hosts} (hm : Mirrors w.net w'.net)
    (hk : k ∈ w'.net.contracts) (c : Settings) (root : Hash256) : ∃ a a',
      (Exchange.start network c ⟨k, root, false⟩ w).1 = .done a
        ∧ (Exchange.start Memory.network c ⟨k, root, false⟩ w').1 = .done a'
        ∧ Akin (a.sector root) (a'.sector root) := by
  have hs := hm.stations k hk
  have hlisted : k ∈ w.net.store.hosts := hm.contracts ▸ hk
  cases hd : w.net.disk.holds (hostPath w.net.root k) with
  | false =>
    obtain ⟨text, hdial⟩ := dial_away hlisted hd
    obtain ⟨e, hdial', hverdict⟩ := Memory.dial_offline hk (hs.offline hd)
    refine ⟨_, _, Exchange.start_refused hdial, Exchange.start_refused hdial', .failed _ _ ?_⟩
    refine ⟨fun he => (by cases he), fun he => ?_⟩
    rw [he] at hverdict
    cases hverdict
  | true =>
    have honline := hs.online hd
    have hdial := dial_there hlisted hd
    have hdial' := Memory.dial_ok hk honline
    have hs' : Station w.net (Memory.network.dial k w'.net).2 k :=
      hs.kept hm.document (.refl _) ⟨rfl, rfl⟩
    have hread : ∀ cost, (network.read k [Exchange.wholeSector c root] cost w.net).1
        = .now (Folder.read k [Exchange.wholeSector c root] 0 w.net).1.result := by
      intro cost
      rw [Reply.now, ← read_delay k [Exchange.wholeSector c root] 0 w.net]
      rfl
    have hread' : ∀ cost, (Memory.network.read k [Exchange.wholeSector c root] cost
        (Memory.network.dial k w'.net).2).1
          = .now (Folder.read k [Exchange.wholeSector c root] 0 w.net).1.result :=
      fun cost => (hs'.read hd _ 0 cost).symm.trans (hread 0)
    exact ⟨_, _, Exchange.start_answered hdial rfl (hread _),
      Exchange.start_answered hdial' rfl (hread' _), .refl _⟩

theorem lockstep (c : Settings) : network.Lockstep Memory.network c Mirrors where
  hosts h m hm := hm.contracts.symm
  contract h m k hm := by
    rw [Bool.eq_iff_iff, ← mem_hosts_iff, Memory.contract?_isSome_iff, hm.contracts]
  listed h m k _ hk := mem_hosts_iff.1 hk
  exchange w w' k root hm hc := by
    have hk : k ∈ w'.net.contracts := hm.contracts ▸ mem_hosts_iff.2 hc
    obtain ⟨a, a', hstart, hstart', hakin⟩ := hm.exchange hk c root
    refine ⟨a, _, a', _, Prod.ext hstart rfl, Prod.ext hstart' rfl, hakin, ?_⟩
    have hasked := Exchange.start_asked (n := network) (c := c) ⟨k, root, false⟩ w
    have hasked' := Exchange.start_asked (n := Memory.network) (c := c) ⟨k, root, false⟩ w'
    have hcontracts := Memory.contracts_of_asked hasked'
    rw [eq_of_asked hasked]
    exact ⟨hm.kept (.refl _) (Memory.alike_of_reach hasked') (hcontracts.trans hm.contracts)
      fun _ hk => hcontracts ▸ hk, rfl⟩
  removed h m k hm := by
    refine hm.kept (removed_store k h).2 ⟨rfl, rfl⟩ ?_ fun host hhost =>
      (Memory.mem_contracts_remove.1 hhost).1
    show m.contracts.filter (· ≠ k) = (removeContract k h).2.store.hosts
    rw [hosts_removed, hm.contracts]

/-- what can be accepted from hosts in a folder can be from those in memory -/
theorem Mirrors.accepted (hm : Mirrors h m) (ha : network.Accepted c h root b) :
    Memory.network.Accepted c m root b := by
  obtain ⟨s, host, t, hr, hc, ⟨s₁, s₂, s₃, cost, h₁, h₂, h₃, -⟩, hends, hverdict⟩ := ha
  obtain ⟨dir, hp⟩ := hm.document
  have hk : host ∈ m.contracts :=
    hm.contracts ▸ mem_hosts_iff.2 ((static c h hp).fewer hr hc)
  have hs := hm.stations host hk
  have hlisted := mem_hosts_iff.2 hc
  have hkept := kept_of_reach hr
  obtain rfl := eq_of_asked h₁
  obtain rfl : s₂ = s₁ := eq_of_asked h₂
  obtain rfl : s₃ = s₂ := eq_of_asked h₃
  cases hends with
  | answered d₁ d₂ d₃ prices _ hdial hsettings hread l₁ l₂ l₃ ht =>
    cases hd : h.disk.holds (hostPath h.root host) with
    | false =>
      obtain ⟨text, hrefused⟩ := dial_away hlisted ((hkept.holds hp host).1.trans hd)
      have hdial := hrefused.symm.trans hdial
      cases congrArg Reply.result hdial
    | true =>
      have honline := hs.online hd
      have hs' : Station h (Memory.network.dial host m).2 host :=
        hs.kept hm.document (.refl _) ⟨rfl, rfl⟩
      have hread' : (Memory.network.read host [Exchange.wholeSector c root]
          (readCost ⟨1, 1, 1⟩ [Exchange.wholeSector c root]) (Memory.network.dial host m).2).1
            = ⟨some 0, .ok b⟩ := by
        have hsame := hs'.read hd [Exchange.wholeSector c root] 0
          (readCost ⟨1, 1, 1⟩ [Exchange.wholeSector c root])
        have hresult : (Folder.read host [Exchange.wholeSector c root] 0 h).1.result = .ok b :=
          congrArg Reply.result
            ((hkept.read hp hd [Exchange.wholeSector c root] cost).symm.trans hread)
        refine hsame.symm.trans ?_
        rw [← read_delay host [Exchange.wholeSector c root] 0 h, ← hresult]
      refine ⟨m, host, _, .refl, Memory.contract?_isSome_iff.2 hk,
        .mk m (Memory.network.dial host m).2 (Memory.network.dial host m).2
          (readCost ⟨1, 1, 1⟩ [Exchange.wholeSector c root]) .refl .refl .refl
          fun prices hprices => ?_,
        .answered 0 0 0 ⟨1, 1, 1⟩ _ (Memory.dial_ok hk honline) rfl hread' (Nat.zero_le _)
          (Nat.zero_le _) (Nat.zero_le _) (Nat.zero_le _), hverdict⟩
      cases hprices
      rfl

end

end Folder

namespace Recovery

/-- Recovering a file from hosts in a folder and from hosts in memory that mirror them: if one host
is asked at a time, both come to the same with the same report, write the same, and leave contracts
with the same hosts.  However many are asked at a time and whatever the orders of their answers,
both come to the same and write the same, if no two sectors can be accepted for one root. -/
theorem recover_mirrored (c : Settings) {h : Folder.Hosts} {m : Memory.Hosts}
    (hm : Folder.Mirrors h m) (d : Descriptor) (sink : Sink) (orders orders' : Run.Orders)
    (progress progress' : Option Progress) :
    (c.workers ≤ 1 →
        (recover Folder.network c orders d sink (Run.fresh h progress)).result
            = (recover Memory.network c orders' d sink (Run.fresh m progress')).result
          ∧ (recover Folder.network c orders d sink (Run.fresh h progress)).sink
            = (recover Memory.network c orders' d sink (Run.fresh m progress')).sink
          ∧ (recover Folder.network c orders d sink (Run.fresh h progress)).run.wire.net.store.hosts
            = (recover Memory.network c orders' d sink
                (Run.fresh m progress')).run.wire.net.contracts)
      ∧ ((∀ root b b', Memory.network.Accepted c m root b → Memory.network.Accepted c m root b' →
            b = b') →
          (recover Folder.network c orders d sink (Run.fresh h progress)).gist
              = (recover Memory.network c orders' d sink (Run.fresh m progress')).gist
            ∧ (recover Folder.network c orders d sink (Run.fresh h progress)).sink
              = (recover Memory.network c orders' d sink (Run.fresh m progress')).sink) := by
  constructor
  · intro hone
    obtain ⟨hresult, hsink, htwin⟩ := recover_twin (Folder.lockstep c) hone orders orders' d sink
      (Run.twin_fresh hm progress progress')
    exact ⟨hresult, hsink, htwin.net.contracts.symm⟩
  · intro hone
    obtain ⟨dir, hp⟩ := hm.document
    have hfolder := Folder.static c h hp
    have hmemory := Memory.static c m
    obtain ⟨hgist, hsink⟩ := recover_agree hfolder (static_workers hfolder 1)
      (fun root b b' hb hb' => hone root b b' (hm.accepted hb)
        (hm.accepted (accepted_of_workers hb'))) d sink orders orders progress progress
    obtain ⟨hresult₁, hsink₁, -⟩ := recover_twin (Folder.lockstep { c with workers := 1 })
      (Nat.le_refl 1) orders orders' d sink (Run.twin_fresh hm progress progress')
    obtain ⟨hgist', hsink'⟩ := recover_agree (static_workers hmemory 1) hmemory
      (fun root b b' hb hb' => hone root b b' (accepted_of_workers hb) hb') d sink orders' orders'
      progress' progress'
    exact ⟨hgist.trans ((congrArg _ hresult₁).trans hgist'), hsink.trans (hsink₁.trans hsink')⟩

end Recovery

/-! ## a small case -/

namespace Health

/-- a disk with the folders of two hosts: one has a byte for a sector, the other denies every read -/
def serverAndStaleDisk : Disk where
  entries :=
    [(["hosts"], .folder), ([(HostKey.ofBytes [1]).hex, "hosts"], .folder),
      ([(sectorRoot [7]).text, (HostKey.ofBytes [1]).hex, "hosts"], .file [7]),
      ([(HostKey.ofBytes [2]).hex, "hosts"], .folder),
      ([Folder.denial, (HostKey.ofBytes [2]).hex, "hosts"], .file [])]
  base := []
  luck := []

/-- the hosts there, both under contract -/
def serverAndStaleFolder : Folder.Hosts where
  root := ⟨["hosts"]⟩
  store := ⟨⟨["data", "contracts.json"]⟩, 0,
    ⟨none, [Folder.seed (HostKey.ofBytes [1]), Folder.seed (HostKey.ofBytes [2])]⟩⟩
  disk := serverAndStaleDisk

theorem read_serverAndStaleDisk (root : Hash256) :
    serverAndStaleDisk.read ((Folder.hostPath ⟨["hosts"]⟩ (HostKey.ofBytes [1])).join root.text)
      = match [(sectorRoot [7], [7])].lookup root with
        | none => .error .missing
        | some b => .ok b := by
  have hname := (names_text root).1
  have hplace : serverAndStaleDisk.locate ⟨["hosts"] ++ [(HostKey.ofBytes [1]).hex]⟩
      = .ok [(HostKey.ofBytes [1]).hex, "hosts"] := by decide +kernel
  have hpath : (Folder.hostPath ⟨["hosts"]⟩ (HostKey.ofBytes [1])).join root.text
      = ⟨["hosts"] ++ [(HostKey.ofBytes [1]).hex] ++ [root.text]⟩ :=
    Disk.join_concat_concat (names_hex _).1 _
  have hnode : serverAndStaleDisk.node? [root.text, (HostKey.ofBytes [1]).hex, "hosts"]
      = ([(sectorRoot [7], [7])].lookup root).map Node.file := by
    by_cases hroot : root = sectorRoot [7]
    · rw [hroot]
      decide +kernel
    · have htext : root.text ≠ (sectorRoot [7]).text := fun e =>
        hroot (Hash256.ext (Hex.text_inj e))
      rw [List.lookup_cons, beq_false_of_ne hroot]
      show List.lookup _ serverAndStaleDisk.entries = none
      rw [List.lookup_eq_none_iff]
      intro e he
      simp only [serverAndStaleDisk, List.mem_cons, List.not_mem_nil, or_false] at he
      have hother : (HostKey.ofBytes [1]).hex ≠ (HostKey.ofBytes [2]).hex := by decide +kernel
      rcases he with rfl | rfl | rfl | rfl | rfl <;> simp [htext, hother]
  rw [hpath, Disk.read, Disk.look, Disk.locate_below (names_hex _).1 hname hplace,
    Disk.walk_name hname (by decide +kernel), Disk.walk]
  dsimp only
  rw [hnode]
  cases ([(sectorRoot [7], [7])] : List (Hash256 × Bytes)).lookup root <;> rfl

/-- recovering the byte, which a third host is said to keep, from these -/
def recoverFromFolder (workers : Nat) (orders : Run.Orders) :
    Recovery.Outcome Folder.Hosts RecoveryReport :=
  Recovery.recover Folder.network { byteSettings with workers := workers } orders
    (fileOfByte [⟨sectorRoot [7], HostKey.ofBytes [3]⟩]) (Sink.ofLimit none)
    (Run.fresh serverAndStaleFolder none)

theorem recover_mirrored_stale :
    Folder.Mirrors serverAndStaleFolder serverAndStale
      ∧ (recoverFromFolder 1 Run.Orders.byTime).result
        = (recoverBySearch 1 Run.Orders.byTime).result
      ∧ (∀ root b b', Memory.network.Accepted { byteSettings with workers := 2 } serverAndStale root b →
          Memory.network.Accepted { byteSettings with workers := 2 } serverAndStale root b' → b = b')
      ∧ (recoverFromFolder 2 Run.Orders.byTime).gist = (recoverBySearch 2 lastFirst).gist := by
  have hmirrors : Folder.Mirrors serverAndStaleFolder serverAndStale := by
    refine ⟨⟨⟨["data"]⟩, rfl⟩, by decide +kernel, fun k hk => ?_⟩
    have hk : k ∈ [HostKey.ofBytes [1], HostKey.ofBytes [2]] := hk
    rcases List.mem_cons.1 hk with rfl | hk
    · exact .serving (by decide +kernel) (by decide +kernel) (by decide +kernel)
        read_serverAndStaleDisk
    · obtain rfl := List.mem_singleton.1 hk
      exact .denying (by decide +kernel) (by decide +kernel) (by decide +kernel)
  have hone : ∀ root b b',
      Memory.network.Accepted { byteSettings with workers := 2 } serverAndStale root b →
      Memory.network.Accepted { byteSettings with workers := 2 } serverAndStale root b' → b = b' :=
    fun root b b' hb hb' => (accepted_serverAndStale (Recovery.accepted_of_workers hb)).trans
      (accepted_serverAndStale (Recovery.accepted_of_workers hb')).symm
  exact ⟨hmirrors, ((Recovery.recover_mirrored { byteSettings with workers := 1 } hmirrors
      (fileOfByte [⟨sectorRoot [7], HostKey.ofBytes [3]⟩]) (Sink.ofLimit none) Run.Orders.byTime
      Run.Orders.byTime none none).1 (Nat.le_refl 1)).1, hone,
    ((Recovery.recover_mirrored { byteSettings with workers := 2 } hmirrors
      (fileOfByte [⟨sectorRoot [7], HostKey.ofBytes [3]⟩]) (Sink.ofLimit none) Run.Orders.byTime
      lastFirst none none).2 hone).1⟩

end Health

end Reclaim

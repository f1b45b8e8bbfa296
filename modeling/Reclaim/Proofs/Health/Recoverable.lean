import Reclaim.Proofs.Health.Survey
import Reclaim.Proofs.Recovery.Available
import Reclaim.Proofs.Recovery.Integrity

/-!
# What a report has to do with a recovery

The hosts always answer the same.  Then a file that is recovered is also reported to be recoverable.
The converse needs more: the report counts a piece if a host serves any of its claimed copies, while
a recovery asks the hosts that are said to keep a copy, and searches for the first copy only.

* `recoverable_iff`      a report in terms of the claimed copies that some host serves;
* `recovered_is_recoverable`   the report never understates;
* `Sure`, `recoverable_is_recovered`   it does not overstate either where the copies of a piece have
                         one root, or where enough pieces are sure to be found;
* `recoverable_not_recovered`   but it may elsewhere.
-/

namespace Reclaim

variable {σ : Type}

namespace Health

section
variable {n : Network σ} {c c' : Settings} {d : Descriptor} {net : σ}
  {tells : HostKey → Hash256 → Verdict} {held : List (Hash256 × HostKey)} {k : Chunk}
  {slot : List SectorRef} {s : SectorRef}

/-- whether a report lists a host for some claimed copy of a piece -/
def served (held : List (Hash256 × HostKey)) (slot : List SectorRef) : Bool :=
  slot.any fun s => !(holders held s.root).isEmpty

/-- what a report lists for the claimed copies of a piece -/
def listed (held : List (Hash256 × HostKey)) (slot : List SectorRef) : List PieceHealth :=
  slot.map fun s => ⟨s.root, holders held s.root⟩

theorem availablePieces_eq (held : List (Hash256 × HostKey)) (minPieces : Nat) (k : Chunk) :
    (ofChunk held minPieces k).availablePieces = k.slots.countP (served held) := by
  refine List.countP_map.trans (List.countP_congr fun slot _ => ?_)
  rw [served, Function.comp_apply, List.any_map]
  rfl

/-- a file is recoverable if enough pieces of every chunk have a copy that is served -/
theorem recoverable_iff : (report held d).recoverable = true
    ↔ ∀ k ∈ d.chunks, d.minPieces ≤ k.slots.countP (served held) := by
  refine List.all_eq_true.trans ⟨fun h k hk => ?_, fun h k hk => ?_⟩
  · have := of_decide_eq_true (h _ (List.mem_map_of_mem hk))
    rwa [availablePieces_eq] at this
  · obtain ⟨chunk, hchunk, rfl⟩ := List.mem_map.1 hk
    refine decide_eq_true ?_
    rw [availablePieces_eq]
    exact h chunk hchunk

theorem mem_distinctSectors (hk : k ∈ d.chunks) (hslot : slot ∈ k.slots) (hs : s ∈ slot) :
    s.root ∈ d.distinctSectors :=
  (Descriptor.mem_firstSeen _ _).2 (List.mem_map_of_mem
    (List.mem_flatMap.2 ⟨k, hk, List.mem_flatten.2 ⟨slot, hslot, hs⟩⟩))

/-- what is written down is what the hosts say -/
def Exact (n : Network σ) (net : σ) (tells : HostKey → Hash256 → Verdict) (d : Descriptor)
    (held : List (Hash256 × HostKey)) : Prop :=
  ∀ root ∈ d.distinctSectors, ∀ host,
    (root, host) ∈ held ↔ host ∈ n.hosts net ∧ tells host root = .serves

theorem Exact.available_iff (h : Exact n net tells d held) {root : Hash256}
    (hr : root ∈ d.distinctSectors) :
    (!(holders held root).isEmpty) = true ↔ n.Available net tells root := by
  rw [Bool.not_eq_true', Bool.eq_false_iff, Ne, List.isEmpty_iff]
  constructor
  · intro hne
    obtain ⟨host, hm⟩ := List.exists_mem_of_ne_nil _ hne
    exact ⟨host, (h root hr host).1 (mem_holders.1 hm)⟩
  · rintro ⟨host, hh⟩
    exact List.ne_nil_of_mem (mem_holders.2 ((h root hr host).2 hh))

theorem Exact.served_iff (h : Exact n net tells d held) (hk : k ∈ d.chunks)
    (hslot : slot ∈ k.slots) :
    served held slot = true ↔ ∃ s ∈ slot, n.Available net tells s.root := by
  rw [served, List.any_eq_true]
  exact exists_congr fun s => and_congr_right fun hs =>
    h.available_iff (mem_distinctSectors hk hslot hs)

/-! ## the report never understates -/

theorem hosts_of_recovered {orders : Run.Orders} {sink : Sink} {r : Run σ}
    {report : RecoveryReport}
    (h : (Recovery.recover n c orders d sink r).result = .ok report) : n.hosts r.wire.net ≠ [] := by
  rw [Recovery.recover_eq] at h
  cases hp : Recovery.prepare n d r.wire.net with
  | error e =>
    rw [hp] at h
    cases h
  | ok t =>
    obtain ⟨-, -, -, -, hh⟩ := Recovery.prepare_eq_ok_iff.1 hp
    exact hh

/-- a file that is recovered is reported to be recoverable, whatever the orders of races and checks,
the limits and the numbers of workers -/
theorem recovered_is_recoverable (n : Network σ) (c c' : Settings) (orders : Run.Orders)
    (schedule : Schedule) (d : Descriptor) (sink : Sink) (net : σ) (progress : Option Progress)
    (tells : HostKey → Hash256 → Verdict) (h : n.Static c net tells) (h' : n.Static c' net tells)
    (report : RecoveryReport)
    (hok : (Recovery.recover n c orders d sink (Run.fresh net progress)).result = .ok report) :
    ∃ health, (check n c' schedule d (Wire.fresh net)).1 = .ok health
      ∧ health.recoverable = true := by
  have hhosts := hosts_of_recovered hok
  rcases Recovery.recover_cases n c orders d sink (Run.fresh net progress) with
    ⟨e, -, he⟩ | ⟨coder, key, hv, -, -, he⟩
  · rw [he] at hok
    cases hok
  · rw [he] at hok
    obtain ⟨count, hcount⟩ := Recovery.reported_ok _ _ hok
    obtain ⟨s, hcheck, -, -, hheld, -⟩ := check_report (w := Wire.fresh net) h' schedule
      (d.validate_eq_ok_iff.2 hv) hhosts
    have hexact : Exact n net tells d s.held := hheld
    refine ⟨_, by rw [hcheck], recoverable_iff.2 ?_⟩
    exact Recovery.recoverChunks_available (t := ⟨d, coder, key⟩) h orders d.chunks hv.slots
      (served s.held) (fun k hk slot hslot => (hexact.served_iff hk hslot).2) 0 sink _
      (Run.led_fresh n net tells progress) (Run.sound_fresh c net progress) hcount

/-! ## when it does not overstate -/

/-- whether a report tells that a recovery is sure to come by a piece: it lists a host for the first
claimed copy, or for some copy the very host that is said to keep it -/
def Sure (claims : List SectorRef) (listed : List PieceHealth) : Bool :=
  (listed.head?.any fun p => !p.hosts.isEmpty)
    || (claims.zip listed).any fun e => e.2.hosts.contains e.1.host

/-- whether all claimed copies of a piece go by one root -/
def OneRoot (claims : List SectorRef) : Prop :=
  ∀ s ∈ claims, ∀ s' ∈ claims, s.root = s'.root

theorem Exact.findable_of_sure (h : Exact n net tells d held) (hk : k ∈ d.chunks)
    (hslot : slot ∈ k.slots) (hs : Sure slot (listed held slot) = true) :
    Recovery.Findable n net tells slot := by
  rcases Bool.or_eq_true_iff.1 hs with hfirst | hown
  · left
    cases slot with
    | nil => cases hfirst
    | cons s rest =>
      have hroot := mem_distinctSectors hk hslot (s := s) List.mem_cons_self
      exact ⟨s, rfl, (h.available_iff hroot).1 hfirst⟩
  · right
    rw [listed, ← List.map_prod_left_eq_zip, List.any_map, List.any_eq_true] at hown
    obtain ⟨s, hm, hc⟩ := hown
    have hin : s.host ∈ holders held s.root := List.contains_iff_mem.1 hc
    exact ⟨s, hm, (h s.root (mem_distinctSectors hk hslot hm) s.host).1 (mem_holders.1 hin)⟩

theorem sure_of_served (hone : OneRoot slot) (hs : served held slot = true) :
    Sure slot (listed held slot) = true := by
  obtain ⟨s, hm, hne⟩ := List.any_eq_true.1 hs
  refine Bool.or_eq_true_iff.2 (.inl ?_)
  cases slot with
  | nil => exact absurd hm List.not_mem_nil
  | cons s' rest =>
    rw [hone s hm s' List.mem_cons_self] at hne
    exact hne

theorem hosts_of_checked {schedule : Schedule} {w : Wire σ} {health : FileHealth}
    (h : (check n c schedule d w).1 = .ok health) : n.hosts w.net ≠ [] := by
  intro hh
  unfold check at h
  split at h
  · cases h
  · dsimp only at h
    rw [if_pos (List.isEmpty_iff.2 hh)] at h
    cases h

theorem countP_sure (hone : (∀ claims ∈ k.slots, OneRoot claims)
      ∨ d.minPieces ≤ (k.slots.zip (ofChunk held d.minPieces k).pieces).countP
          fun p => Sure p.1 p.2)
    (hserved : d.minPieces ≤ k.slots.countP (served held)) :
    d.minPieces ≤ k.slots.countP fun slot => Sure slot (listed held slot) := by
  rcases hone with hone | hmany
  · exact hserved.trans (List.countP_mono_left fun slot hslot => sure_of_served (hone slot hslot))
  · have he : k.slots.zip (ofChunk held d.minPieces k).pieces
        = k.slots.map fun slot => (slot, listed held slot) := List.map_prod_left_eq_zip.symm
    rw [he, List.countP_map] at hmany
    exact hmany

/-- a file that is reported to be recoverable is recovered, if in every chunk the copies of each
piece go by one root, or enough pieces are sure to be found -/
theorem recoverable_is_recovered (n : Network σ) (c c' : Settings) (orders : Run.Orders)
    (schedule : Schedule) (d : Descriptor) (key : MasterKey) (sink : Sink) (net : σ)
    (progress : Option Progress) (tells : HostKey → Hash256 → Verdict) (h : n.Static c net tells)
    (h' : n.Static c' net tells) (hv : d.validate = .ok ()) (hkey : d.key = .ok key)
    (hsize : d.pieceSize.toNat ≤ c.sectorSize)
    (haligned : d.encoderType = 2 → d.pieceSize.toNat % stripeWidth = 0) (hroom : sink.room = none)
    (health : FileHealth) (hcheck : (check n c' schedule d (Wire.fresh net)).1 = .ok health)
    (hrec : health.recoverable = true)
    (hsure : ∀ e ∈ d.chunks.zip health.chunks, (∀ claims ∈ e.1.slots, OneRoot claims)
      ∨ d.minPieces ≤ (e.1.slots.zip e.2.pieces).countP fun p => Sure p.1 p.2) :
    ∃ report, (Recovery.recover n c orders d sink (Run.fresh net progress)).result
      = .ok report := by
  have hvalid := d.validate_eq_ok_iff.1 hv
  obtain ⟨coder, hcoder⟩ := hvalid.coder
  have hhosts : n.hosts net ≠ [] := hosts_of_checked hcheck
  obtain ⟨s, hs, -, -, hheld, -⟩ := check_report (w := Wire.fresh net) h' schedule hv hhosts
  have hexact : Exact n net tells d s.held := hheld
  rw [hs] at hcheck
  cases hcheck
  have hmany : ∀ k ∈ d.chunks,
      d.minPieces ≤ k.slots.countP fun slot => Sure slot (listed s.held slot) := by
    intro k hk
    refine countP_sure (hsure (k, ofChunk s.held d.minPieces k) ?_) (recoverable_iff.1 hrec k hk)
    rw [report, ← List.map_prod_left_eq_zip]
    exact List.mem_map.2 ⟨k, hk, rfl⟩
  obtain ⟨count, hcount⟩ := Recovery.recoverChunks_finds 0 h
    (wellformed_target hvalid hcoder haligned key) hsize orders d.chunks hvalid.slots
    (fun slot => Sure slot (listed s.held slot))
    (fun k hk slot hslot => hexact.findable_of_sure hk hslot) rfl hmany 0 sink hroom _
    (Run.led_fresh n net tells progress) (Run.sound_fresh c net progress)
  rw [Recovery.recover_go n c orders d sink _ hv hcoder hkey hhosts]
  exact Recovery.ok_reported _ _ hcount

end

/-! ## small cases -/

section
variable (refs : List SectorRef)

theorem valid_fileOfByte : (fileOfByte refs).Valid where
  dataPieces := show (1 : UInt32) ≠ 0 by decide
  pieceSize := show (1 : UInt64) ≠ 0 by decide
  coder := (fileOfByte refs).coder_isOk_iff.2 ⟨.inl rfl, Nat.one_pos, Nat.one_le_two_pow (n := 8)⟩
  size := show 1 < bound64 by decide
  count := by
    rw [Descriptor.expectedChunks_eq Nat.one_pos rfl (by decide)]
    show 1 = max 1 (((1 : UInt64).toNat + 1 - 1) / 1)
    decide
  slots k hk := by
    obtain rfl : k = ⟨[refs]⟩ := List.mem_singleton.1 hk
    rfl

theorem validate_fileOfByte : (fileOfByte refs).validate = .ok () :=
  (Descriptor.validate_eq_ok_iff _).2 (valid_fileOfByte refs)

theorem key_fileOfByte : (fileOfByte refs).key = .ok .plaintext := rfl

/-- the report on a file of one byte, with the host that stores a byte -/
def checkWithSingle : Except RecoveryError FileHealth :=
  (check Memory.network byteSettings Schedule.byTime (fileOfByte refs)
    (Wire.fresh Memory.Hosts.single)).1

/-- what recovering it from this host comes to -/
def recoverFromSingle : Except RecoveryError RecoveryReport :=
  (Recovery.recover Memory.network byteSettings Run.Orders.byTime (fileOfByte refs)
    (Sink.ofLimit none) (Run.fresh Memory.Hosts.single none)).result

end

/-- what the host that stores a byte says -/
def singleTells : HostKey → Hash256 → Verdict := Memory.tells byteSettings Memory.Hosts.single

theorem single_static : Memory.network.Static byteSettings Memory.Hosts.single singleTells :=
  Memory.static byteSettings Memory.Hosts.single

theorem single_has : Memory.network.Available Memory.Hosts.single singleTells (sectorRoot [7]) :=
  ⟨HostKey.ofBytes [1], by decide, by decide +kernel⟩

theorem single_lacks :
    ¬Memory.network.Available Memory.Hosts.single singleTells (sectorRoot [8]) := by
  rintro ⟨host, hh, hs⟩
  have hh : host ∈ [HostKey.ofBytes [1]] := hh
  rw [List.mem_singleton.1 hh] at hs
  exact absurd hs (by decide +kernel)

theorem recoverable_of_copy {refs : List SectorRef} {host : HostKey}
    (hm : ⟨sectorRoot [7], host⟩ ∈ refs) :
    ∃ health, checkWithSingle refs = .ok health ∧ health.recoverable = true := by
  obtain ⟨s, hs, -, -, hheld, -⟩ := check_report (w := Wire.fresh Memory.Hosts.single)
    single_static Schedule.byTime (validate_fileOfByte refs) (List.cons_ne_nil _ _)
  have hexact : Exact Memory.network Memory.Hosts.single singleTells (fileOfByte refs) s.held :=
    hheld
  refine ⟨_, by rw [checkWithSingle, hs], recoverable_iff.2 fun k hk => ?_⟩
  obtain rfl : k = ⟨[refs]⟩ := List.mem_singleton.1 hk
  have hslot : refs ∈ (⟨[refs]⟩ : Chunk).slots := List.mem_cons_self
  have hserved := (hexact.served_iff hk hslot).2 ⟨_, hm, single_has⟩
  rw [List.countP_singleton, if_pos hserved]
  exact Nat.le_refl 1

theorem recovered_from_single :
    ∃ report, recoverFromSingle [⟨sectorRoot [7], HostKey.ofBytes [1]⟩] = .ok report :=
  ⟨_, Recovery.eq_ok_of_isSome (by decide +kernel)⟩

/-- copies that hosts without a contract are said to keep, the first of a sector that nobody has -/
def elsewhere : List SectorRef :=
  [⟨sectorRoot [8], HostKey.ofBytes [2]⟩, ⟨sectorRoot [7], HostKey.ofBytes [3]⟩]

section
variable (coder : Coder) (key : MasterKey)

theorem gathered_elsewhere :
    (Recovery.gathered Memory.network byteSettings Run.Orders.byTime
      ⟨fileOfByte elsewhere, coder, key⟩ 0 [elsewhere] (Run.fresh Memory.Hosts.single none)).1
      = ⟨[none], 0, [0]⟩ := by
  have hnone : Run.fetchAny Memory.network byteSettings elsewhere
      (Run.fresh Memory.Hosts.single none) = (none, Run.fresh Memory.Hosts.single none) := by
    rw [elsewhere, Run.fetchAny_pass _ _ _ _ (by decide +kernel),
      Run.fetchAny_pass _ _ _ _ (by decide +kernel)]
    rfl
  have hrace : (Run.race Memory.network byteSettings Run.Orders.byTime
      (Recovery.searchRoot [elsewhere] 0) (Run.fresh Memory.Hosts.single none)).1 = none := by
    rw [Option.eq_none_iff_forall_ne_some]
    intro b hb
    have hled := (Run.race_led single_static (Run.led_fresh _ _ _ none) Run.Orders.byTime
      (Recovery.searchRoot [elsewhere] 0)).1
    exact single_lacks (hled.cached _ _ (Run.race_at_hand hb))
  have hfew : ¬(fileOfByte elsewhere).minPieces ≤ 0 := Nat.not_succ_le_zero 0
  have hfirst : Recovery.tryClaims Memory.network byteSettings
      ⟨fileOfByte elsewhere, coder, key⟩ 0 0 [elsewhere] (.none 1)
        (Run.fresh Memory.Hosts.single none)
      = (⟨[none], 0, [0]⟩, Run.fresh Memory.Hosts.single none) := by
    rw [Recovery.tryClaims]
    refine (if_neg hfew).trans ((if_neg (Bool.false_ne_true)).trans ?_)
    simp only [hnone]
    rfl
  have hsecond : (Recovery.search Memory.network byteSettings Run.Orders.byTime
      ⟨fileOfByte elsewhere, coder, key⟩ 0 [elsewhere] [0] ⟨[none], 0, [0]⟩
        (Run.fresh Memory.Hosts.single none)).1 = ⟨[none], 0, [0]⟩ := by
    rw [Recovery.search]
    refine (congrArg Prod.fst (if_neg hfew)).trans ?_
    simp only [hrace]
    rfl
  unfold Recovery.gathered
  have hnum : (fileOfByte elsewhere).numPieces = 1 := rfl
  simp only [hnum, hfirst]
  exact (congrArg Prod.fst (if_pos (Nat.not_le.1 hfew))).trans hsecond

end

theorem not_recovered_from_single :
    recoverFromSingle elsewhere = .error (.unrecoverable 0 0 1) := by
  obtain ⟨coder, hcoder⟩ := (valid_fileOfByte elsewhere).coder
  have hfound := congrArg Recovery.Collected.found (gathered_elsewhere coder .plaintext)
  have hcollect : (Recovery.collect Memory.network byteSettings Run.Orders.byTime
      ⟨fileOfByte elsewhere, coder, .plaintext⟩ 0 [elsewhere]
        (Run.fresh Memory.Hosts.single none)).1 = .error (.unrecoverable 0 0 1) := by
    rw [Recovery.collect_eq, hfound]
    rfl
  rw [recoverFromSingle, Recovery.recover_go _ _ _ _ _ _ (validate_fileOfByte elsewhere) hcoder
    (key_fileOfByte elsewhere) (List.cons_ne_nil _ _)]
  rw [show (fileOfByte elsewhere).chunks = [⟨[elsewhere]⟩] from rfl,
    Recovery.recoverChunks_stop _ _ _ _ _ _ _ _ _ hcollect]
  rfl

theorem recovered_is_recoverable_single :
    ∃ health, checkWithSingle [⟨sectorRoot [7], HostKey.ofBytes [1]⟩] = .ok health
      ∧ health.recoverable = true := by
  obtain ⟨report, h⟩ := recovered_from_single
  exact recovered_is_recoverable Memory.network byteSettings byteSettings Run.Orders.byTime
    Schedule.byTime _ (Sink.ofLimit none) Memory.Hosts.single none singleTells single_static
    single_static report h

/-- a file is found although it is at none of the hosts that are said to keep it -/
theorem recoverable_is_recovered_moved :
    ∃ report, recoverFromSingle
      [⟨sectorRoot [7], HostKey.ofBytes [2]⟩, ⟨sectorRoot [7], HostKey.ofBytes [3]⟩]
        = .ok report := by
  have hcopy : ⟨sectorRoot [7], HostKey.ofBytes [2]⟩ ∈ [(⟨sectorRoot [7], HostKey.ofBytes [2]⟩ :
      SectorRef), ⟨sectorRoot [7], HostKey.ofBytes [3]⟩] := List.mem_cons_self
  obtain ⟨health, hc, hr⟩ := recoverable_of_copy hcopy
  refine recoverable_is_recovered Memory.network byteSettings byteSettings Run.Orders.byTime
    Schedule.byTime _ .plaintext (Sink.ofLimit none) Memory.Hosts.single none singleTells
    single_static single_static (validate_fileOfByte _) (key_fileOfByte _) (Nat.le_refl 1)
    (fun h => by cases h) rfl health hc hr fun e he => .inl fun claims hclaims => ?_
  obtain he : e.1 = _ := List.mem_singleton.1 (List.of_mem_zip he).1
  rw [he] at hclaims
  rw [List.mem_singleton.1 hclaims]
  have hroot : ∀ s ∈ [(⟨sectorRoot [7], HostKey.ofBytes [2]⟩ : SectorRef),
      ⟨sectorRoot [7], HostKey.ofBytes [3]⟩], s.root = sectorRoot [7] := by
    intro s hs
    rcases List.mem_cons.1 hs with rfl | hs
    · rfl
    · rw [List.mem_singleton.1 hs]
  exact fun s hs s' hs' => (hroot s hs).trans (hroot s' hs').symm

/-- the report overstates where the first claimed copy of a piece is of a sector that nobody has -/
theorem recoverable_not_recovered :
    (fileOfByte elsewhere).validate = .ok ()
      ∧ (fileOfByte elsewhere).key = .ok .plaintext
      ∧ (fileOfByte elsewhere).pieceSize.toNat ≤ byteSettings.sectorSize
      ∧ (fileOfByte elsewhere).encoderType ≠ 2
      ∧ Memory.network.Static byteSettings Memory.Hosts.single
          (Memory.tells byteSettings Memory.Hosts.single)
      ∧ (Memory.network.hosts Memory.Hosts.single).Nodup
      ∧ (∃ health, (check Memory.network byteSettings Schedule.byTime (fileOfByte elsewhere)
            (Wire.fresh Memory.Hosts.single)).1 = .ok health ∧ health.recoverable = true)
      ∧ (Recovery.recover Memory.network byteSettings Run.Orders.byTime (fileOfByte elsewhere)
          (Sink.ofLimit none) (Run.fresh Memory.Hosts.single none)).result
            = .error (.unrecoverable 0 0 1) :=
  ⟨validate_fileOfByte _, key_fileOfByte _, Nat.le_refl 1, by decide, single_static, by decide,
    recoverable_of_copy (List.mem_cons_of_mem _ List.mem_cons_self), not_recovered_from_single⟩

end Health

end Reclaim

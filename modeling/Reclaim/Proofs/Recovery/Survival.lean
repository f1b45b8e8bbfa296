import Reclaim.Proofs.Recovery.Integrity

/-!
# A file survives as long as enough of its pieces do

Some hosts are to be relied on (`keep`); what the others do does not matter.

* `Network.Steady`     a host that stays under contract and never denies it;
* `Network.Delivers`   a host that sends a sector in time whenever it is asked for it;
* `recover_survives`   if enough pieces of every chunk are delivered by such hosts, wherever they
                       are said to be, then the file is recovered.
-/

namespace Reclaim

variable {σ : Type}

/-! ## hosts to be relied on -/

/-- whatever is asked of the hosts, and as long as the contracts with those that are not `gone` are
kept, the host is under contract and never answers that it has no record of it -/
structure Network.Steady (n : Network σ) (c : Settings) (gone : HostKey → Prop) (net : σ)
    (host : HostKey) : Prop where
  listed : ∀ s, n.Reach gone net s → host ∈ n.hosts s
  dial : ∀ s, n.Reach gone net s →
    ((n.dial host s).1.within "dial" c.dialLimit).2 ≠ .error .contractMissing
  settings : ∀ s, n.Reach gone net s →
    ((n.settings host s).1.within "settings" c.settingsLimit).2 ≠ .error .contractMissing
  read : ∀ s part cost, n.Reach gone net s →
    ((n.read host [part] cost s).1.within "read" c.readLimit).2 ≠ .error .contractMissing

/-- whatever is asked of the hosts, the host sends this sector in time when asked for its root -/
structure Network.Delivers (n : Network σ) (c : Settings) (gone : HostKey → Prop) (net : σ)
    (host : HostKey) (root : Hash256) (sector : Bytes) : Prop where
  dial : ∀ s, n.Reach gone net s → ((n.dial host s).1.within "dial" c.dialLimit).2 = .ok ()
  settings : ∀ s, n.Reach gone net s →
    ∃ prices, ((n.settings host s).1.within "settings" c.settingsLimit).2 = .ok prices
  read : ∀ s cost, n.Reach gone net s →
    ((n.read host [Exchange.wholeSector c root] cost s).1.within "read" c.readLimit).2 = .ok sector

section
variable {n : Network σ} {c : Settings} {keep : HostKey → Prop} {w : Wire σ}

/-- the states of the hosts while a wire evolves -/
theorem reach_of_evolves {gone : HostKey → Prop} {w' : Wire σ} (h : Wire.Evolves n gone w w') :
    n.Reach gone w.net w'.net := h.reach .refl

theorem spares_of_steady
    (hk : ∀ host, keep host → n.Steady c (fun host => ¬keep host) w.net host) :
    Spares n c (fun host => ¬keep host) w := by
  intro host root
  by_cases h : keep host
  · have hs := hk host h
    exact ⟨fun v hv e => absurd e (hs.dial v.net (reach_of_evolves hv)),
      fun v hv e => absurd e (hs.settings v.net (reach_of_evolves hv)),
      fun v cost hv e => absurd e (hs.read v.net _ cost (reach_of_evolves hv))⟩
  · exact ⟨fun _ _ _ => h, fun _ _ _ => h, fun _ _ _ _ => h⟩

theorem offered_of_delivers {host : HostKey} {root : Hash256} {sector : Bytes}
    (hs : n.Steady c (fun host => ¬keep host) w.net host)
    (hd : n.Delivers c (fun host => ¬keep host) w.net host root sector)
    (hl : sector.length = c.sectorSize) (hr : sectorRoot sector = root) :
    Recovery.Offered n c (fun host => ¬keep host) w root := by
  refine ⟨host, ⟨fun v hv => hd.dial v.net (reach_of_evolves hv),
    fun v hv => hd.settings v.net (reach_of_evolves hv), fun v cost hv => ?_⟩,
    fun v hv => hs.listed v.net (reach_of_evolves hv)⟩
  exact ⟨sector, hd.read v.net cost (reach_of_evolves hv), hl, hr⟩

end

namespace Recovery

open Upload

/-- if enough pieces of every chunk of a stored file are delivered by hosts to be relied on, then a
fresh recovery gives the file, whatever the other hosts do and in whatever order races are run -/
theorem recover_survives (spec : Spec) (data : Bytes) (stored : Stored)
    (hup : upload spec data = .ok stored) (hp : 0 < spec.pieceSize) (n : Network σ) (c : Settings)
    (hsize : c.sectorSize = max spec.sectorSize spec.pieceSize) (orders : Run.Orders) (net : σ)
    (progress : Option Progress) (sink : Sink) (hroom : sink.room = none) (keep : HostKey → Prop)
    (hsteady : ∀ host, keep host → n.Steady c (fun host => ¬keep host) net host)
    (hserved : ∀ chunk < stored.descriptor.chunks.length, ∃ pieces : List Nat, pieces.Nodup
      ∧ spec.data ≤ pieces.length ∧ ∀ i ∈ pieces, ∃ p ∈ stored.placements,
          p.chunk = chunk ∧ p.piece = i ∧ ∃ host, keep host
            ∧ n.Delivers c (fun host => ¬keep host) net host p.root p.sector)
    (hd : DistinctRoots (Held stored
      (recover n c orders stored.descriptor sink (Run.fresh net progress)).run.wire)) :
    (∃ report, (recover n c orders stored.descriptor sink (Run.fresh net progress)).result
        = .ok report)
      ∧ (recover n c orders stored.descriptor sink (Run.fresh net progress)).sink.bytes
          = sink.bytes ++ data := by
  obtain ⟨coder, key, ps, hb⟩ := built_of_upload hup
  have hs : Spares n c (fun host => ¬keep host) (Run.fresh net progress).wire :=
    spares_of_steady hsteady
  have hr := Run.sound_fresh c net progress
  have hoff : ∀ k ∈ stored.descriptor.chunks, ∃ pieces : List Nat, pieces.Nodup
      ∧ stored.descriptor.minPieces ≤ pieces.length ∧ ∀ i ∈ pieces, k.slots.getD i [] ≠ []
        ∧ Offered n c (fun host => ¬keep host) (Run.fresh net progress).wire
            (searchRoot k.slots i) := by
    intro k hk
    obtain ⟨chunk, hchunk⟩ := List.mem_iff_getElem?.1 hk
    obtain ⟨pieces, hn, hmany, hpieces⟩ :=
      hserved chunk (List.getElem?_eq_some_iff.1 hchunk).1
    refine ⟨pieces, hn, ?_, fun i hi => ?_⟩
    · have e : stored.descriptor.minPieces = spec.data :=
        hb.dataPieces_toNat.trans hb.data_eq
      rw [e]
      exact hmany
    · obtain ⟨p, hpm, rfl, rfl, host, hkeep, hdel⟩ := hpieces i hi
      obtain ⟨-, -, -, hroot, k', hk', hslot⟩ := hb.stored_at hp p hpm
      obtain rfl : k' = k := Option.some.inj (hk'.symm.trans hchunk)
      have hget : k'.slots.getD p.piece [] = [⟨p.root, p.host⟩] := by
        rw [List.getD_eq_getElem?_getD, hslot]
        rfl
      have hsearch : searchRoot k'.slots p.piece = p.root := by
        rw [searchRoot, hget]
      refine ⟨by rw [hget]; exact List.cons_ne_nil _ _, ?_⟩
      rw [hsearch]
      exact offered_of_delivers (hsteady host hkeep) hdel
        ((hb.length_sector hp p hpm).trans hsize.symm) hroot.symm
  have hhosts : n.hosts (Run.fresh net progress).wire.net ≠ [] := by
    have hlen := hb.length_chunks hp
    rw [length_cut _ (hb.chunkSize_pos hp)] at hlen
    obtain ⟨pieces, -, hmany, hpieces⟩ := hserved 0 (by omega)
    have hpos := hb.data_pos
    obtain ⟨i, hi⟩ := List.exists_mem_of_length_pos (Nat.lt_of_lt_of_le hpos hmany)
    obtain ⟨-, -, -, -, host, hkeep, -⟩ := hpieces i hi
    exact List.ne_nil_of_mem ((hsteady host hkeep).listed net .refl)
  have hgo := recover_go n c orders stored.descriptor sink (Run.fresh net progress)
    (hb.validate hp) hb.coder_eq hb.key_eq hhosts
  obtain ⟨j, -, hbytes, hall, -⟩ := recover_writes orders hb hp sink hroom _ hs hr hd
  have hok : ∃ report, (recover n c orders stored.descriptor sink (Run.fresh net progress)).result
      = .ok report := by
    rw [hgo, run_reported] at hd
    rw [hgo]
    obtain ⟨w, hw⟩ := recoverChunks_succeeds (hb.wellformed hp) _ _ 0
      (hb.allCode hp (Sent _) (sector_of_sent hb hp hd)) 0 sink hroom _ hs hr
      (fun root b hg => ⟨hg.root, hg.sent⟩) hoff
    exact ok_reported _ _ hw
  obtain ⟨report, hrep⟩ := hok
  refine ⟨⟨report, hrep⟩, ?_⟩
  rw [hbytes, hall report hrep, List.take_length, flatten_cut _ (hb.chunkSize_pos hp)]

/-! ## a small case -/

/-- hosts of which one sends a byte whenever it is read, and the others know no contract -/
def oneServes (server : HostKey) (sector : Bytes) : Network (List HostKey) where
  hosts contracted := contracted
  contract? contracted host :=
    if host ∈ contracted then some ⟨Hash256.ofBytes host.bytes, host, 1⟩ else none
  dial _ s := (.now (.ok ()), s)
  settings _ s := (.now (.ok ⟨1, 1, 1⟩), s)
  read host _ _ s :=
    (.now (if host = server then .ok sector else .error (.rpc contractMissingText)), s)
  removeContract host s := (true, s.filter (· ≠ host))

section
variable {server : HostKey} {sector : Bytes} {c : Settings} {contracted : List HostKey}

theorem within_now {α : Type} (what : String) (limit : Nat) (a : α) :
    ((Reply.now (.ok a)).within what limit).2 = .ok a := by
  unfold Reply.within Reply.now
  exact congrArg Prod.snd (if_neg (Nat.not_lt_zero limit))

theorem oneServes_listed (h : server ∈ contracted) (s : List HostKey)
    (hs : (oneServes server sector).Reach (fun host => ¬host = server) contracted s) :
    server ∈ s := by
  induction hs with
  | refl => exact h
  | dial s host _ ih => exact ih
  | settings s host _ ih => exact ih
  | read s host parts cost _ ih => exact ih
  | remove s host hg _ ih =>
    exact List.mem_filter.2 ⟨ih, decide_eq_true fun e => hg e.symm⟩

theorem oneServes_steady (h : server ∈ contracted) (host : HostKey) (hh : host = server) :
    (oneServes server sector).Steady c (fun host => ¬host = server) contracted host := by
  subst hh
  refine ⟨oneServes_listed h, fun s _ => ?_, fun s _ => ?_, fun s part cost _ => ?_⟩
  · rw [show ((oneServes host sector).dial host s).1 = .now (.ok ()) from rfl, within_now]
    exact fun e => by cases e
  · rw [show ((oneServes host sector).settings host s).1 = .now (.ok ⟨1, 1, 1⟩) from rfl, within_now]
    exact fun e => by cases e
  · rw [show ((oneServes host sector).read host [part] cost s).1 = .now (.ok sector) from
      congrArg Reply.now (if_pos rfl), within_now]
    exact fun e => by cases e

theorem oneServes_delivers (root : Hash256) :
    (oneServes server sector).Delivers c (fun host => ¬host = server) contracted server root
      sector := by
  refine ⟨fun s _ => within_now .., fun s _ => ⟨_, within_now ..⟩, fun s cost _ => ?_⟩
  rw [show ((oneServes server sector).read server [_] cost s).1 = .now (.ok sector) from
    congrArg Reply.now (if_pos rfl), within_now]

end

/-- recovering a byte from two hosts of which the first knows no contract -/
def oneByteSurvives : Outcome (List HostKey) RecoveryReport :=
  recover (oneServes (host 1) [7]) { Settings.standard with sectorSize := 1 } Run.Orders.byTime
    oneByteStored.descriptor (Sink.ofLimit none) (Run.fresh [host 0, host 1] none)

theorem oneByte_placed :
    ∃ p ∈ oneByteStored.placements, p.chunk = 0 ∧ p.piece = 1 ∧ p.sector = [7] := by
  decide +kernel

theorem recover_survives_denied : oneByteSurvives.sink.bytes = [7] := by
  obtain ⟨p, hp, hchunk, hpiece, hsector⟩ := oneByte_placed
  refine (recover_survives oneByte [7] oneByteStored (eq_ok_of_isSome oneByte_isSome) (by decide)
    (oneServes (host 1) [7]) _ rfl Run.Orders.byTime [host 0, host 1] none (Sink.ofLimit none) rfl
    (· = host 1) ?_ ?_ ?_).2
  · exact fun k hk => oneServes_steady (List.mem_cons_of_mem _ List.mem_cons_self) k hk
  · intro chunk hlt
    have hone : oneByteStored.descriptor.chunks.length = 1 := by decide +kernel
    refine ⟨[1], List.nodup_singleton 1, Nat.le_refl 1, fun i hi => ⟨p, hp, ?_, ?_, host 1, rfl, ?_⟩⟩
    · omega
    · rw [hpiece, List.mem_singleton.1 hi]
    · rw [hsector]
      exact oneServes_delivers p.root
  · exact distinctRoots_held _ _ (by decide +kernel)

end Recovery

end Reclaim

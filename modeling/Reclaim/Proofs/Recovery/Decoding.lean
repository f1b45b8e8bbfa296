import Reclaim.Proofs.Erasure.Decoded
import Reclaim.Proofs.Recovery.InOrder
import Reclaim.Proofs.Recovery.Stages

/-!
# Pieces that were collected can be decoded

Sectors that hold a full piece, and for a striped code a piece of whole stripes: then the pieces
that a recovery collects are as many as the coder needs, all of full length, and nothing but the
sink can keep the chunk from being written.

* `count_collected`        as many pieces are collected as are needed, and no more;
* `acceptable_collected`   the coder has no fault to find with them;
* `kept_collected`         they all are pieces of the data that they are decoded to;
* `GetsThrough`            what becomes of a chunk whose pieces were collected;
* `recover_gets_through`   every chunk gets through, whatever the hosts do.
-/

namespace Reclaim

variable {σ : Type}

namespace Recovery

open Run

section
variable {n : Network σ} {c : Settings} {orders : Orders} {t : Target} {chunk : Nat}
  {claims : List (List SectorRef)} {r : Run σ} {slots : Slots}

/-! ## the pieces of one chunk -/

theorem count_collected (hr : r.Sound c) (hlen : claims.length = t.descriptor.numPieces)
    (hc : (collect n c orders t chunk claims r).1 = .ok slots) :
    (slots.filterMap id).length = t.descriptor.minPieces := by
  obtain ⟨hmany, rfl⟩ := collect_eq_ok_iff.1 hc
  have hcount := (gathered_rule orders t chunk (spares_all n c r.wire) hr hlen).2.1.count
  obtain ⟨-, hfound, -⟩ := gathered_eq n c orders t chunk claims r
  rw [hcount]
  refine Nat.le_antisymm ?_ hmany
  rw [hfound]
  exact length_got_le n c orders t claims r

variable (ht : t.Wellformed) (hsize : t.width ≤ c.sectorSize) (hr : r.Sound c)
  (hlen : claims.length = t.descriptor.numPieces)
  (hc : (collect n c orders t chunk claims r).1 = .ok slots)
include ht hsize hr hlen hc

omit ht in
theorem width_collected : ∀ b ∈ slots.filterMap id, b.length = t.width := by
  intro b hb
  rw [length_collected hr hlen hc b hb, Nat.min_eq_left hsize]

omit hsize in
theorem slots_collected : slots.length = t.coder.numPieces := by
  obtain ⟨-, henough, -⟩ := collect_rule orders t chunk (spares_all n c r.wire) hr hlen
  rw [ht.pieces]
  exact (henough slots hc).1

omit hsize in
theorem enough_collected : t.coder.data ≤ (slots.filterMap id).length := by
  rw [ht.data, count_collected hr hlen hc]

theorem acceptable_collected : t.coder.Acceptable slots (t.descriptor.chunkLen chunk) :=
  Coder.acceptable_of_length (slots_collected ht hr hlen hc) (enough_collected ht hr hlen hc)
    (width_collected hsize hr hlen hc) (ht.chunkLen_le chunk) ht.fits.2 fun _ => ht.fits.1

theorem length_decoded_collected : (t.coder.decoded slots).length = t.width * t.coder.data :=
  Coder.length_decoded ht.fits (enough_collected ht hr hlen hc) (width_collected hsize hr hlen hc)

theorem kept_collected :
    Coder.Kept (t.coder.pieces t.width (t.coder.decoded slots)) slots := by
  have hs := slots_collected ht hr hlen hc
  have hk := enough_collected ht hr hlen hc
  have hw := width_collected hsize hr hlen hc
  have hl := length_decoded_collected ht hsize hr hlen hc
  have hall : (Coder.entries slots).take t.coder.data = Coder.entries slots := by
    refine List.take_of_length_le ?_
    rw [Coder.length_entries, count_collected hr hlen hc, ht.data]
  have hfirst := (Coder.decoded_eq_iff ht.fits hs hk hw hl).1 rfl
  rw [hall] at hfirst
  refine Coder.kept_of_getElem? ?_ fun i b hb => hfirst (i, b) (Coder.mem_entries.2 hb)
  rw [hs, Coder.length_pieces]

end

/-! ## one chunk of a recovery -/

/-- the recovery comes to chunk number `i` with enough pieces in `slots`: they are pieces of `data`,
and the file's part of it is written, unless there is too little room -/
structure GetsThrough (n : Network σ) (c : Settings) (orders : Orders) (t : Target) (sink : Sink)
    (r : Run σ) (i : Nat) (slots : Slots) (data : Bytes) : Prop where
  length : data.length = t.descriptor.pieceSize.toNat * t.descriptor.dataPieces.toNat
  count : (slots.filterMap id).length = t.descriptor.dataPieces.toNat
  pieces : ∃ pieces, t.coder.encode data t.descriptor.pieceSize.toNat = .ok pieces
    ∧ Coder.Kept pieces slots
  written : ¬(upTo n c orders t sink r i).sink.Lacks (t.descriptor.chunkLen i) →
    (∃ w, (upTo n c orders t sink r (i + 1)).result = .ok w)
      ∧ (upTo n c orders t sink r (i + 1)).sink.bytes
        = (upTo n c orders t sink r i).sink.bytes ++ data.take (t.descriptor.chunkLen i)
  refused : (upTo n c orders t sink r i).sink.Lacks (t.descriptor.chunkLen i) →
    (upTo n c orders t sink r (i + 1)).result = .error (.erasure .sinkFull)

section
variable {n : Network σ} {c : Settings} {orders : Orders} {t : Target} {sink : Sink} {r : Run σ}
  {i : Nat} {k : Chunk} {slots : Slots}

theorem getsThrough_of_collect (ht : t.Wellformed) (hv : t.descriptor.Valid)
    (hsize : t.width ≤ c.sectorSize) (hr : r.Sound c) (hk : t.descriptor.chunks[i]? = some k)
    (hcomes : ∃ w, (upTo n c orders t sink r i).result = .ok w)
    (hc : (collect n c orders t i k.slots (upTo n c orders t sink r i).run).1 = .ok slots) :
    GetsThrough n c orders t sink r i slots (t.coder.decoded slots) := by
  have hsound := upTo_sound n orders sink hv hr i
  have hlen := hv.slots k (List.mem_of_getElem? hk)
  have hacc := acceptable_collected ht hsize hsound hlen hc
  have hl := length_decoded_collected ht hsize hsound hlen hc
  refine ⟨?_, count_collected hsound hlen hc, ⟨_, Coder.encode_of_length ht.fits hl,
    kept_collected ht hsize hsound hlen hc⟩, fun hroom => ?_, fun hroom => ?_⟩
  · rw [hl, ht.data]
    rfl
  · have hdone : Decodes n c orders t sink r i k slots := ⟨hcomes, hc, (hacc.recover_fits hroom).1⟩
    exact ⟨(hdone.next hk).1, (hdone.fed hk).bytes⟩
  · obtain ⟨w, hw⟩ := hcomes
    exact (upTo_fail hk hw hc (hacc.recover_error_iff.2 ⟨hroom, rfl⟩)).1

theorem sinkFull_of_upTo_error (ht : t.Wellformed) (hv : t.descriptor.Valid)
    (hsize : t.width ≤ c.sectorSize) (hr : r.Sound c) {j : Nat} {e : ErasureError}
    (h : (upTo n c orders t sink r j).result = .error (.erasure e)) :
    e = .sinkFull ∧ sink.Lacks t.descriptor.fileSize.toNat := by
  obtain ⟨i, k, w, hk, hw, hc | ⟨slots, e', hc, hd, he⟩⟩ := upTo_error h
  · obtain ⟨-, he⟩ := collect_eq_error_iff.1 hc
    cases he
  · cases he
    have hi := (List.getElem?_eq_some_iff.1 hk).1
    have hacc := acceptable_collected ht hsize
      (upTo_sound n orders sink hv hr i)
      (hv.slots k (List.mem_of_getElem? hk)) hc
    obtain ⟨hlacks, rfl⟩ := hacc.recover_error_iff.1 hd
    obtain ⟨out, hlen, hfed⟩ := upTo_fed (Nat.le_of_lt hi) hw
    refine ⟨rfl, ((hfed.lacks_iff _).1 hlacks).mono ?_⟩
    rw [hlen, t.descriptor.before_add_chunkLen]
    exact Nat.min_le_left ..

end

/-! ## all chunks -/

/-- if sectors hold a full piece, and a full piece of a striped code is made of whole stripes, then
a recovery never fails in decoding but for want of room in the sink: each chunk that it comes to
and that has enough pieces is decoded, to data that have these pieces, and the file's part of it is
written, to stay -/
theorem recover_gets_through (n : Network σ) (c : Settings) (orders : Orders) (net : σ)
    (p : Option Progress) (r : Run σ) (hr : Later n c (Run.fresh net p) r) (d : Descriptor)
    (hsize : d.pieceSize.toNat ≤ c.sectorSize)
    (haligned : d.encoderType = 2 → d.pieceSize.toNat % stripeWidth = 0) (sink : Sink) :
    (∀ e, (recover n c orders d sink r).result = .error (.erasure e) →
        e = .sinkFull ∧ sink.Lacks d.fileSize.toNat)
      ∧ ∀ t, prepare n d r.wire.net = .ok t →
        recover n c orders d sink r = reported d (upTo n c orders t sink r d.chunks.length)
          ∧ ∀ i k, d.chunks[i]? = some k → (∃ w, (upTo n c orders t sink r i).result = .ok w) →
            ∀ slots,
              (collect n c orders t i k.slots (upTo n c orders t sink r i).run).1 = .ok slots →
              (∃ data, GetsThrough n c orders t sink r i slots data)
                ∧ (upTo n c orders t sink r (i + 1)).sink.bytes
                  <+: (recover n c orders d sink r).sink.bytes := by
  have hsound := later_sound hr (sound_fresh c net p)
  have hrec := recover_eq n c orders d sink r
  cases hp : prepare n d r.wire.net with
  | error e =>
    rw [hp] at hrec
    refine ⟨fun e' he => ?_, fun t ht => (by cases ht)⟩
    rw [hrec] at he
    cases he
    cases unprepared_of_prepare hp
  | ok t =>
    rw [hp] at hrec
    obtain ⟨hvalid, hcoder, -, rfl, -⟩ := prepare_eq_ok_iff.1 hp
    have hv := (Descriptor.validate_eq_ok_iff _).1 hvalid
    have ht := wellformed_target hv hcoder haligned t.key
    have hall : recover n c orders t.descriptor sink r
        = reported t.descriptor (upTo n c orders t sink r t.descriptor.chunks.length) := by
      rw [hrec, upTo_length]
    refine ⟨fun e he => ?_, fun t' ht' => ?_⟩
    · rw [hall] at he
      exact sinkFull_of_upTo_error ht hv hsize hsound (reported_error _ _ he)
    · cases ht'
      refine ⟨hall, fun i k hk hcomes slots hc => ⟨⟨t.coder.decoded slots,
        getsThrough_of_collect ht hv hsize hsound hk hcomes hc⟩, ?_⟩⟩
      rw [hall, sink_reported]
      exact upTo_prefix (List.getElem?_eq_some_iff.1 hk).1

/-! ## stripes -/

/-- the first byte of a sector, as a striped file whose only piece is the whole sector -/
def stripedByte (sector : Bytes) : Descriptor where
  fileSize := 1
  pieceSize := UInt64.ofNat sector.length
  encoderType := 2
  dataPieces := 1
  parityPieces := 0
  masterKey := []
  masterKeyType := CipherKind.plaintext.name
  skylinks := []
  chunks := [⟨[[⟨sectorRoot sector, HostKey.ofBytes [1]⟩]]⟩]

/-- a host that stores the sector -/
def hostOf (sector : Bytes) : Memory.Hosts :=
  (Memory.Hosts.empty.addHost (HostKey.ofBytes [1])).putSector (HostKey.ofBytes [1])
    (sectorRoot sector) sector

def sizedFor (sector : Bytes) : Settings :=
  { Settings.standard with sectorSize := sector.length }

/-- recovering it -/
def stripedRecovered (sector : Bytes) (sink : Sink) : Outcome Memory.Hosts RecoveryReport :=
  recover Memory.network (sizedFor sector) Orders.byTime (stripedByte sector) sink
    (Run.fresh (hostOf sector) none)

/-- a sector of one stripe -/
def stripe : Bytes := List.replicate 64 7

def ofStripe : Target where
  descriptor := stripedByte stripe
  coder := ⟨.striped, (stripedByte stripe).minPieces, (stripedByte stripe).parityPieces.toNat,
    by decide, by decide⟩
  key := .plaintext

/-- without room it is the sink that fails; with room the first byte of the stripe is written -/
theorem recover_gets_through_stripe :
    (stripedByte stripe).pieceSize.toNat ≤ (sizedFor stripe).sectorSize
      ∧ ((stripedByte stripe).encoderType = 2 →
        (stripedByte stripe).pieceSize.toNat % stripeWidth = 0)
      ∧ (stripedRecovered stripe (Sink.ofLimit (some 0))).result = .error (.erasure .sinkFull)
      ∧ (Sink.ofLimit (some 0)).Lacks 1
      ∧ ∃ data piece : Bytes, data.length = 64
        ∧ ofStripe.coder.encode data 64 = .ok [piece]
        ∧ data.take 1 <+: (stripedRecovered stripe (Sink.ofLimit none)).sink.bytes := by
  have hsize : (stripedByte stripe).pieceSize.toNat ≤ (sizedFor stripe).sectorSize := by decide
  have haligned : (stripedByte stripe).encoderType = 2 →
      (stripedByte stripe).pieceSize.toNat % stripeWidth = 0 := fun _ => by decide
  have hresult : (stripedRecovered stripe (Sink.ofLimit (some 0))).result
      = .error (.erasure .sinkFull) := by decide +kernel
  have hfull := (recover_gets_through Memory.network (sizedFor stripe) Orders.byTime
    (hostOf stripe) none _ .refl (stripedByte stripe) hsize haligned (Sink.ofLimit (some 0))).1 _
    hresult
  have hprepare : prepare Memory.network (stripedByte stripe) (hostOf stripe) = .ok ofStripe :=
    prepare_eq_ok_iff.2 ⟨by decide, rfl, by decide, rfl, by decide⟩
  have hc : (collect Memory.network (sizedFor stripe) Orders.byTime ofStripe 0
      [[⟨sectorRoot stripe, HostKey.ofBytes [1]⟩]] (Run.fresh (hostOf stripe) none)).1
      = .ok [some stripe] := by decide +kernel
  obtain ⟨-, hchunks⟩ := (recover_gets_through Memory.network (sizedFor stripe) Orders.byTime
    (hostOf stripe) none _ .refl (stripedByte stripe) hsize haligned (Sink.ofLimit none)).2 _
    hprepare
  obtain ⟨⟨data, hdata⟩, hstays⟩ := hchunks 0 _ rfl ⟨0, rfl⟩ _ hc
  obtain ⟨pieces, hencode, hkept⟩ := hdata.pieces
  obtain ⟨-, hbytes⟩ := hdata.written (Sink.not_lacks rfl _)
  have hone : pieces.length = 1 := hkept.length_eq.symm
  obtain ⟨piece, rfl⟩ := List.length_eq_one_iff.1 hone
  rw [hbytes] at hstays
  exact ⟨hsize, haligned, hresult, hfull.2, data, piece, hdata.length, hencode, hstays⟩

theorem stripe_cut_short :
    (stripedByte [7]).validate = .ok () ∧ (∃ key, (stripedByte [7]).key = .ok key)
      ∧ (stripedByte [7]).pieceSize.toNat ≤ (sizedFor [7]).sectorSize
      ∧ (stripedRecovered [7] (Sink.ofLimit none)).result
        = .error (.erasure (.misalignedLength 1)) :=
  ⟨by decide, ⟨.plaintext, by decide⟩, by decide, by decide +kernel⟩

end Recovery

end Reclaim

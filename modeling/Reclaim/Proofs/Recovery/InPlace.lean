import Reclaim.Proofs.Descriptor.Partition
import Reclaim.Proofs.Recovery.Decoding
import Reclaim.Proofs.Recovery.Integrity

/-!
# Where the bytes of the output come from

A piece is cut to what its sector holds, and the data pieces of a chunk are written one after the
other.  So if sectors are shorter than a piece, the bytes behind the first of them are not the bytes
of the chunk at these places: they come from the next piece.

* `InPlace`              output that stands byte by byte in slots of a certain size;
* `inPlace_decoded`      output stands in place for slots as long as the pieces really are;
* `part`                 what a recovery comes to with one chunk;
* `short_sectors`        a recovery from shorter sectors succeeds with one small chunk only;
* `inPlace_parts_iff`    when all chunks that are decoded are in place for full pieces;
* `recover_in_place`     a recovery that succeeds writes in place exactly if sectors hold a full
                         piece or one of them holds the whole file.
-/

namespace Reclaim

variable {σ : Type}

/-! ## pieces written one after the other -/

/-- every byte of `out` stands in the slots, if slot by slot there are `size` bytes -/
def InPlace (size : Nat) (slots : Slots) (out : Bytes) : Prop :=
  ∀ j < out.length, ∃ b, slots[j / size]? = some (some b) ∧ j % size < b.length
    ∧ out[j]? = b[j % size]?

theorem InPlace.widen {w size : Nat} {slots : Slots} {out : Bytes} (h : InPlace w slots out)
    (hout : out.length ≤ w) (hsize : w ≤ size) : InPlace size slots out := by
  intro j hj
  have hw := h j hj
  rw [Nat.div_eq_of_lt (by omega), Nat.mod_eq_of_lt (by omega)] at hw ⊢
  exact hw

namespace Coder

theorem getElem?_flatten {l : List Bytes} {w : Nat} (hw : ∀ b ∈ l, b.length = w) (hpos : 0 < w)
    {j : Nat} {b : Bytes} (hb : l[j / w]? = some b) : l.flatten[j]? = b[j % w]? := by
  have hi : j / w < l.length := (List.getElem?_eq_some_iff.1 hb).1
  have hcut := getElem?_split l.length w l.flatten (j / w) hi
  rw [split_flatten hw, hb, Option.some_inj] at hcut
  rw [hcut, List.getElem?_take_of_lt (Nat.mod_lt j hpos), List.getElem?_drop, Nat.mul_comm,
    Nat.div_add_mod]

section
variable {c : Coder} {slots : Slots} {n : Nat} (h : c.Acceptable slots n) (hkind : c.kind = .whole)
include h hkind

theorem slot_afterwards {i : Nat} (hi : i < c.data) :
    ∃ b, (c.dataPieces slots)[i]? = some b ∧ (c.afterwards slots)[i]? = some (some b)
      ∧ b.length = pieceLength slots := by
  have hfill := h.fillsIn hkind
  have hlt : i < (c.dataPieces slots).length := by rw [hfill.count]; exact hi
  have hget := List.getElem?_eq_getElem hlt
  refine ⟨_, hget, ?_, hfill.length _ (List.mem_of_getElem? hget)⟩
  rw [← List.getElem?_take_of_lt hi, hfill.data, List.getElem?_map, hget]
  rfl

theorem inPlace_decoded :
    InPlace (pieceLength slots) (c.afterwards slots) ((c.decoded slots).take n) := by
  intro j hj
  rw [h.length_take_decoded] at hj
  have hholds := h.holds
  have hpos : 0 < pieceLength slots := by
    rcases Nat.eq_zero_or_pos (pieceLength slots) with h0 | hpos
    · rw [h0, Nat.zero_mul] at hholds
      omega
    · exact hpos
  have hi : j / pieceLength slots < c.data :=
    Nat.div_lt_of_lt_mul (Nat.lt_of_lt_of_le hj hholds)
  obtain ⟨b, hb, hafter, hlen⟩ := slot_afterwards h hkind hi
  refine ⟨b, hafter, by rw [hlen]; exact Nat.mod_lt j hpos, ?_⟩
  rw [List.getElem?_take_of_lt hj, decoded_whole hkind]
  exact getElem?_flatten (h.fillsIn hkind).length hpos hb

theorem not_inPlace_decoded {size : Nat} (hsize : pieceLength slots < size)
    (hn : pieceLength slots < n) :
    ¬InPlace size (c.afterwards slots) ((c.decoded slots).take n) := by
  intro hplace
  obtain ⟨b, hb, hlt, -⟩ := hplace (pieceLength slots) (by rw [h.length_take_decoded]; exact hn)
  rw [Nat.div_eq_of_lt hsize] at hb
  rw [Nat.mod_eq_of_lt hsize] at hlt
  obtain ⟨b', -, hb', hlen⟩ := slot_afterwards h hkind c.data_pos
  rw [hb', Option.some_inj, Option.some_inj] at hb
  rw [← hb, hlen] at hlt
  exact Nat.lt_irrefl _ hlt

end

end Coder

namespace Recovery

open Run

/-- what a recovery comes to with one chunk: the pieces that were collected, the slots after
decoding, and the bytes that were written -/
structure Part where
  collected : Slots
  slots : Slots
  out : Bytes
deriving DecidableEq

/-- chunk number `i` of a recovery -/
def part (n : Network σ) (c : Settings) (orders : Orders) (t : Target) (sink : Sink) (r : Run σ)
    (i : Nat) : Part :=
  let before := upTo n c orders t sink r i
  let after := upTo n c orders t sink r (i + 1)
  let claims := (t.descriptor.chunks.getD i default).slots
  match (collect n c orders t i claims before.run).1 with
  | .error _ => ⟨[], [], []⟩
  | .ok collected =>
    ⟨collected, (t.coder.recover collected (t.descriptor.chunkLen i) before.sink).slots,
      after.sink.bytes.drop before.sink.bytes.length⟩

section
variable {n : Network σ} {c : Settings} {orders : Orders} {t : Target} {sink : Sink} {r : Run σ}
  {i : Nat} {k : Chunk} {slots : Slots}

theorem part_of_decodes (hk : t.descriptor.chunks[i]? = some k)
    (h : Decodes n c orders t sink r i k slots) :
    part n c orders t sink r i
      = ⟨slots, t.coder.afterwards slots,
          (t.coder.decoded slots).take (t.descriptor.chunkLen i)⟩ := by
  have hget : t.descriptor.chunks.getD i default = k := by
    rw [List.getD_eq_getElem?_getD, hk]
    rfl
  rw [part]
  simp only [hget, h.collects]
  rw [(Coder.acceptable_of_recover_ok h.result).recover_slots, (h.fed hk).bytes,
    List.drop_left]

theorem bytes_upTo {w : UInt64} (hi : i ≤ t.descriptor.chunks.length)
    (h : (upTo n c orders t sink r i).result = .ok w) :
    (upTo n c orders t sink r i).sink.bytes
      = sink.bytes ++ (List.range i).flatMap fun j => (part n c orders t sink r j).out := by
  induction i generalizing w with
  | zero =>
    rw [List.range_zero, List.flatMap_nil, List.append_nil]
    rfl
  | succ i ih =>
    have hk : t.descriptor.chunks[i]? = some t.descriptor.chunks[i] := List.getElem?_eq_getElem hi
    obtain ⟨slots, hdone⟩ := upTo_ok h (Nat.lt_succ_self i) hk
    obtain ⟨w', hw'⟩ := hdone.comes
    rw [(hdone.fed hk).bytes, ih (Nat.le_of_lt hi) hw', List.range_succ, List.flatMap_append,
      List.flatMap_singleton, part_of_decodes hk hdone, List.append_assoc]

/-! ## short sectors -/

theorem Decodes.pieceLength (hv : t.descriptor.Valid) (hr : r.Sound c)
    (hk : t.descriptor.chunks[i]? = some k) (h : Decodes n c orders t sink r i k slots) :
    Coder.pieceLength slots = min t.width c.sectorSize :=
  Coder.pieceLength_of_forall
    (Coder.filterMap_ne_nil (Coder.acceptable_of_recover_ok h.result).enough)
    (length_collected (upTo_sound n orders sink hv hr i) (hv.slots k (List.mem_of_getElem? hk))
      h.collects)

/-- a recovery from sectors that do not hold a full piece succeeds only if there is one chunk, and
what it needs is no more than the sectors hold -/
theorem short_sectors (hv : t.descriptor.Valid) (hdata : t.coder.data = t.descriptor.minPieces)
    (hr : r.Sound c) (hshort : c.sectorSize < t.width)
    (hall : ∀ i k, t.descriptor.chunks[i]? = some k →
      ∃ slots, Decodes n c orders t sink r i k slots) :
    t.descriptor.chunks.length = 1 ∧ t.descriptor.chunkLen 0 = t.descriptor.fileSize.toNat
      ∧ t.descriptor.fileSize.toNat ≤ c.sectorSize * t.descriptor.dataPieces.toNat := by
  have hs := hv.sized
  have hN := hs.expectedChunks_pos
  have hlt : 0 < t.descriptor.chunks.length := hv.count ▸ hN
  have hk : t.descriptor.chunks[0]? = some t.descriptor.chunks[0] := List.getElem?_eq_getElem hlt
  obtain ⟨slots, hdone⟩ := hall 0 _ hk
  have hholds := (Coder.acceptable_of_recover_ok hdone.result).holds
  rw [hdone.pieceLength hv hr hk, Nat.min_eq_right (Nat.le_of_lt hshort), hdata] at hholds
  have hone : t.descriptor.expectedChunks = 1 := by
    by_contra hne
    rw [hs.chunkLen_full (i := 0) (by omega), hs.chunkSize_eq] at hholds
    have hpos : 0 < t.descriptor.dataPieces.toNat :=
      Nat.pos_of_ne_zero fun h0 => hv.dataPieces (UInt32.toNat_inj.1 h0)
    exact Nat.lt_irrefl _ (Nat.lt_of_le_of_lt hholds (Nat.mul_lt_mul_of_pos_right hshort hpos))
  have hlast := hs.chunkLen_last
  rw [hone, Nat.sub_self, Nat.zero_mul, Nat.zero_add] at hlast
  rw [← hlast]
  exact ⟨hv.count.trans hone, rfl, hholds⟩

end

/-! ## all chunks -/

/-- a chunk that a recovery of whole pieces gets through with: as many bytes as belong to it were
written, each of them in place for slots as long as sectors allow -/
structure PartDone (n : Network σ) (c : Settings) (orders : Orders) (t : Target) (sink : Sink)
    (r : Run σ) (i : Nat) (k : Chunk) (p : Part) : Prop where
  decodes : Decodes n c orders t sink r i k p.collected
  slots : (t.coder.recover p.collected (t.descriptor.chunkLen i)
    (upTo n c orders t sink r i).sink).slots = p.slots
  bytes : (upTo n c orders t sink r (i + 1)).sink.bytes
    = (upTo n c orders t sink r i).sink.bytes ++ p.out
  length : p.out.length = t.descriptor.chunkLen i
  place : InPlace (min t.descriptor.pieceSize.toNat c.sectorSize) p.slots p.out

section
variable {n : Network σ} {c : Settings} {orders : Orders} {t : Target} {sink : Sink} {r : Run σ}
  {i : Nat} {k : Chunk} {slots : Slots} (hv : t.descriptor.Valid) (hkind : t.coder.kind = .whole)
  (hr : r.Sound c)
include hv hkind hr

theorem partDone_of_decodes (hk : t.descriptor.chunks[i]? = some k)
    (h : Decodes n c orders t sink r i k slots) :
    PartDone n c orders t sink r i k (part n c orders t sink r i) := by
  have hacc := Coder.acceptable_of_recover_ok h.result
  rw [part_of_decodes hk h]
  refine ⟨h, hacc.recover_slots _, (h.fed hk).bytes, h.length, ?_⟩
  have hplace := Coder.inPlace_decoded hacc hkind
  rw [h.pieceLength hv hr hk] at hplace
  exact hplace

theorem inPlace_part_iff (hshort : c.sectorSize < t.width) (hk : t.descriptor.chunks[i]? = some k)
    (h : Decodes n c orders t sink r i k slots) :
    InPlace t.width (part n c orders t sink r i).slots (part n c orders t sink r i).out
      ↔ t.descriptor.chunkLen i ≤ c.sectorSize := by
  have hacc := Coder.acceptable_of_recover_ok h.result
  have hwidth := h.pieceLength hv hr hk
  rw [Nat.min_eq_right (Nat.le_of_lt hshort)] at hwidth
  rw [part_of_decodes hk h]
  constructor
  · intro hplace
    by_contra hlong
    refine Coder.not_inPlace_decoded hacc hkind ?_ ?_ hplace
    · rw [hwidth]
      exact hshort
    · rw [hwidth]
      exact Nat.lt_of_not_le hlong
  · intro hle
    have hplace := Coder.inPlace_decoded hacc hkind
    rw [hwidth] at hplace
    refine hplace.widen ?_ (Nat.le_of_lt hshort)
    rw [hacc.length_take_decoded]
    exact hle

variable (hdata : t.coder.data = t.descriptor.minPieces)
  (hall : ∀ i k, t.descriptor.chunks[i]? = some k →
    ∃ slots, Decodes n c orders t sink r i k slots)
include hdata hall

/-- when all chunks are decoded, output is in place for full pieces exactly if sectors hold a full
piece or the first sector holds the whole file -/
theorem inPlace_parts_iff :
    (t.width ≤ c.sectorSize ∨ t.descriptor.chunks.length = 1
        ∧ t.descriptor.fileSize.toNat ≤ c.sectorSize * t.descriptor.dataPieces.toNat)
      ∧ ((∀ i < t.descriptor.chunks.length, InPlace t.width (part n c orders t sink r i).slots
            (part n c orders t sink r i).out)
          ↔ t.width ≤ c.sectorSize ∨ t.descriptor.fileSize.toNat ≤ c.sectorSize) := by
  rcases Nat.lt_or_ge c.sectorSize t.width with hshort | hfull
  · obtain ⟨hone, hlen, hfile⟩ := short_sectors hv hdata hr hshort hall
    refine ⟨.inr ⟨hone, hfile⟩, ?_⟩
    rw [or_iff_right (Nat.not_le.2 hshort), ← hlen]
    have hlt : 0 < t.descriptor.chunks.length := hone ▸ Nat.one_pos
    have hk : t.descriptor.chunks[0]? = some t.descriptor.chunks[0] :=
      List.getElem?_eq_getElem hlt
    obtain ⟨slots, h⟩ := hall 0 _ hk
    rw [← inPlace_part_iff hv hkind hr hshort hk h]
    constructor
    · intro hplace
      exact hplace 0 hlt
    · intro hplace i hi
      obtain rfl : i = 0 := by omega
      exact hplace
  · refine ⟨.inl hfull, fun _ => .inl hfull, fun _ i hi => ?_⟩
    have hk := List.getElem?_eq_getElem hi
    obtain ⟨slots, h⟩ := hall i _ hk
    have hle : t.descriptor.pieceSize.toNat ≤ c.sectorSize := hfull
    have hplace := (partDone_of_decodes hv hkind hr hk h).place
    rw [Nat.min_eq_left hle] at hplace
    exact hplace

end

theorem kind_of_type {t : Target} (htype : t.descriptor.encoderType = 1)
    (htag : t.coder.kind.tag = t.descriptor.encoderType.toNat) : t.coder.kind = .whole := by
  rw [htype] at htag
  cases hkind : t.coder.kind with
  | whole => rfl
  | striped =>
    rw [hkind] at htag
    cases htag

/-- a recovery of whole pieces that succeeds has written every chunk in place for slots as long as
sectors allow; if sectors hold a full piece, that is in place for full pieces, and if they do not,
there is one chunk only, no longer than what its sectors hold, and it is in place for full pieces
exactly if the first sector holds the whole file -/
theorem recover_in_place (n : Network σ) (c : Settings) (orders : Orders) (net : σ)
    (p : Option Progress) (r : Run σ) (hr : Later n c (Run.fresh net p) r) (d : Descriptor)
    (htype : d.encoderType = 1) (sink : Sink) (report : RecoveryReport)
    (hok : (recover n c orders d sink r).result = .ok report) :
    ∃ t, prepare n d r.wire.net = .ok t
      ∧ (∀ i k, d.chunks[i]? = some k →
          PartDone n c orders t sink r i k (part n c orders t sink r i))
      ∧ (recover n c orders d sink r).sink.bytes = sink.bytes
          ++ (List.range d.chunks.length).flatMap (fun i => (part n c orders t sink r i).out)
      ∧ (d.pieceSize.toNat ≤ c.sectorSize
          ∨ d.chunks.length = 1 ∧ d.fileSize.toNat ≤ c.sectorSize * d.dataPieces.toNat)
      ∧ ((∀ i < d.chunks.length, InPlace d.pieceSize.toNat (part n c orders t sink r i).slots
            (part n c orders t sink r i).out)
          ↔ d.pieceSize.toNat ≤ c.sectorSize ∨ d.fileSize.toNat ≤ c.sectorSize) := by
  have hsound := later_sound hr (sound_fresh c net p)
  have hrec := recover_eq n c orders d sink r
  cases hp : prepare n d r.wire.net with
  | error e =>
    rw [hrec, hp] at hok
    cases hok
  | ok t =>
    rw [hp] at hrec
    obtain ⟨hvalid, hcoder, -, rfl, -⟩ := prepare_eq_ok_iff.1 hp
    have hv := (Descriptor.validate_eq_ok_iff _).1 hvalid
    obtain ⟨-, htag, hdata, -⟩ := Coder.ofTag_ok hcoder
    have hkind := kind_of_type htype htag
    dsimp only at hrec
    rw [hrec] at hok ⊢
    rw [← upTo_length] at hok ⊢
    obtain ⟨w, hw⟩ := reported_ok _ _ hok
    have hall : ∀ i k, t.descriptor.chunks[i]? = some k →
        ∃ slots, Decodes n c orders t sink r i k slots := fun i k hk =>
      upTo_ok hw (List.getElem?_eq_some_iff.1 hk).1 hk
    refine ⟨t, rfl, fun i k hk => ?_, ?_, inPlace_parts_iff hv hkind hsound hdata hall⟩
    · obtain ⟨slots, h⟩ := hall i k hk
      exact partDone_of_decodes hv hkind hsound hk h
    · rw [sink_reported]
      exact bytes_upTo (Nat.le_refl _) hw

/-! ## two sectors of one byte -/

/-- two bytes in the data pieces of one chunk, each of which has a sector of one byte -/
def twoSectors (pieceSize : UInt64) : Descriptor where
  fileSize := 2
  pieceSize := pieceSize
  encoderType := 1
  dataPieces := 2
  parityPieces := 0
  masterKey := []
  masterKeyType := CipherKind.plaintext.name
  skylinks := []
  chunks := [⟨[[⟨sectorRoot [7], HostKey.ofBytes [1]⟩], [⟨sectorRoot [8], HostKey.ofBytes [1]⟩]]⟩]

def ofTwoSectors (pieceSize : UInt64) : Target :=
  ⟨twoSectors pieceSize, ⟨.whole, 2, 0, by decide, by decide⟩, .plaintext⟩

/-- a host that stores both sectors -/
def bothStored : Memory.Hosts :=
  ((Memory.Hosts.empty.addHost (HostKey.ofBytes [1])).putSector (HostKey.ofBytes [1])
    (sectorRoot [7]) [7]).putSector (HostKey.ofBytes [1]) (sectorRoot [8]) [8]

/-- recovering the two bytes -/
def twoRecovered (pieceSize : UInt64) : Outcome Memory.Hosts RecoveryReport :=
  recover Memory.network Health.byteSettings Orders.byTime (twoSectors pieceSize)
    (Sink.ofLimit none) (Run.fresh bothStored none)

/-- the only chunk of them -/
def twoPart (pieceSize : UInt64) : Part :=
  part Memory.network Health.byteSettings Orders.byTime (ofTwoSectors pieceSize) (Sink.ofLimit none)
    (Run.fresh bothStored none) 0

theorem recover_in_place_two :
    (twoSectors 1).encoderType = 1 ∧ (∃ report, (twoRecovered 1).result = .ok report)
      ∧ InPlace 1 (twoPart 1).slots (twoPart 1).out
      ∧ (twoRecovered 1).sink.bytes = (twoPart 1).out := by
  have hsome : (twoRecovered 1).result.toOption.isSome = true := by decide +kernel
  have hok := eq_ok_of_isSome hsome
  obtain ⟨t, hp, -, hbytes, -, hiff⟩ := recover_in_place Memory.network Health.byteSettings
    Orders.byTime bothStored none _ .refl (twoSectors 1) rfl (Sink.ofLimit none) _ hok
  have hp : prepare Memory.network (twoSectors 1) bothStored = .ok t := hp
  have hprepare : prepare Memory.network (twoSectors 1) bothStored = .ok (ofTwoSectors 1) :=
    prepare_eq_ok_iff.2 ⟨by decide, rfl, by decide, rfl, by decide⟩
  rw [hprepare] at hp
  cases hp
  have hone : List.range (twoSectors 1).chunks.length = [0] := rfl
  rw [hone, List.flatMap_singleton] at hbytes
  exact ⟨rfl, ⟨_, hok⟩, hiff.2 (.inl (by decide)) 0 (by decide), hbytes⟩

theorem second_byte_misplaced :
    (twoSectors 2).validate = .ok () ∧ (∃ report, (twoRecovered 2).result = .ok report)
      ∧ prepare Memory.network (twoSectors 2) bothStored = .ok (ofTwoSectors 2)
      ∧ (twoRecovered 2).sink.bytes = [7, 8]
      ∧ twoPart 2 = ⟨[some [7], some [8]], [some [7], some [8]], [7, 8]⟩
      ∧ ¬InPlace 2 (twoPart 2).slots (twoPart 2).out := by
  have hsome : (twoRecovered 2).result.toOption.isSome = true := by decide +kernel
  have hpart : twoPart 2 = ⟨[some [7], some [8]], [some [7], some [8]], [7, 8]⟩ := by
    decide +kernel
  refine ⟨by decide, ⟨_, eq_ok_of_isSome hsome⟩,
    prepare_eq_ok_iff.2 ⟨by decide, rfl, by decide, rfl, by decide⟩, by decide +kernel, hpart,
    fun hplace => ?_⟩
  rw [hpart] at hplace
  obtain ⟨b, hb, hlt, -⟩ := hplace 1 (by decide)
  cases hb
  exact absurd hlt (by decide)

end Recovery

end Reclaim

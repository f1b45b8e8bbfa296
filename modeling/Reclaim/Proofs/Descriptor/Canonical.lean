import Mathlib.Data.List.Perm.Subperm
import Reclaim.Proofs.Descriptor.Layout

/-!
# What the reader accepts can be written again

A byte string may keep its tables anywhere and leave them ragged.  The descriptor it gives satisfies
every condition on descriptors all the same, so that it has an image, and this image is the one
canonical spelling of everything the byte string says.

* `length_refs_chunk`   a chunk has no more copies than its record;
* `Describes.valid`     what a header and its tables describe can be used;
* `Describes.hosts_le`  every host has a place of four bytes;
* `Layout.chunks_le`    the records begin in different pages of the byte string;
* `ofImage_usable`      all of it, and the image of the image is the image.
-/

namespace Reclaim

/-! ## copies of a record -/

namespace ChunkRecord

section
variable {α : Type} (f : α → Nat) (l : List α) (n : Nat)

theorem length_filter_lt_succ : (l.filter fun a => f a < n + 1).length =
    (l.filter fun a => f a < n).length + (l.filter fun a => f a = n).length := by
  induction l with
  | nil => rfl
  | cons a l ih =>
    simp only [List.filter_cons, decide_eq_true_eq]
    rcases Nat.lt_trichotomy (f a) n with hlt | heq | hgt
    · rw [if_pos (by omega), if_pos hlt, if_neg (by omega), List.length_cons, List.length_cons, ih]
      omega
    · rw [if_pos (by omega), if_neg (by omega), if_pos heq, List.length_cons, List.length_cons, ih]
      omega
    · rw [if_neg (by omega), if_neg (by omega), if_neg (by omega), ih]

/-- elements sorted by their values below `n` -/
theorem length_flatMap_filter : ((List.range n).flatMap fun p => l.filter fun a => f a = p).length =
    (l.filter fun a => f a < n).length := by
  induction n with
  | zero => simp
  | succ n ih =>
    rw [List.range_succ, List.flatMap_append, List.length_append, ih, List.flatMap_singleton,
      length_filter_lt_succ]

end

theorem length_refs_chunk (entry : Nat → Bytes) (numPieces : Nat) (record : Bytes) :
    (chunk entry numPieces record).refs.length ≤ count record := by
  have hrefs : (chunk entry numPieces record).refs =
      ((List.range numPieces).flatMap fun p =>
        (List.range (count record)).filter fun n => piece (entryAt record n) = p).map fun n =>
          copy entry (entryAt record n) := by
    rw [List.map_flatMap, List.flatMap_def]
    rfl
  rw [hrefs, List.length_map, length_flatMap_filter]
  exact Nat.le_trans (List.length_filter_le _ _) (Nat.le_of_eq List.length_range)

theorem mem_refs_chunk {entry : Nat → Bytes} {numPieces : Nat} {record : Bytes} {r : SectorRef}
    (hr : r ∈ (chunk entry numPieces record).refs) :
    ∃ n < count record, r = copy entry (entryAt record n) := by
  obtain ⟨slot, hslot, hr⟩ := List.mem_flatten.1 hr
  obtain ⟨p, _, rfl⟩ := List.mem_map.1 hslot
  obtain ⟨n, hn, rfl⟩ := List.mem_map.1 hr
  exact ⟨n, List.mem_range.1 (List.mem_filter.1 hn).1, rfl⟩

theorem place_lt (e : Bytes) : place e < Topology.bound32 := Bytes.leNat_take_lt 4 _

end ChunkRecord

/-! ## descriptors that are described -/

section
variable {b : Bytes} {h : Header} {d : Descriptor}

theorem Layout.chunks_le (hl : Layout b h) : h.chunks ≤ (b.length + 4095) / 4096 := by
  have hlast := hl.lastRecord
  omega

theorem Describes.mem_chunks (hd : Describes b h d) {c : Chunk} (hc : c ∈ d.chunks) :
    ∃ i < h.chunks, c = ChunkRecord.chunk (h.host b) h.pieces (h.record b i) := by
  rw [hd.chunks, Header.chunkList] at hc
  obtain ⟨i, hi, rfl⟩ := List.mem_map.1 hc
  exact ⟨i, List.mem_range.1 hi, rfl⟩

theorem Describes.length_chunks (hd : Describes b h d) : d.chunks.length = h.chunks := by
  rw [hd.chunks, Header.chunkList, List.length_map, List.length_range]

theorem Describes.valid (hl : Layout b h) (hd : Describes b h d) : d.Valid := by
  have hdata : d.dataPieces ≠ 0 := by
    intro hzero
    have := hl.data
    rw [← hd.numbers.dataPieces, hzero] at this
    exact absurd this (by decide)
  have hpiece : d.pieceSize ≠ 0 := by
    intro hzero
    have := hl.pieceSize
    rw [← hd.numbers.pieceSize, hzero] at this
    exact absurd this (by decide)
  obtain ⟨herasure, hsize⟩ :=
    hd.numbers.checks_eq_ok_iff.2 ⟨⟨hl.tag, hl.data, hl.pieces⟩, hl.chunkSize⟩
  refine ⟨hdata, hpiece, (Descriptor.checkErasure_eq_ok_iff d).1 herasure,
    (Descriptor.checkedChunkSize_eq_ok_iff d).1 hsize, ?_, fun c hc => ?_⟩
  · rw [hd.length_chunks, hd.numbers.expectedChunks hl.pieceSize hl.data hl.chunkSize]
  · obtain ⟨i, _, rfl⟩ := hd.mem_chunks hc
    rw [hd.numbers.numPieces, ChunkRecord.chunk, List.length_map, List.length_range]

theorem Describes.refs_le (hl : Layout b h) (hd : Describes b h d) :
    ∀ c ∈ d.chunks, c.refs.length ≤ ChunkRecord.maxRefs := by
  intro c hc
  obtain ⟨i, hi, rfl⟩ := hd.mem_chunks hc
  exact Nat.le_trans (ChunkRecord.length_refs_chunk _ _ _) (hl.records i hi).count_le

/-- the hosts are among the entries whose places can be written, and none of them occurs twice -/
theorem Describes.hosts_le (hd : Describes b h d) : d.hosts.length ≤ Topology.bound32 := by
  have hsub : d.hosts ⊆ (List.range Topology.bound32).map fun j => HostTable.key (h.host b j) := by
    intro k hk
    obtain ⟨c, hc, r, hr, rfl⟩ := (Descriptor.mem_hosts d k).1 hk
    obtain ⟨i, _, rfl⟩ := hd.mem_chunks hc
    obtain ⟨n, _, rfl⟩ := ChunkRecord.mem_refs_chunk hr
    exact List.mem_map.2 ⟨_, List.mem_range.2 (ChunkRecord.place_lt _), rfl⟩
  have hle := ((Descriptor.nodup_firstSeen _).subperm hsub).length_le
  rwa [List.length_map, List.length_range] at hle

end

/-! ## the canonical spelling -/

namespace Descriptor

open Image

/-- the image of the descriptor of a byte string, if it is one -/
def recode? (b : Bytes) : Option Bytes := (ofImage b).toOption.bind fun d => d.toImage.toOption

theorem recode?_eq_some {b img : Bytes} {d : Descriptor} (h : ofImage b = .ok d)
    (himg : d.toImage = .ok img) : recode? b = some img := by
  rw [recode?, h]
  show d.toImage.toOption = _
  rw [himg]
  rfl

/-- Whatever the reader accepts can be used and written.  It has no more chunks than the byte string
has pages, whatever size it claims.  The image gives the descriptor back, so that it is its own
image. -/
theorem ofImage_usable {b : Bytes} {d : Descriptor} (h : ofImage b = .ok d) :
    d.validate = .ok () ∧ (∀ c ∈ d.chunks, c.refs.length ≤ 101) ∧
      d.chunks.length ≤ (b.length + 4095) / 4096 ∧
      ∃ img, d.toImage = .ok img ∧ recode? b = some img ∧
        (img.length < Header.bound63 → ofImage img = .ok d ∧ recode? img = some img) := by
  obtain ⟨header, hl, hd⟩ := (ofImage_eq_ok_iff b d).1 h
  have hv := hd.valid hl
  have hrefs := hd.refs_le hl
  have hvalid := (validate_eq_ok_iff d).2 hv
  have himage : d.toImage = .ok (written d) := (toImage_eq_ok_iff d _).2 ⟨hvalid, hrefs, rfl⟩
  refine ⟨hvalid, hrefs, hd.length_chunks ▸ hl.chunks_le, written d, himage,
    recode?_eq_some h himage, fun hlen => ?_⟩
  have hstart : chunkStart d < Header.bound63 := Nat.lt_of_le_of_lt (length_written d) hlen
  have hback : ofImage (written d) = .ok d := by
    rw [ofImage_written hv hrefs hstart, (kept_eq_iff d).2 hd.hosts_le]
  exact ⟨hback, recode?_eq_some hback himage⟩

/-- a header without names, an unused entry, a byte too much and a record cut short -/
def ragged : Bytes :=
  utf8 "[1,4,48,163,[0,0,0,1],[1,0,0,0,1,0,0,0]]and more" ++ List.replicate 57 0 ++
    HostKey.algorithm ++ [0, 1, 2, 3, 4, 5, 6, 7, 8] ++ Bytes.le 8 32 ++ List.replicate 32 7 ++
    [0, 255] ++ List.replicate 17 9 ++ Bytes.le 2 1 ++ Bytes.le 4 1 ++ Bytes.le 4 1 ++
    List.replicate 31 3

def raggedOne : Descriptor where
  fileSize := 1
  pieceSize := 4
  encoderType := 1
  dataPieces := 1
  parityPieces := 1
  masterKey := []
  masterKeyType := "plaintext"
  skylinks := []
  chunks :=
    [⟨[[], [⟨Hash256.ofBytes (List.replicate 31 3), HostKey.ofBytes (List.replicate 32 7)⟩]]⟩]

theorem ofImage_usable_ragged : ofImage ragged = .ok raggedOne ∧ raggedOne.validate = .ok () ∧
    ∃ img, raggedOne.toImage = .ok img ∧ img ≠ ragged ∧ ofImage img = .ok raggedOne ∧
      recode? img = some img := by
  have h : ofImage ragged = .ok raggedOne := by decide +kernel
  obtain ⟨hv, _, _, img, himg, _, hback⟩ := ofImage_usable h
  obtain ⟨_, _, hwritten⟩ := (toImage_eq_ok_iff raggedOne img).1 himg
  have hlen : img.length < Header.bound63 := by
    rw [hwritten]
    decide +kernel
  have hne : img ≠ ragged := by
    rw [hwritten]
    decide +kernel
  exact ⟨h, hv, img, himg, hne, hback hlen⟩

end Descriptor

end Reclaim

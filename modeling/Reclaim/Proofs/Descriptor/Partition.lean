import Mathlib.Algebra.BigOperators.Group.Finset.Basic
import Reclaim.Proofs.Descriptor.Validate

/-!
# The chunks as a partition of the file

A chunk is the part of the file between the start of it and the start of the next, so the lengths
telescope: those of the first `n` chunks are `before n` together.  What is left is where `before`
stops growing by full chunks, which `Sized.before_of_lt` and `Sized.before_of_le` say.

* `sum_chunkLen`            the lengths of the first chunks together;
* `Sized.chunkLen_last`     the last chunk ends where the file ends;
* `chunkLen_partition`      the chunks cut the file up, and no product of a number and the size of
                            a chunk reaches what 64 bits do not hold.
-/

namespace Reclaim

namespace Descriptor

open Finset

theorem sum_chunkLen (d : Descriptor) (n : Nat) : ∑ i ∈ range n, d.chunkLen i = d.before n := by
  induction n with
  | zero => exact d.before_zero.symm
  | succ n ih => rw [sum_range_succ, ih, before_add_chunkLen]

theorem chunkLen_le (d : Descriptor) (i : Nat) : d.chunkLen i ≤ d.chunkSize := Nat.min_le_right ..

theorem Sized.expectedChunks_pos {d : Descriptor} (hs : d.Sized) : 0 < d.expectedChunks := by
  rw [hs.expectedChunks_eq]
  omega

theorem Sized.start_lt_bound {d : Descriptor} (hs : d.Sized) {i : Nat} (hi : i < d.expectedChunks) :
    i * d.chunkSize < bound64 := by
  have hlt : d.fileSize.toNat < bound64 := d.fileSize.toNat_lt
  rw [← hs.before_of_lt hi]
  exact Nat.lt_of_le_of_lt (Nat.min_le_left ..) hlt

theorem Sized.chunkLen_full {d : Descriptor} (hs : d.Sized) {i : Nat}
    (hi : i + 1 < d.expectedChunks) : d.chunkLen i = d.chunkSize := by
  have h := d.before_add_chunkLen i
  rw [hs.before_of_lt (Nat.lt_of_succ_lt hi), hs.before_of_lt hi, Nat.succ_mul] at h
  omega

theorem Sized.chunkLen_last {d : Descriptor} (hs : d.Sized) :
    (d.expectedChunks - 1) * d.chunkSize + d.chunkLen (d.expectedChunks - 1)
      = d.fileSize.toNat := by
  have hpos := hs.expectedChunks_pos
  have h := d.before_add_chunkLen (d.expectedChunks - 1)
  rw [Nat.sub_add_cancel hpos, hs.before_of_le (Nat.le_refl _),
    hs.before_of_lt (Nat.sub_lt hpos Nat.one_pos)] at h
  exact h

/-- the last chunk of a file that is not empty is not empty either: it starts inside the file -/
theorem Sized.chunkLen_last_pos {d : Descriptor} (hs : d.Sized) (hfile : 0 < d.fileSize.toNat) :
    0 < d.chunkLen (d.expectedChunks - 1) := by
  have hpos := hs.expectedChunks_pos
  have hlast := hs.chunkLen_last
  rcases Nat.eq_zero_or_pos (d.expectedChunks - 1) with h0 | h0
  · rw [h0, Nat.zero_mul] at hlast
    rw [h0]
    omega
  · have := hs.start_lt h0 (Nat.sub_lt hpos Nat.one_pos)
    omega

theorem Sized.chunkLen_after {d : Descriptor} (hs : d.Sized) {i : Nat}
    (hi : d.expectedChunks ≤ i) : d.chunkLen i = 0 := by
  have h := d.before_add_chunkLen i
  rw [hs.before_of_le hi, hs.before_of_le (Nat.le_succ_of_le hi)] at h
  omega

/-- Chunks of a size that 64 bits hold partition every file: there is one at least, each starts
where no product is cut, all but the last are full, the last is not empty unless the file is, there
is nothing after it, and their lengths add up to the size of the file. -/
theorem chunkLen_partition (d : Descriptor) (hdata : 1 ≤ d.dataPieces.toNat)
    (hpiece : 1 ≤ d.pieceSize.toNat) (hsize : d.pieceSize.toNat * d.dataPieces.toNat < bound64) :
    1 ≤ d.expectedChunks ∧ d.expectedChunks < bound64 ∧
      d.chunkSize = d.pieceSize.toNat * d.dataPieces.toNat ∧
      (∀ i < d.expectedChunks, i * d.chunkSize < bound64) ∧
      (∀ i, i + 1 < d.expectedChunks → d.chunkLen i = d.chunkSize) ∧
      (d.fileSize ≠ 0 → 0 < d.chunkLen (d.expectedChunks - 1)) ∧
      d.chunkLen (d.expectedChunks - 1) ≤ d.chunkSize ∧
      (∀ i, d.expectedChunks ≤ i → d.chunkLen i = 0) ∧
      ∑ i ∈ range d.expectedChunks, d.chunkLen i = d.fileSize.toNat := by
  have hs : d.Sized :=
    ⟨fun h => by rw [h] at hdata; exact absurd hdata (by decide),
      fun h => by rw [h] at hpiece; exact absurd hpiece (by decide), hsize⟩
  refine ⟨hs.expectedChunks_pos, hs.expectedChunks_lt, hs.chunkSize_eq,
    fun i hi => hs.start_lt_bound hi, fun i hi => hs.chunkLen_full hi, fun hfile => ?_,
    d.chunkLen_le _, fun i hi => hs.chunkLen_after hi, ?_⟩
  · exact hs.chunkLen_last_pos (Nat.pos_of_ne_zero fun h => hfile (UInt64.toNat_inj.1 h))
  · rw [sum_chunkLen, hs.before_of_le (Nat.le_refl _)]

/-- the largest file, in chunks of three quarters of what 64 bits hold: there are two, and a third
would start where they end -/
def widest : Descriptor where
  fileSize := 18446744073709551615
  pieceSize := 4611686018427387904
  encoderType := 1
  dataPieces := 3
  parityPieces := 1
  masterKey := []
  masterKeyType := ""
  skylinks := []
  chunks := []

theorem chunkLen_partition_widest :
    1 ≤ widest.dataPieces.toNat ∧ 1 ≤ widest.pieceSize.toNat ∧
      widest.pieceSize.toNat * widest.dataPieces.toNat < bound64 ∧ widest.expectedChunks = 2 ∧
      widest.chunkLen 0 = 13835058055282163712 ∧ widest.chunkLen 1 = 4611686018427387903 ∧
      ∑ i ∈ range widest.expectedChunks, widest.chunkLen i = 18446744073709551615 := by
  have hdata : 1 ≤ widest.dataPieces.toNat := by decide
  have hpiece : 1 ≤ widest.pieceSize.toNat := by decide
  have hsize : widest.pieceSize.toNat * widest.dataPieces.toNat < bound64 := by decide
  refine ⟨hdata, hpiece, hsize, by decide, by decide, by decide, ?_⟩
  obtain ⟨-, -, -, -, -, -, -, -, hsum⟩ := chunkLen_partition widest hdata hpiece hsize
  exact hsum

end Descriptor

end Reclaim

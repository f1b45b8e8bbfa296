import Mathlib.Logic.Basic
import Reclaim.Descriptor.Basic

/-!
# Descriptors that can be used

* `Coder.ofTag_ok`         the coder of a type tag and two numbers has these parameters;
* `coder_isOk_iff`         the type tags and numbers that make a coder;
* `Descriptor.Valid`       the conditions on a descriptor, all at once;
* `validate_eq_ok_iff`     a descriptor passes if and only if it satisfies them;
* `Descriptor.before`      the bytes of the file before each chunk: full chunks before each chunk
                           there is (`Sized.before_of_lt`), the whole file after the last
                           (`Sized.before_of_le`).
-/

namespace Reclaim

namespace Coder

theorem make_ok {kind : ErasureKind} {data parity : Nat} {c : Coder}
    (h : make kind data parity = .ok c) : c.kind = kind ∧ c.data = data ∧ c.parity = parity := by
  unfold make at h
  split at h
  · cases h
    exact ⟨rfl, rfl, rfl⟩
  · cases h

theorem tag_of_ofTag {tag : Nat} {kind : ErasureKind} (h : ErasureKind.ofTag tag = .ok kind) :
    kind.tag = tag := by
  unfold ErasureKind.ofTag at h
  split at h
  · next ht =>
    cases h
    exact ht.symm
  · split at h
    · next ht =>
      cases h
      exact ht.symm
    · cases h

theorem ofTag_ok {tag data parity : Nat} {c : Coder} (h : ofTag tag data parity = .ok c) :
    ErasureKind.ofTag tag = .ok c.kind ∧ c.kind.tag = tag ∧ c.data = data ∧ c.parity = parity := by
  unfold ofTag at h
  split at h
  · cases h
  · next kind hkind =>
    obtain ⟨hk, hd, hp⟩ := make_ok h
    subst hk
    exact ⟨hkind, tag_of_ofTag hkind, hd, hp⟩

end Coder

theorem ErasureKind.ofTag_isOk_iff (tag : Nat) :
    (∃ kind, ErasureKind.ofTag tag = .ok kind) ↔ tag = 1 ∨ tag = 2 := by
  constructor
  · rintro ⟨kind, h⟩
    rw [← Coder.tag_of_ofTag h]
    cases kind with
    | whole => exact .inl rfl
    | striped => exact .inr rfl
  · rintro (rfl | rfl)
    · exact ⟨_, rfl⟩
    · exact ⟨_, rfl⟩

namespace Descriptor

theorem coder_isOk_iff (d : Descriptor) : (∃ c, d.coder = .ok c) ↔
    (d.encoderType.toNat = 1 ∨ d.encoderType.toNat = 2) ∧ 0 < d.dataPieces.toNat ∧
      d.numPieces ≤ 256 := by
  rw [← ErasureKind.ofTag_isOk_iff]
  constructor
  · rintro ⟨c, hc⟩
    obtain ⟨hkind, _, hdata, hparity⟩ := Coder.ofTag_ok hc
    have hpos := c.data_pos
    have hle := c.pieces_le
    rw [hdata] at hpos
    rw [hdata, hparity] at hle
    exact ⟨⟨c.kind, hkind⟩, hpos, hle⟩
  · rintro ⟨⟨kind, hkind⟩, hpos, hle⟩
    refine ⟨⟨kind, d.dataPieces.toNat, d.parityPieces.toNat, hpos, hle⟩, ?_⟩
    rw [coder, Coder.ofTag, hkind]
    exact dif_pos ⟨hpos, hle⟩

/-- the number of chunks, when 64 bits hold the size of a chunk -/
theorem expectedChunks_eq {d : Descriptor} {size : Nat} (hpos : 0 < size)
    (hsize : d.pieceSize.toNat * d.dataPieces.toNat = size) (hlt : size < bound64) :
    d.expectedChunks = max 1 ((d.fileSize.toNat + size - 1) / size) := by
  have hchunk : d.chunkSize = size := by
    rw [chunkSize, hsize]
    omega
  rw [expectedChunks, hchunk, if_neg (Nat.ne_of_gt hpos)]

/-- the conditions on a descriptor -/
structure Valid (d : Descriptor) : Prop where
  dataPieces : d.dataPieces ≠ 0
  pieceSize : d.pieceSize ≠ 0
  coder : ∃ c, d.coder = .ok c
  size : d.pieceSize.toNat * d.dataPieces.toNat < bound64
  count : d.chunks.length = d.expectedChunks
  slots : ∀ k ∈ d.chunks, k.slots.length = d.numPieces

theorem checkSlots_eq_ok_iff (expected i : Nat) (ks : List Chunk) :
    checkSlots expected i ks = .ok () ↔ ∀ k ∈ ks, k.slots.length = expected := by
  induction ks generalizing i with
  | nil => exact ⟨fun _ k hk => absurd hk List.not_mem_nil, fun _ => rfl⟩
  | cons k ks ih =>
    rw [checkSlots]
    by_cases h : k.slots.length = expected
    · rw [if_neg (not_not.2 h), ih, List.forall_mem_cons]
      exact ⟨fun h' => ⟨h, h'⟩, fun h' => h'.2⟩
    · rw [if_pos h, List.forall_mem_cons]
      exact ⟨fun h' => (by cases h'), fun h' => absurd h'.1 h⟩

theorem checkErasure_eq_ok_iff (d : Descriptor) :
    d.checkErasure = .ok () ↔ ∃ c, d.coder = .ok c := by
  unfold checkErasure
  cases d.coder with
  | ok c => exact ⟨fun _ => ⟨c, rfl⟩, fun _ => rfl⟩
  | error e =>
    refine ⟨fun h => ?_, fun ⟨c, h⟩ => (by cases h)⟩
    cases e <;> cases h

theorem checkedChunkSize_eq_ok_iff (d : Descriptor) :
    (∃ size, d.checkedChunkSize = .ok size) ↔ d.pieceSize.toNat * d.dataPieces.toNat < bound64 := by
  unfold checkedChunkSize
  split
  · next h => exact ⟨fun _ => h, fun _ => ⟨_, rfl⟩⟩
  · next h => exact ⟨fun ⟨_, h'⟩ => (by cases h'), fun h' => absurd h' h⟩

theorem validate_eq_ok_iff (d : Descriptor) : d.validate = .ok () ↔ d.Valid := by
  unfold validate
  constructor
  · intro h
    split at h
    · cases h
    · next hdata =>
      split at h
      · cases h
      · next hpiece =>
        split at h
        · cases h
        · next herasure =>
          split at h
          · cases h
          · next size hsize =>
            split at h
            · cases h
            · next hcount =>
              exact ⟨hdata, hpiece, (checkErasure_eq_ok_iff d).1 herasure,
                (checkedChunkSize_eq_ok_iff d).1 ⟨size, hsize⟩, not_not.1 hcount,
                (checkSlots_eq_ok_iff _ _ _).1 h⟩
  · intro h
    obtain ⟨size, hsize⟩ := (checkedChunkSize_eq_ok_iff d).2 h.size
    rw [if_neg h.dataPieces, if_neg h.pieceSize, (checkErasure_eq_ok_iff d).2 h.coder, hsize]
    simp only
    rw [if_neg (not_not.2 h.count)]
    exact (checkSlots_eq_ok_iff _ _ _).2 h.slots

theorem Valid.numPieces_le {d : Descriptor} (hv : d.Valid) : d.numPieces ≤ 256 := by
  obtain ⟨c, hc⟩ := hv.coder
  obtain ⟨_, _, hd, hp⟩ := Coder.ofTag_ok hc
  have h := c.pieces_le
  rw [hd, hp] at h
  exact h

/-! ## the bytes of each chunk -/

/-- the bytes of the file before chunk number `i` -/
def before (d : Descriptor) (i : Nat) : Nat := min d.fileSize.toNat (i * d.chunkSize)

theorem before_zero (d : Descriptor) : d.before 0 = 0 := by
  rw [before, Nat.zero_mul, Nat.min_zero]

theorem before_add_chunkLen (d : Descriptor) (i : Nat) :
    d.before i + d.chunkLen i = d.before (i + 1) := by
  have hlt : d.fileSize.toNat < bound64 := d.fileSize.toNat_lt
  rw [before, before, chunkLen, Nat.succ_mul]
  omega

/-- the sizes of pieces and chunks, of which 64 bits hold the larger -/
structure Sized (d : Descriptor) : Prop where
  dataPieces : d.dataPieces ≠ 0
  pieceSize : d.pieceSize ≠ 0
  size : d.pieceSize.toNat * d.dataPieces.toNat < bound64

theorem Sized.chunkSize_eq {d : Descriptor} (hs : d.Sized) :
    d.chunkSize = d.pieceSize.toNat * d.dataPieces.toNat := by
  have hsize := hs.size
  rw [chunkSize]
  omega

theorem Sized.chunkSize_pos {d : Descriptor} (hs : d.Sized) : 0 < d.chunkSize := by
  rw [hs.chunkSize_eq]
  have hpiece : d.pieceSize.toNat ≠ 0 := fun h => hs.pieceSize (UInt64.toNat_inj.1 h)
  have hdata : d.dataPieces.toNat ≠ 0 := fun h => hs.dataPieces (UInt32.toNat_inj.1 h)
  exact Nat.mul_pos (Nat.pos_of_ne_zero hpiece) (Nat.pos_of_ne_zero hdata)

theorem Sized.expectedChunks_eq {d : Descriptor} (hs : d.Sized) :
    d.expectedChunks = max 1 ((d.fileSize.toNat + d.chunkSize - 1) / d.chunkSize) :=
  Descriptor.expectedChunks_eq hs.chunkSize_pos hs.chunkSize_eq.symm (by
    rw [hs.chunkSize_eq]
    exact hs.size)

theorem Sized.start_lt {d : Descriptor} (hs : d.Sized) {i : Nat} (h0 : 0 < i)
    (hi : i < d.expectedChunks) : i * d.chunkSize < d.fileSize.toNat := by
  have hpos := hs.chunkSize_pos
  rw [hs.expectedChunks_eq] at hi
  have hle : i + 1 ≤ (d.fileSize.toNat + d.chunkSize - 1) / d.chunkSize := by omega
  have := (Nat.le_div_iff_mul_le hpos).1 hle
  rw [Nat.succ_mul] at this
  omega

/-- before every chunk there are full chunks only -/
theorem Sized.before_of_lt {d : Descriptor} (hs : d.Sized) {i : Nat}
    (hi : i < d.expectedChunks) : d.before i = i * d.chunkSize := by
  refine Nat.min_eq_right ?_
  rcases Nat.eq_zero_or_pos i with rfl | h0
  · rw [Nat.zero_mul]
    exact Nat.zero_le _
  · exact Nat.le_of_lt (hs.start_lt h0 hi)

/-- the chunks hold the whole file, and those after them nothing -/
theorem Sized.before_of_le {d : Descriptor} (hs : d.Sized) {i : Nat}
    (hi : d.expectedChunks ≤ i) : d.before i = d.fileSize.toNat := by
  have hpos := hs.chunkSize_pos
  have hround := Nat.lt_div_mul_add hpos (a := d.fileSize.toNat + d.chunkSize - 1)
  refine Nat.min_eq_left ?_
  calc d.fileSize.toNat
      ≤ (d.fileSize.toNat + d.chunkSize - 1) / d.chunkSize * d.chunkSize := by omega
    _ ≤ i * d.chunkSize := by
      rw [hs.expectedChunks_eq] at hi
      exact Nat.mul_le_mul_right _ (Nat.le_trans (Nat.le_max_right ..) hi)

/-- 64 bits hold the number of chunks -/
theorem Sized.expectedChunks_lt {d : Descriptor} (hs : d.Sized) : d.expectedChunks < bound64 := by
  have hpos := hs.chunkSize_pos
  have hlt : d.fileSize.toNat < bound64 := d.fileSize.toNat_lt
  have hle : (d.fileSize.toNat + d.chunkSize - 1) / d.chunkSize ≤ d.fileSize.toNat := by
    rcases Nat.eq_zero_or_pos d.fileSize.toNat with h0 | h0
    · have hless : d.fileSize.toNat + d.chunkSize - 1 < d.chunkSize := by omega
      exact Nat.le_trans (Nat.le_of_eq (Nat.div_eq_of_lt hless)) (Nat.zero_le _)
    · refine Nat.div_le_of_le_mul ?_
      obtain ⟨f, hf⟩ := Nat.exists_eq_add_one_of_ne_zero (Nat.ne_of_gt h0)
      obtain ⟨s, hs⟩ := Nat.exists_eq_add_one_of_ne_zero (Nat.ne_of_gt hpos)
      rw [hf, hs, Nat.mul_add, Nat.add_mul]
      omega
  rw [hs.expectedChunks_eq]
  have hone : 1 < bound64 := by decide
  omega

theorem Valid.sized {d : Descriptor} (hv : d.Valid) : d.Sized :=
  ⟨hv.dataPieces, hv.pieceSize, hv.size⟩

/-- before every chunk of a descriptor that passes there are full chunks only -/
theorem Valid.before_of_lt {d : Descriptor} (hv : d.Valid) {i : Nat} (hi : i < d.chunks.length) :
    d.before i = i * (d.pieceSize.toNat * d.dataPieces.toNat) := by
  rw [hv.sized.before_of_lt (hv.count ▸ hi), hv.sized.chunkSize_eq]

theorem Valid.before_length {d : Descriptor} (hv : d.Valid) :
    d.before d.chunks.length = d.fileSize.toNat :=
  hv.sized.before_of_le (Nat.le_of_eq hv.count.symm)

theorem Valid.length_lt {d : Descriptor} (hv : d.Valid) : d.chunks.length < bound64 := by
  rw [hv.count]
  exact hv.sized.expectedChunks_lt

end Descriptor

end Reclaim

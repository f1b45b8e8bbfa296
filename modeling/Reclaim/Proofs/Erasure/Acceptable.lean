import Reclaim.Proofs.Erasure.Batches

/-!
# Recovering pieces without a fault

Once pieces have passed all checks, nothing but the sink can fail: what they stand for is written
block by block, a data piece or a stripe at a time, as far as there is room.

* `Sink.Lacks`, `writeBlocks_fits`, `writeBlocks_lacks`   blocks in limited room;
* `Sink.Fed`, `writeBlocks_fed`   what was written as a whole, and the room that it took;
* `Acceptable`            as many pieces of one length as it takes;
* `decoded`               the data that the pieces in the slots stand for;
* `Acceptable.recover_fits`, `Acceptable.recover_lacks`   what is written in room enough, and in too
                          little;
* `Acceptable.recoverBatches_eq`   in batches of any size it comes to the same.
-/

namespace Reclaim

open Erasure

/-! ## a sink with bounds -/

namespace Sink

/-- there is less room than for `n` bytes -/
def Lacks (s : Sink) (n : Nat) : Prop := ∃ r, s.room = some r ∧ r < n

theorem not_lacks {s : Sink} (hroom : s.room = none) (n : Nat) : ¬s.Lacks n := by
  rintro ⟨r, hr, -⟩
  rw [hroom] at hr
  cases hr

/-- what there is room for is written as a whole -/
theorem writeBlocks_fits {s : Sink} {n : Nat} {l : List Bytes} (h : ¬s.Lacks n) :
    (s.writeBlocks n l).1 = true ∧ (s.writeBlocks n l).2.bytes = s.bytes ++ l.flatten.take n := by
  cases hroom : s.room with
  | none => exact ⟨(writeBlocks_unbounded s hroom n l).1, (writeBlocks_unbounded s hroom n l).2.2⟩
  | some r =>
    have hr : n ≤ r := Nat.not_lt.1 fun hlt => h ⟨r, hroom, hlt⟩
    clear h
    induction l generalizing s n r with
    | nil => exact ⟨rfl, by simp [writeBlocks]⟩
    | cons b rest ih =>
      rw [writeBlocks]
      split
      · next h0 => exact ⟨rfl, by simp [h0]⟩
      · have hb : (b.take n).length ≤ r := Nat.le_trans (List.length_take_le ..) hr
        have hw : s.write? (b.take n)
            = some ⟨some (r - (b.take n).length), b.take n :: s.blocks⟩ := by
          rw [write?, hroom]
          exact if_pos hb
        rw [hw]
        obtain ⟨hok, hbytes⟩ := ih (s := ⟨some (r - (b.take n).length), b.take n :: s.blocks⟩)
          (n := n - (b.take n).length) _ rfl (Nat.sub_le_sub_right hr _)
        refine ⟨hok, hbytes.trans ?_⟩
        rw [bytes_write _ _ _ hw, List.flatten_cons, List.take_append, List.append_assoc,
          List.length_take]
        congr 3
        omega

/-- of blocks of one length, as many are written as there is room for -/
theorem writeBlocks_lacks {s : Sink} {r : Nat} (hroom : s.room = some r) {n : Nat} (hr : r < n)
    {l : List Bytes} {u : Nat} (hu : ∀ b ∈ l, b.length = u) (hn : n ≤ l.length * u) :
    (s.writeBlocks n l).1 = false
      ∧ (s.writeBlocks n l).2.bytes = s.bytes ++ l.flatten.take (r / u * u) := by
  induction l generalizing s n r with
  | nil =>
    rw [List.length_nil] at hn
    omega
  | cons b rest ih =>
    have hb := hu b List.mem_cons_self
    rw [List.length_cons, Nat.succ_mul] at hn
    have hlen : (b.take n).length = min n u := by rw [List.length_take, hb]
    rw [writeBlocks, if_neg (by omega)]
    by_cases hfit : u ≤ r
    · have hu0 : 0 < u := by
        rcases Nat.eq_zero_or_pos u with h0 | hpos
        · rw [h0] at hn
          omega
        · exact hpos
      have hmin : min n u = u := by omega
      have htake : b.take n = b := List.take_of_length_le (by omega)
      have hw : s.write? (b.take n) = some ⟨some (r - u), b :: s.blocks⟩ := by
        rw [htake, write?, hroom]
        dsimp only
        rw [hb, if_pos hfit]
      rw [hw, hlen, hmin]
      obtain ⟨hstop, hbytes⟩ := ih (s := ⟨some (r - u), b :: s.blocks⟩) rfl (n := n - u) (by omega)
        (fun b' h => hu b' (List.mem_cons_of_mem _ h)) (by omega)
      refine ⟨hstop, hbytes.trans ?_⟩
      have hall : b.take ((r - u) / u * u + u) = b := List.take_of_length_le (by omega)
      rw [bytes_write _ _ _ hw, htake, List.flatten_cons, Nat.div_eq_sub_div hu0 hfit, Nat.succ_mul,
        List.take_append, hall, hb, Nat.add_sub_cancel, List.append_assoc]
    · have hw : s.write? (b.take n) = none := by
        rw [write?, hroom]
        exact if_neg (by omega)
      rw [hw, Nat.div_eq_of_lt (Nat.not_le.1 hfit), Nat.zero_mul, List.take_zero, List.append_nil]
      exact ⟨rfl, rfl⟩

theorem Lacks.mono {s : Sink} {m n : Nat} (h : s.Lacks m) (hmn : m ≤ n) : s.Lacks n := by
  obtain ⟨r, hr, hlt⟩ := h
  exact ⟨r, hr, Nat.lt_of_lt_of_le hlt hmn⟩

/-- the bytes `out` were written, for which there was room -/
structure Fed (out : Bytes) (s s' : Sink) : Prop where
  bytes : s'.bytes = s.bytes ++ out
  room : s'.room = s.room.map (· - out.length)
  fits : ¬s.Lacks out.length

section
variable {s s' s'' : Sink} {out out' : Bytes}

theorem fed_nil (s : Sink) : Fed [] s s := by
  refine ⟨(List.append_nil _).symm, ?_, fun ⟨r, _, hr⟩ => Nat.not_lt_zero r hr⟩
  cases s.room <;> rfl

theorem Fed.lacks_iff (h : Fed out s s') (n : Nat) : s'.Lacks n ↔ s.Lacks (out.length + n) := by
  have hfits := h.fits
  unfold Lacks at hfits ⊢
  rw [h.room]
  cases hroom : s.room with
  | none => simp
  | some r =>
    rw [hroom] at hfits
    simp only [Option.map_some, Option.some.injEq, exists_eq_left'] at hfits ⊢
    omega

theorem Fed.trans (h : Fed out s s') (h' : Fed out' s' s'') : Fed (out ++ out') s s'' := by
  refine ⟨?_, ?_, ?_⟩
  · rw [h'.bytes, h.bytes, List.append_assoc]
  · rw [h'.room, h.room, Option.map_map, List.length_append]
    congr 1
    funext r
    exact Nat.sub_sub ..
  · rw [List.length_append, ← h.lacks_iff]
    exact h'.fits

theorem fed_of_write? {b : Bytes} (h : s.write? b = some s') : Fed b s s' := by
  refine ⟨bytes_write _ _ _ h, ?_, ?_⟩
  · unfold write? at h
    split at h
    · next hroom =>
      cases h
      rw [hroom]
      rfl
    · next r hroom =>
      split at h
      · cases h
        rw [hroom]
        rfl
      · cases h
  · rintro ⟨r, hroom, hlt⟩
    rw [write?, hroom] at h
    simp only [if_neg (Nat.not_le.2 hlt)] at h
    cases h

theorem writeBlocks_fed {n : Nat} {l : List Bytes} (h : (s.writeBlocks n l).1 = true) :
    Fed (l.flatten.take n) s (s.writeBlocks n l).2 := by
  induction l generalizing s n with
  | nil =>
    rw [List.flatten_nil, List.take_nil]
    exact fed_nil s
  | cons b rest ih =>
    rw [writeBlocks] at h ⊢
    by_cases h0 : n = 0
    · rw [if_pos h0, h0, List.take_zero]
      exact fed_nil s
    · rw [if_neg h0] at h ⊢
      cases hw : s.write? (b.take n) with
      | none =>
        rw [hw] at h
        cases h
      | some s' =>
        rw [hw] at h
        have hsub : n - (b.take n).length = n - b.length := by
          rw [List.length_take]
          omega
        have hboth := (fed_of_write? hw).trans (ih h)
        rw [hsub] at hboth
        rw [List.flatten_cons, List.take_append]
        simp only [hsub]
        exact hboth

end

end Sink

namespace Coder

theorem take_flatMap_range {g : Nat → Bytes} {s u : Nat} (hg : ∀ i < s, (g i).length = u)
    {count : Nat} (hc : count ≤ s) {n : Nat} (hn : n ≤ count * u) :
    ((List.range count).map g).flatten.take n = ((List.range s).flatMap g).take n := by
  obtain ⟨r, rfl⟩ := Nat.exists_eq_add_of_le hc
  have hlen : n ≤ ((List.range count).flatMap g).length := by
    rw [List.flatMap_def, length_flatten_of_forall (w := u), List.length_map, List.length_range]
    · exact hn
    · intro b hb
      obtain ⟨i, hi, rfl⟩ := List.mem_map.1 hb
      have := List.mem_range.1 hi
      exact hg i (by omega)
  rw [List.range_add, List.flatMap_append, List.take_append_of_le_length hlen, List.flatMap_def]

/-! ## what is written -/

/-- the data that the pieces in the slots stand for -/
def decoded (c : Coder) (slots : Slots) : Bytes :=
  match c.kind with
  | .whole => (c.dataPieces slots).flatten
  | .striped => (List.range (pieceLength slots / stripeWidth)).flatMap (c.stripeData slots)

/-- how many bytes are written at a time: a data piece, or a stripe -/
def blockSize (c : Coder) (slots : Slots) : Nat :=
  match c.kind with
  | .whole => pieceLength slots
  | .striped => stripeWidth * c.data

/-- what is written one after the other -/
def blocks (c : Coder) (slots : Slots) (n : Nat) : List Bytes :=
  match c.kind with
  | .whole => c.dataPieces slots
  | .striped => (List.range (c.stripesFor slots n)).map (c.stripeData slots)

/-- the slots afterwards: whole data pieces are filled in -/
def afterwards (c : Coder) (slots : Slots) : Slots :=
  match c.kind with
  | .whole => c.filled slots
  | .striped => slots

/-- as many pieces of one length as it takes, which hold the bytes that are wanted -/
structure Acceptable (c : Coder) (slots : Slots) (n : Nat) : Prop where
  count : slots.length = c.numPieces
  enough : c.data ≤ (slots.filterMap id).length
  even : ∀ b ∈ slots.filterMap id, b.length = pieceLength slots
  holds : n ≤ pieceLength slots * c.data
  aligned : c.kind = .striped → pieceLength slots % stripeWidth = 0
  mendable : c.kind = .whole → ¬(c.hasGap slots = true ∧ pieceLength slots = 0)

theorem acceptable_of_length {c : Coder} {slots : Slots} {w n : Nat}
    (hs : slots.length = c.numPieces) (hk : c.data ≤ (slots.filterMap id).length)
    (hlen : ∀ b ∈ slots.filterMap id, b.length = w) (hn : n ≤ w * c.data)
    (haligned : c.kind = .striped → w % stripeWidth = 0) (hpos : c.kind = .whole → 0 < w) :
    c.Acceptable slots n := by
  have hwidth := pieceLength_of_forall (filterMap_ne_nil hk) hlen
  refine ⟨hs, hk, ?_, ?_, ?_, fun hkind hempty => ?_⟩
  · rwa [hwidth]
  · rwa [hwidth]
  · rwa [hwidth]
  · rw [hwidth] at hempty
    exact Nat.ne_of_gt (hpos hkind) hempty.2

namespace Acceptable

variable {c : Coder} {slots : Slots} {n : Nat} (h : c.Acceptable slots n)
include h

theorem stripe_lengths (hkind : c.kind = .striped) :
    ∀ b ∈ slots.filterMap id, b.length = pieceLength slots / stripeWidth * stripeWidth := by
  intro b hb
  rw [h.even b hb, Nat.div_mul_cancel (Nat.dvd_of_mod_eq_zero (h.aligned hkind))]

theorem recover_eq (sink : Sink) :
    c.recover slots n sink = written (c.afterwards slots) sink n (c.blocks slots n) := by
  obtain ⟨-, hwhole, hstriped⟩ := Coder.recover_eq h.count h.enough h.even h.holds sink
  unfold afterwards blocks
  cases hkind : c.kind with
  | whole =>
    rw [hwhole hkind, recoverWhole_eq h.enough h.even h.count,
      mend_ok h.enough h.even h.count (h.mendable hkind)]
  | striped => rw [hstriped hkind, recoverStriped_eq h.enough (h.stripe_lengths hkind)]

theorem length_of_mem_blocks : ∀ b ∈ c.blocks slots n, b.length = c.blockSize slots := by
  unfold blocks blockSize
  cases hkind : c.kind with
  | whole => exact length_of_mem_dataPieces h.enough h.even
  | striped =>
    intro b hb
    obtain ⟨i, hi, rfl⟩ := List.mem_map.1 hb
    have hlen := h.stripe_lengths hkind
    have hle := stripesFor_le h.enough hlen n
    have := List.mem_range.1 hi
    rw [length_stripeData h.enough hlen (by omega), Nat.mul_comm]

theorem le_blocks : n ≤ (c.blocks slots n).length * c.blockSize slots := by
  unfold blocks blockSize
  cases hkind : c.kind with
  | whole =>
    dsimp only
    rw [length_dataPieces h.enough, Nat.mul_comm]
    exact h.holds
  | striped =>
    dsimp only
    rw [List.length_map, List.length_range]
    exact le_stripes c.data_pos (h.aligned hkind) h.holds

theorem take_blocks : (c.blocks slots n).flatten.take n = (c.decoded slots).take n := by
  have hle := h.le_blocks
  unfold blocks blockSize at hle
  unfold blocks decoded
  cases hkind : c.kind with
  | whole => rfl
  | striped =>
    have hlen := h.stripe_lengths hkind
    simp only [hkind, List.length_map, List.length_range, Nat.mul_comm stripeWidth] at hle
    exact take_flatMap_range (fun i hi => length_stripeData h.enough hlen hi)
      (stripesFor_le h.enough hlen n) hle

theorem length_take_decoded : ((c.decoded slots).take n).length = n := by
  rw [← h.take_blocks, List.length_take, length_flatten_of_forall h.length_of_mem_blocks]
  exact Nat.min_eq_left h.le_blocks

theorem recover_fits {sink : Sink} (hroom : ¬sink.Lacks n) :
    (c.recover slots n sink).result = .ok ()
      ∧ (c.recover slots n sink).sink.bytes = sink.bytes ++ (c.decoded slots).take n := by
  obtain ⟨hok, hbytes⟩ := Sink.writeBlocks_fits (l := c.blocks slots n) hroom
  rw [h.recover_eq, written, ← h.take_blocks]
  dsimp only
  rw [hok]
  exact ⟨rfl, hbytes⟩

/-- in too little room, the blocks that fit are written -/
theorem recover_lacks {sink : Sink} {r : Nat} (hroom : sink.room = some r) (hr : r < n) :
    (c.recover slots n sink).result = .error .sinkFull
      ∧ (c.recover slots n sink).sink.bytes
          = sink.bytes ++ ((c.decoded slots).take n).take
              (r / c.blockSize slots * c.blockSize slots) := by
  have hle := Nat.div_mul_le_self r (c.blockSize slots)
  obtain ⟨hstop, hbytes⟩ := Sink.writeBlocks_lacks hroom hr h.length_of_mem_blocks h.le_blocks
  rw [h.recover_eq, written, ← h.take_blocks, List.take_take, Nat.min_eq_left (by omega)]
  dsimp only
  rw [hstop]
  exact ⟨rfl, hbytes⟩

theorem recover_error_iff {sink : Sink} {e : ErasureError} :
    (c.recover slots n sink).result = .error e ↔ sink.Lacks n ∧ e = .sinkFull := by
  by_cases hroom : sink.Lacks n
  · obtain ⟨r, hr, hlt⟩ := hroom
    rw [(h.recover_lacks hr hlt).1, Except.error.injEq]
    constructor
    · intro he
      exact ⟨⟨r, hr, hlt⟩, he.symm⟩
    · intro he
      exact he.2.symm
  · rw [(h.recover_fits hroom).1]
    constructor
    · intro he
      cases he
    · intro he
      exact absurd he.1 hroom

theorem recover_slots (sink : Sink) : (c.recover slots n sink).slots = c.afterwards slots := by
  rw [h.recover_eq]
  rfl

theorem recover_fed {sink : Sink} (hok : (c.recover slots n sink).result = .ok ()) :
    Sink.Fed ((c.decoded slots).take n) sink (c.recover slots n sink).sink := by
  rw [h.recover_eq] at hok ⊢
  rw [← h.take_blocks]
  refine Sink.writeBlocks_fed ?_
  by_contra hstop
  rw [written] at hok
  simp only [if_neg hstop] at hok
  cases hok

/-- in batches of any size the same is written, and it comes to the same -/
theorem recoverBatches_eq (hkind : c.kind = .striped) {size : Nat} (hsize : size ≠ 0)
    (sink : Sink) :
    c.recoverBatches size slots n sink
      = (.ok (c.recover slots n sink).result.isOk, (c.recover slots n sink).sink) := by
  have hlen := h.stripe_lengths hkind
  rw [Coder.recoverBatches_eq h.count h.enough hlen hsize, recoverStriped_eq h.enough hlen,
    h.recover_eq]
  unfold written blocks
  simp only [hkind]
  split
  · next hok => rw [hok]; rfl
  · next hok => rw [Bool.eq_false_iff.2 hok]; rfl

end Acceptable

end Coder

end Reclaim

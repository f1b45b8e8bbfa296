import Reclaim.Erasure.Batches
import Reclaim.Proofs.Erasure.Lengths
import Reclaim.Proofs.Erasure.Sources

/-!
# No fault comes up in the middle

Pieces that pass the checks before decoding have no fault that could come up later: the shards of
every stripe can be completed, so that recovering in batches of any size is recovering.

* `dataPieces`         the data pieces, as they are or as they are repaired;
* `mend_ok`, `mend_empty`   pieces of one length are completed, unless they are empty;
* `recoverWhole_eq`, `recoverStriped_eq`   what is written once the checks are passed;
* `recoverBatches_eq`  batches of stripes are written as if there were none.
-/

namespace Reclaim

open Erasure

/-! ## writing block after block -/

namespace Sink

theorem writeBlocks_zero (s : Sink) (l : List Bytes) : s.writeBlocks 0 l = (true, s) := by
  cases l with
  | nil => rfl
  | cons b r => rw [writeBlocks, if_pos rfl]

/-- blocks are written after those before them, if these went through -/
theorem writeBlocks_append (s : Sink) (n : Nat) (l l' : List Bytes) :
    s.writeBlocks n (l ++ l')
      = if (s.writeBlocks n l).1 then
          (s.writeBlocks n l).2.writeBlocks (n - l.flatten.length) l'
        else s.writeBlocks n l := by
  induction l generalizing s n with
  | nil => rfl
  | cons b r ih =>
    rw [List.cons_append, writeBlocks, writeBlocks]
    split
    · next h0 => rw [h0, Nat.zero_sub, writeBlocks_zero]; rfl
    · cases hw : s.write? (b.take n) with
      | none => rfl
      | some s' =>
        have hn : n - (b.take n).length - r.flatten.length = n - (b :: r).flatten.length := by
          rw [List.length_take, List.flatten_cons, List.length_append]
          omega
        show s'.writeBlocks _ (r ++ l') = _
        rw [ih, hn]

end Sink

namespace Coder

/-! ## data pieces -/

/-- the data pieces, as they are or as they are repaired -/
def dataPieces (c : Coder) (slots : Slots) : List Bytes :=
  repair (repairRows c.data (present slots)) (pieceLength slots) slots

theorem hasGap_eq_true_iff {c : Coder} {slots : Slots} :
    c.hasGap slots = true ↔ none ∈ slots.take c.data := by
  unfold hasGap
  rw [List.any_eq_true]
  constructor
  · rintro ⟨o, ho, h⟩
    rwa [Option.isNone_iff_eq_none.1 h] at ho
  · intro h
    exact ⟨none, h, rfl⟩

theorem getElem?_repair_of_some {k w : Nat} {slots : Slots} {i : Nat} {b : Bytes} (hi : i < k)
    (hb : slots[i]? = some (some b)) :
    (repair (repairRows k (present slots)) w slots)[i]? = some b := by
  have hrow : ∃ row, (repairRows k (present slots))[i]? = some row := by
    refine ⟨_, List.getElem?_eq_getElem ?_⟩
    rw [length_repairRows]
    exact hi
  obtain ⟨row, hrow⟩ := hrow
  have hz : ((repairRows k (present slots)).zip slots)[i]? = some (row, some b) :=
    List.getElem?_zip_eq_some.2 ⟨hrow, hb⟩
  rw [repair, List.getElem?_map, hz]
  rfl

section
variable {c : Coder} {w : Nat} {slots : Slots} (hk : c.data ≤ (slots.filterMap id).length)
  (hlen : ∀ b ∈ slots.filterMap id, b.length = w)
include hk

theorem data_le_length : c.data ≤ slots.length :=
  Nat.le_trans hk (List.length_filterMap_le ..)

theorem filterMap_ne_nil : slots.filterMap id ≠ [] := by
  intro h
  have := c.data_pos
  rw [h, List.length_nil] at hk
  omega

theorem length_dataPieces : (c.dataPieces slots).length = c.data := length_repair_of_enough hk

include hlen

theorem length_of_mem_dataPieces : ∀ p ∈ c.dataPieces slots, p.length = w := by
  unfold dataPieces
  rw [pieceLength_of_forall (filterMap_ne_nil hk) hlen]
  exact length_of_mem_repair hlen

omit hlen

theorem dataPieces_of_full (h : ¬c.hasGap slots = true) :
    (c.dataPieces slots).map some = slots.take c.data := by
  have hle := data_le_length hk
  apply List.ext_getElem?
  intro i
  rw [List.getElem?_map, List.getElem?_take]
  by_cases hi : i < c.data
  · rw [if_pos hi]
    cases hs : slots[i]? with
    | none =>
      rw [List.getElem?_eq_none_iff] at hs
      omega
    | some o =>
      cases o with
      | none =>
        refine absurd (hasGap_eq_true_iff.2 ?_) h
        exact List.mem_of_getElem? (i := i) (by rw [List.getElem?_take, if_pos hi, hs])
      | some b =>
        unfold dataPieces
        rw [getElem?_repair_of_some hi hs]
        rfl
  · rw [if_neg hi, List.getElem?_eq_none (by rw [length_dataPieces hk]; omega)]
    rfl

/-- the slots with all data pieces filled in -/
def filled (c : Coder) (slots : Slots) : Slots :=
  (c.dataPieces slots).map some ++ slots.drop c.data

theorem take_filled : (c.filled slots).take c.data = (c.dataPieces slots).map some := by
  apply List.take_left'
  rw [List.length_map, length_dataPieces hk]

theorem joined_filled : c.joined (c.filled slots) = (c.dataPieces slots).flatten := by
  rw [joined, take_filled hk, List.filterMap_map]
  show ((c.dataPieces slots).filterMap some).flatten = _
  rw [List.filterMap_some]

theorem filled_of_full (h : ¬c.hasGap slots = true) : c.filled slots = slots := by
  rw [filled, dataPieces_of_full hk h, List.take_append_drop]

variable (hs : slots.length = c.numPieces)
include hs

theorem parity_pos_of_hasGap (h : c.hasGap slots = true) : 0 < c.parity := by
  have hlt : (slots.filterMap id).length < slots.length := by
    refine Nat.lt_of_le_of_ne (List.length_filterMap_le ..) fun he => ?_
    have hall := List.filterMap_length_eq_length.1 he none
      (List.mem_of_mem_take (hasGap_eq_true_iff.1 h))
    cases hall
  rw [hs, numPieces] at hlt
  omega

include hlen

/-- shards of one length, as many as are needed, can be completed -/
theorem mend_ok (hw : ¬(c.hasGap slots = true ∧ w = 0)) :
    c.mend slots = .ok (c.filled slots) := by
  unfold mend
  split
  · next h =>
    obtain ⟨hgap, hparity⟩ := Bool.and_eq_true_iff.1 h
    have hpos : 0 < w := Nat.pos_of_ne_zero fun h0 => hw ⟨hgap, h0⟩
    have hwidth := pieceLength_of_forall (filterMap_ne_nil hk) hlen
    have hfind : ((slots.filterMap id).find? fun b => b.isEmpty || b.length != w) = none := by
      rw [List.find?_eq_none]
      intro b hb
      have := hlen b hb
      cases b with
      | nil => simp at this; omega
      | cons x b => simp [this]
    have hmissing : (slots.filterMap id).length ≠ c.numPieces := by
      intro he
      rw [← hs] at he
      have hall := List.filterMap_length_eq_length.1 he none
        (List.mem_of_mem_take (hasGap_eq_true_iff.1 hgap))
      cases hall
    unfold complete
    simp only [hwidth, hfind, if_neg (not_not.2 hs), if_neg hmissing, if_neg (Nat.not_lt.2 hk)]
    rw [filled, dataPieces, hwidth]
  · next h =>
    rw [filled_of_full hk]
    intro hgap
    exact h (Bool.and_eq_true_iff.2 ⟨hgap, decide_eq_true (parity_pos_of_hasGap hk hs hgap)⟩)

/-- empty shards cannot be completed -/
theorem mend_empty (hgap : c.hasGap slots = true) (hw : w = 0) :
    c.mend slots = .error .emptyShard := by
  have hparity := decide_eq_true (parity_pos_of_hasGap hk hs hgap)
  unfold mend complete
  rw [if_pos (Bool.and_eq_true_iff.2 ⟨hgap, hparity⟩)]
  cases he : slots.filterMap id with
  | nil => exact absurd he (filterMap_ne_nil hk)
  | cons b rest =>
    have hb : b = [] := by
      have := hlen b (by rw [he]; exact List.mem_cons_self)
      exact List.length_eq_zero_iff.1 (by omega)
    simp [hb, hs]

/-! ## whole pieces -/

/-- whole pieces are recovered by completing them and writing the data pieces -/
theorem recoverWhole_eq (n : Nat) (sink : Sink) :
    c.recoverWhole slots n sink
      = match c.mend slots with
        | .error _ => ⟨.error .emptyShard, slots, sink⟩
        | .ok _ => written (c.filled slots) sink n (c.dataPieces slots) := by
  have hwidth := pieceLength_of_forall (filterMap_ne_nil hk) hlen
  unfold recoverWhole
  dsimp only
  rw [hwidth]
  split
  · next hgap =>
    split
    · next h0 => rw [mend_empty hk hlen hs hgap h0]
    · next h0 =>
      rw [mend_ok hk hlen hs fun h => h0 h.2, filled, dataPieces, hwidth]
  · next hgap =>
    rw [mend_ok hk hlen hs fun h => hgap h.1, filled_of_full hk hgap,
      ← dataPieces_of_full hk hgap, List.filterMap_map]
    show written slots sink n ((c.dataPieces slots).filterMap some) = _
    rw [List.filterMap_some]

end

/-! ## stripes -/

theorem slice_zero (slots : Slots) :
    slice 0 slots = slots.map fun p => p.map (List.take stripeWidth) := by
  unfold slice
  apply List.map_congr_left
  intro p _
  cases p with
  | none => rfl
  | some b => simp

theorem slice_succ (i : Nat) (slots : Slots) :
    slice (i + 1) slots = slice i (slots.map fun p => p.map (List.drop stripeWidth)) := by
  unfold slice
  rw [List.map_map]
  apply List.map_congr_left
  intro p _
  cases p with
  | none => rfl
  | some b =>
    show some ((b.drop ((i + 1) * stripeWidth)).take stripeWidth)
      = some (((b.drop stripeWidth).drop (i * stripeWidth)).take stripeWidth)
    rw [List.drop_drop, Nat.succ_mul, Nat.add_comm]

theorem present_slice (i : Nat) (slots : Slots) : present (slice i slots) = present slots :=
  present_map _ slots

theorem length_slice (i : Nat) (slots : Slots) : (slice i slots).length = slots.length :=
  List.length_map _

theorem enough_slice {k : Nat} {slots : Slots} (hk : k ≤ (slots.filterMap id).length) (i : Nat) :
    k ≤ ((slice i slots).filterMap id).length := by
  rw [slice, length_filterMap_map]
  exact hk

theorem length_of_mem_slice {s : Nat} {slots : Slots}
    (hlen : ∀ b ∈ slots.filterMap id, b.length = s * stripeWidth) {i : Nat} (hi : i < s) :
    ∀ b ∈ (slice i slots).filterMap id, b.length = stripeWidth := by
  intro b hb
  unfold slice at hb
  rw [filterMap_map_slots] at hb
  obtain ⟨p, hp, rfl⟩ := List.mem_map.1 hb
  have h := Nat.mul_le_mul_right stripeWidth hi
  rw [Nat.succ_mul, ← hlen p hp] at h
  rw [List.length_take, List.length_drop]
  omega

/-- the data of stripe number `i`, as the shards tell it -/
def stripeData (c : Coder) (slots : Slots) (i : Nat) : Bytes :=
  (c.dataPieces (slice i slots)).flatten

theorem repairStripes_eq (rows : List (Option (List UInt8))) (count : Nat) (slots : Slots) :
    repairStripes rows count slots
      = (List.range count).map fun i => (repair rows stripeWidth (slice i slots)).flatten := by
  induction count generalizing slots with
  | zero => rfl
  | succ count ih =>
    rw [repairStripes, ih, List.range_succ_eq_map, List.map_cons, List.map_map, slice_zero]
    congr 1
    apply List.map_congr_left
    intro i _
    show _ = (repair rows stripeWidth (slice (i + 1) slots)).flatten
    rw [slice_succ]

section
variable {c : Coder} {s : Nat} {slots : Slots} (hs : slots.length = c.numPieces)
  (hk : c.data ≤ (slots.filterMap id).length)
  (hlen : ∀ b ∈ slots.filterMap id, b.length = s * stripeWidth)
include hk hlen

theorem stripeData_eq {i : Nat} (hi : i < s) :
    c.stripeData slots i
      = (repair (repairRows c.data (present slots)) stripeWidth (slice i slots)).flatten := by
  have hk' := enough_slice hk i
  rw [stripeData, dataPieces, present_slice,
    pieceLength_of_forall (filterMap_ne_nil hk') (length_of_mem_slice hlen hi)]

theorem length_stripeData {i : Nat} (hi : i < s) :
    (c.stripeData slots i).length = c.data * stripeWidth := by
  have hk' := enough_slice hk i
  rw [stripeData, length_flatten_of_forall
    (length_of_mem_dataPieces hk' (length_of_mem_slice hlen hi)), length_dataPieces hk']

theorem stripesFor_le (n : Nat) : c.stripesFor slots n ≤ s := by
  unfold stripesFor
  rw [pieceLength_of_forall (filterMap_ne_nil hk) hlen,
    Nat.mul_div_cancel _ (by decide : 0 < stripeWidth)]
  exact Nat.min_le_right ..

/-- striped pieces are recovered by writing the data of as many stripes as are needed -/
theorem recoverStriped_eq (n : Nat) (sink : Sink) :
    c.recoverStriped slots n sink
      = written slots sink n ((List.range (c.stripesFor slots n)).map (c.stripeData slots)) := by
  have hwidth := pieceLength_of_forall (filterMap_ne_nil hk) hlen
  have hm : ¬s * stripeWidth % stripeWidth ≠ 0 := by
    rw [Nat.mul_mod_left]
    exact fun h => h rfl
  have hle := stripesFor_le hk hlen n
  unfold stripesFor at hle ⊢
  unfold recoverStriped
  dsimp only at hle ⊢
  rw [hwidth] at hle ⊢
  rw [if_neg hm, repairStripes_eq]
  congr 1
  apply List.map_congr_left
  intro i hi
  have hi := List.mem_range.1 hi
  rw [stripeData_eq hk hlen (by omega)]

include hs

theorem decodeStripe_ok {i : Nat} (hi : i < s) :
    c.decodeStripe slots i = .ok (c.stripeData slots i) := by
  have hk' := enough_slice hk i
  have hmend := mend_ok hk' (length_of_mem_slice hlen hi) ((length_slice i slots).trans hs)
    fun h => absurd h.2 (by decide)
  rw [decodeStripe, hmend, stripeData, ← joined_filled hk']
  rfl

theorem mapM_decodeStripe {batch : List Nat} (hb : ∀ i ∈ batch, i < s) :
    batch.mapM (c.decodeStripe slots) = .ok (batch.map (c.stripeData slots)) := by
  induction batch with
  | nil => rfl
  | cons i rest ih =>
    rw [List.mapM_cons, decodeStripe_ok hs hk hlen (hb i List.mem_cons_self),
      ih fun j hj => hb j (List.mem_cons_of_mem _ hj)]
    rfl

theorem writeBatches_eq (batches : List (List Nat)) (hb : ∀ i ∈ batches.flatten, i < s) (n : Nat)
    (sink : Sink) :
    c.writeBatches slots n sink batches
      = (.ok (sink.writeBlocks n (batches.flatten.map (c.stripeData slots))).1,
          (sink.writeBlocks n (batches.flatten.map (c.stripeData slots))).2) := by
  induction batches generalizing n sink with
  | nil => rfl
  | cons batch rest ih =>
    rw [List.flatten_cons] at hb
    have hfst : ∀ i ∈ batch, i < s := fun i hi => hb i (List.mem_append_left _ hi)
    have hrest : ∀ i ∈ rest.flatten, i < s := fun i hi => hb i (List.mem_append_right _ hi)
    rw [writeBatches, mapM_decodeStripe hs hk hlen hfst, List.flatten_cons, List.map_append,
      Sink.writeBlocks_append]
    dsimp only
    rw [ih hrest]
    cases hw : (sink.writeBlocks n (batch.map (c.stripeData slots))).1 with
    | true => rfl
    | false => simp only [Bool.false_eq_true, if_false, hw]

/-- recovering in batches is recovering, whatever the size of the batches: no stripe fails -/
theorem recoverBatches_eq {size : Nat} (hsize : size ≠ 0) (n : Nat) (sink : Sink) :
    c.recoverBatches size slots n sink
      = (.ok (sink.writeBlocks n
            ((List.range (c.stripesFor slots n)).map (c.stripeData slots))).1,
          (c.recoverStriped slots n sink).sink) := by
  have hle := stripesFor_le hk hlen n
  have hflat := Bytes.flatten_segments size (List.range (c.stripesFor slots n)) hsize
  rw [recoverBatches, writeBatches_eq hs hk hlen _ ?_, hflat, recoverStriped_eq hk hlen]
  · rfl
  · intro i hi
    rw [hflat] at hi
    have := List.mem_range.1 hi
    omega

end

end Coder

end Reclaim

import Mathlib.Data.List.Forall2
import Reclaim.Erasure.Coder

/-!
# Cutting data into shards and writing it out again

* `flatten_split`     the shards of data, one after the other, are the data again;
* `segments_eq_split` stripes are shards of the whole chunk;
* `Kept`              slots that hold some of the pieces of a chunk, each in its own place;
* `writeBlocks_unbounded` a sink without bounds takes the first bytes of what it is given.
-/

namespace Reclaim

namespace Coder

/-! ## shards of data -/

theorem split_zero (w : Nat) (d : Bytes) : split 0 w d = [] := rfl

theorem split_succ (c w : Nat) (d : Bytes) :
    split (c + 1) w d = d.take w :: split c w (d.drop w) := by
  unfold split
  rw [List.range_succ_eq_map, List.map_cons, List.map_map, Nat.zero_mul, List.drop_zero]
  congr 1
  apply List.map_congr_left
  intro i _
  show (d.drop ((i + 1) * w)).take w = ((d.drop w).drop (i * w)).take w
  rw [List.drop_drop, Nat.succ_mul, Nat.add_comm]

theorem length_split (c w : Nat) (d : Bytes) : (split c w d).length = c := by
  rw [split, List.length_map, List.length_range]

theorem getElem?_split (c w : Nat) (d : Bytes) (i : Nat) (hi : i < c) :
    (split c w d)[i]? = some ((d.drop (i * w)).take w) := by
  rw [split, List.getElem?_map, List.getElem?_range hi]
  rfl

theorem flatten_split (c w : Nat) (d : Bytes) : (split c w d).flatten = d.take (c * w) := by
  induction c generalizing d with
  | zero => rw [split_zero, Nat.zero_mul, List.take_zero, List.flatten_nil]
  | succ c ih =>
    rw [split_succ, List.flatten_cons, ih, Nat.succ_mul, Nat.add_comm (c * w), ← List.take_add]

theorem take_split (c w j : Nat) (d : Bytes) : (split c w d).take j = split (min j c) w d := by
  rw [split, ← List.map_take, List.take_range, split]

theorem length_of_mem_split (c w : Nat) (d : Bytes) (hd : d.length = c * w) :
    ∀ s ∈ split c w d, s.length = w := by
  intro s hs
  obtain ⟨i, hi, rfl⟩ := List.mem_map.1 hs
  have h1 := List.mem_range.1 hi
  have h2 : (i + 1) * w ≤ c * w := Nat.mul_le_mul_right w h1
  rw [Nat.succ_mul] at h2
  rw [List.length_take, List.length_drop, hd]
  omega

/-- data of whole stripes falls into stripes as it falls into shards -/
theorem segments_eq_split (c w : Nat) (hw : w ≠ 0) (d : Bytes) (hd : d.length = c * w) :
    Bytes.segments w d = split c w d := by
  induction c generalizing d with
  | zero =>
    have h0 : d = [] := List.length_eq_zero_iff.1 (by rw [hd, Nat.zero_mul])
    rw [h0, Bytes.segments_nil, split_zero]
  | succ c ih =>
    have hl : d.length = c * w + w := by rw [hd, Nat.succ_mul]
    have hne : d ≠ [] := by
      intro h
      rw [h, List.length_nil] at hl
      omega
    rw [Bytes.segments_cons w d hne hw, split_succ, ih (d.drop w) (by rw [List.length_drop]; omega)]

/-! ## pieces that were kept -/

/-- slots that hold some of the given pieces, each in its own place -/
def Kept (pieces : List Bytes) (slots : Slots) : Prop :=
  List.Forall₂ (fun piece slot => slot = none ∨ slot = some piece) pieces slots

theorem Kept.length_eq {pieces : List Bytes} {slots : Slots} (h : Kept pieces slots) :
    slots.length = pieces.length := (List.Forall₂.length_eq h).symm

theorem Kept.getElem?_eq {pieces : List Bytes} {slots : Slots} (h : Kept pieces slots) {i : Nat}
    {b : Bytes} (hb : slots[i]? = some (some b)) : pieces[i]? = some b := by
  induction h generalizing i with
  | nil => rw [List.getElem?_nil] at hb; cases hb
  | cons hx _ ih =>
    cases i with
    | zero =>
      rw [List.getElem?_cons_zero, Option.some_inj] at hb
      rcases hx with hx | hx
      · rw [hb] at hx; cases hx
      · rw [hb] at hx
        cases hx
        rfl
    | succ i =>
      rw [List.getElem?_cons_succ] at hb ⊢
      exact ih hb

theorem kept_of_getElem? {pieces : List Bytes} {slots : Slots} (hl : slots.length = pieces.length)
    (h : ∀ (i : Nat) (b : Bytes), slots[i]? = some (some b) → pieces[i]? = some b) :
    Kept pieces slots := by
  unfold Kept
  rw [List.forall₂_iff_get]
  refine ⟨hl.symm, fun i hp hs => ?_⟩
  rw [List.get_eq_getElem, List.get_eq_getElem]
  cases e : slots[i] with
  | none => exact .inl rfl
  | some b =>
    right
    have := h i b (by rw [List.getElem?_eq_getElem hs, e])
    rw [List.getElem?_eq_getElem hp, Option.some_inj] at this
    rw [this]

theorem Kept.mem {pieces : List Bytes} {slots : Slots} (h : Kept pieces slots) {b : Bytes}
    (hb : b ∈ slots.filterMap id) : b ∈ pieces := by
  obtain ⟨o, ho, rfl⟩ := List.mem_filterMap.1 hb
  obtain ⟨i, hi, e⟩ := List.mem_iff_getElem.1 ho
  exact List.mem_of_getElem? (h.getElem?_eq (List.getElem?_eq_some_iff.2 ⟨hi, e⟩))

theorem pieceLength_of_forall {slots : Slots} {w : Nat} (hne : slots.filterMap id ≠ [])
    (h : ∀ b ∈ slots.filterMap id, b.length = w) : pieceLength slots = w := by
  unfold pieceLength
  cases e : slots.filterMap id with
  | nil => exact absurd e hne
  | cons b r =>
    rw [List.map_cons, List.headD_cons]
    exact h b (by rw [e]; exact List.mem_cons_self)

end Coder

/-! ## writing -/

/-- a sink without bounds takes the first `n` bytes of all blocks -/
theorem Sink.writeBlocks_unbounded (s : Sink) (hr : s.room = none) (n : Nat) (blocks : List Bytes) :
    (s.writeBlocks n blocks).1 = true ∧ (s.writeBlocks n blocks).2.room = none
      ∧ (s.writeBlocks n blocks).2.bytes = s.bytes ++ blocks.flatten.take n := by
  induction blocks generalizing s n with
  | nil =>
    rw [List.flatten_nil, List.take_nil, List.append_nil]
    exact ⟨rfl, hr, rfl⟩
  | cons b r ih =>
    unfold Sink.writeBlocks
    split
    · next h0 =>
      rw [h0, List.take_zero, List.append_nil]
      exact ⟨rfl, hr, rfl⟩
    · have hw : s.write? (b.take n) = some ⟨none, b.take n :: s.blocks⟩ := by
        rw [Sink.write?, hr]
      have hb := Sink.bytes_write _ _ _ hw
      obtain ⟨h1, h2, h3⟩ := ih ⟨none, b.take n :: s.blocks⟩ rfl (n - (b.take n).length)
      rw [hw]
      refine ⟨h1, h2, ?_⟩
      show (Sink.writeBlocks _ _ r).2.bytes = _
      have hn : n - (b.take n).length = n - b.length := by rw [List.length_take]; omega
      rw [h3, hb, List.append_assoc, List.flatten_cons, List.take_append, hn]

/-- writing to a sink without bounds works -/
theorem Coder.written_ok (slots : Slots) (sink : Sink) (hroom : sink.room = none) (n : Nat)
    (blocks : List Bytes) :
    (written slots sink n blocks).result = .ok ()
      ∧ (written slots sink n blocks).sink.room = none := by
  obtain ⟨hok, hroom', -⟩ := Sink.writeBlocks_unbounded sink hroom n blocks
  refine ⟨?_, hroom'⟩
  show (if (sink.writeBlocks n blocks).1 then _ else _) = _
  rw [hok]
  rfl

end Reclaim

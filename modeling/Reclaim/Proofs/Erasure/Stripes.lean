import Reclaim.Proofs.Erasure.Acceptable

/-!
# Stripes are small chunks of whole pieces

* `Coder.withKind`      the same numbers of pieces with codewords laid the other way;
* `recover_slice`       the data of one stripe is what a recovery of whole pieces writes for it;
* `recover_stripes`     a recovery of striped pieces writes the data of the stripes;
* `striped_by_stripes`  the striped code is the whole-piece code stripe by stripe, both ways.
-/

namespace Reclaim.Coder

open Erasure

/-- the same numbers of pieces with codewords laid in a certain way -/
def withKind (c : Coder) (kind : ErasureKind) : Coder :=
  ⟨kind, c.data, c.parity, c.data_pos, c.pieces_le⟩

theorem fits_whole (c : Coder) {w : Nat} (hw : 0 < w) : (c.withKind .whole).Fits w :=
  ⟨hw, fun h => by cases h⟩

section
variable {c : Coder} {s : Nat} {slots : Slots} (hs : slots.length = c.numPieces)
  (hk : c.data ≤ (slots.filterMap id).length)
  (hlen : ∀ b ∈ slots.filterMap id, b.length = s * stripeWidth)
include hs hk hlen

/-- a recovery of the slices of a stripe as whole pieces writes the data of the stripe -/
theorem recover_slice (hkind : c.kind = .whole) {i : Nat} (hi : i < s) (sink : Sink)
    (hroom : sink.room = none) :
    (c.recover (slice i slots) (stripeWidth * c.data) sink).result = .ok ()
      ∧ (c.recover (slice i slots) (stripeWidth * c.data) sink).sink.bytes
          = sink.bytes ++ c.stripeData slots i := by
  have hacc : c.Acceptable (slice i slots) (stripeWidth * c.data) :=
    acceptable_of_length ((length_slice i slots).trans hs) (enough_slice hk i)
      (length_of_mem_slice hlen hi)
      (Nat.le_refl _) (fun _ => rfl) fun _ => by decide
  have hdecoded : c.decoded (slice i slots) = c.stripeData slots i := by
    simp only [decoded, hkind, stripeData]
  obtain ⟨hok, hbytes⟩ := hacc.recover_fits (Sink.not_lacks hroom _)
  refine ⟨hok, hbytes.trans ?_⟩
  rw [hdecoded, List.take_of_length_le]
  rw [length_stripeData hk hlen hi, Nat.mul_comm]

theorem acceptable_stripes (hkind : c.kind = .striped) {n : Nat}
    (hn : n ≤ s * stripeWidth * c.data) : c.Acceptable slots n := by
  refine acceptable_of_length hs hk hlen hn (fun _ => Nat.mul_mod_left s stripeWidth) fun h => ?_
  rw [hkind] at h
  cases h

theorem recover_stripes (hkind : c.kind = .striped) {n : Nat} (hn : n ≤ s * stripeWidth * c.data)
    (sink : Sink) (hroom : sink.room = none) :
    (c.recover slots n sink).result = .ok ()
      ∧ (c.recover slots n sink).sink.bytes
          = sink.bytes ++ ((List.range s).flatMap (c.stripeData slots)).take n := by
  have hwidth := pieceLength_of_forall (filterMap_ne_nil hk) hlen
  have hacc := acceptable_stripes hs hk hlen hkind hn
  have hdecoded : c.decoded slots = (List.range s).flatMap (c.stripeData slots) := by
    simp only [decoded, hkind, hwidth, Nat.mul_div_cancel _ (by decide : 0 < stripeWidth)]
  rw [← hdecoded]
  exact hacc.recover_fits (Sink.not_lacks hroom n)

end

/-! ## both ways -/

/-- each piece of a striped chunk is made of the pieces of its stripes, encoded as whole pieces of
64 bytes; and whatever stands in the slots, recovering a striped chunk writes what recovering its
stripes as whole pieces writes, one after the other and cut to the bytes that are wanted, in batches
of any size -/
theorem striped_by_stripes (c : Coder) (s : Nat) :
    (∀ data : Bytes, data.length ≤ c.data * (stripeWidth * s) →
      ∃ codeword : Nat → List Bytes,
        (∀ i < s, (codeword i).length = c.data + c.parity
          ∧ (c.withKind .whole).encode
              (((data.fit (c.data * (stripeWidth * s))).drop (stripeWidth * c.data * i)).take
                (stripeWidth * c.data)) stripeWidth = .ok (codeword i))
          ∧ (c.withKind .striped).encode data (stripeWidth * s)
              = .ok ((List.range (c.data + c.parity)).map fun j =>
                  (List.range s).flatMap fun i => (codeword i).getD j []))
    ∧ ∀ (slots : Slots) (n : Nat), slots.length = c.data + c.parity →
        c.data ≤ (slots.filterMap id).length →
        (∀ b ∈ slots.filterMap id, b.length = stripeWidth * s) → n ≤ stripeWidth * s * c.data →
        ∃ stripe : Nat → Bytes,
          (∀ i < s, ∀ sink : Sink, sink.room = none →
            ((c.withKind .whole).recover (slice i slots) (stripeWidth * c.data) sink).result = .ok ()
              ∧ ((c.withKind .whole).recover (slice i slots) (stripeWidth * c.data) sink).sink.bytes
                  = sink.bytes ++ stripe i)
            ∧ (∀ sink : Sink, sink.room = none →
                ((c.withKind .striped).recover slots n sink).result = .ok ()
                  ∧ ((c.withKind .striped).recover slots n sink).sink.bytes
                      = sink.bytes ++ ((List.range s).flatMap stripe).take n)
            ∧ ∀ (size : Nat) (sink : Sink), size ≠ 0 →
                (c.withKind .striped).recoverBatches size slots n sink
                  = (.ok ((c.withKind .striped).recover slots n sink).result.isOk,
                      ((c.withKind .striped).recover slots n sink).sink) := by
  rw [Nat.mul_comm stripeWidth s]
  constructor
  · intro data hd
    rw [Nat.mul_comm c.data] at hd ⊢
    have hlen : (data.fit (s * stripeWidth * c.data)).length = s * (stripeWidth * c.data) := by
      rw [Bytes.length_fit, Nat.mul_assoc]
    refine ⟨fun i => extend (parityRows c.data c.parity) stripeWidth (split c.data stripeWidth
      (((data.fit (s * stripeWidth * c.data)).drop (stripeWidth * c.data * i)).take
        (stripeWidth * c.data))), fun i hi => ⟨?_, ?_⟩, ?_⟩
    · rw [length_extend, length_split]
    · have hi : (i + 1) * (stripeWidth * c.data) ≤ s * (stripeWidth * c.data) :=
        Nat.mul_le_mul_right _ hi
      rw [Nat.succ_mul, Nat.mul_comm i] at hi
      dsimp only
      generalize hstripe : ((data.fit (s * stripeWidth * c.data)).drop
        (stripeWidth * c.data * i)).take (stripeWidth * c.data) = stripe
      have hl : stripe.length = stripeWidth * c.data := by
        rw [← hstripe, List.length_take, List.length_drop, hlen]
        omega
      have hfit : Bytes.fit (stripeWidth * (c.withKind .whole).data) stripe = stripe :=
        Bytes.fit_of_length_eq _ _ hl
      have h := encode_eq (c.withKind .whole) stripeWidth (fits_whole c (by decide)) stripe
        (Nat.le_of_eq hl)
      rw [hfit] at h
      exact h
    · rw [encode_striped (c.withKind .striped) rfl _ (Nat.mul_mod_left s stripeWidth) data hd]
      unfold gather stripes split
      rw [Nat.mul_div_cancel _ (by decide : 0 < stripeWidth), List.map_map]
      congr 1
      apply List.map_congr_left
      intro j _
      rw [List.flatMap_map]
      simp only [Function.comp, Nat.mul_comm _ (stripeWidth * (c.withKind .striped).data)]
      rfl
  · intro slots n hs hk hlen hn
    exact ⟨c.stripeData slots,
      fun i hi sink hroom => recover_slice (c := c.withKind .whole) hs hk hlen rfl hi sink hroom,
      fun sink hroom => recover_stripes (c := c.withKind .striped) hs hk hlen rfl hn sink hroom,
      fun size sink hsize => (acceptable_stripes (c := c.withKind .striped) hs hk hlen rfl
        hn).recoverBatches_eq rfl hsize sink⟩

theorem striped_by_stripes_mirror :
    let c : Coder := ⟨.striped, 2, 1, by decide, by decide⟩
    let slots : Slots := [none, some (List.replicate 64 7 ++ List.replicate 64 8),
      some (List.replicate 64 1 ++ List.replicate 64 2)]
    slots.length = c.data + c.parity ∧ c.data ≤ (slots.filterMap id).length
      ∧ (∀ b ∈ slots.filterMap id, b.length = stripeWidth * 2) ∧ 131 ≤ stripeWidth * 2 * c.data
      ∧ (∃ codeword : Nat → List Bytes,
          (c.withKind .whole).encode (List.replicate 128 5) 64 = .ok (codeword 0)
            ∧ (c.withKind .whole).encode ([5, 5, 5] ++ List.replicate 125 0) 64
                = .ok (codeword 1)
            ∧ c.encode (List.replicate 131 5) 128 = .ok ((List.range 3).map fun j =>
                (codeword 0).getD j [] ++ (codeword 1).getD j []))
      ∧ ∃ first second : Bytes,
          ((c.withKind .whole).recover (slice 0 slots) 128 (Sink.ofLimit none)).sink.bytes = first
            ∧ ((c.withKind .whole).recover (slice 1 slots) 128 (Sink.ofLimit none)).sink.bytes
                = second
            ∧ (c.recover slots 131 (Sink.ofLimit none)).sink.bytes = (first ++ second).take 131
            ∧ c.recoverBatches 4096 slots 131 (Sink.ofLimit none)
                = (.ok true, (c.recover slots 131 (Sink.ofLimit none)).sink) := by
  intro c slots
  have hlen : ∀ b ∈ slots.filterMap id, b.length = stripeWidth * 2 := by decide +kernel
  have hfirst : ((Bytes.fit 256 (List.replicate 131 5)).drop 0).take 128
      = List.replicate 128 5 := by decide +kernel
  have hrest : ((Bytes.fit 256 (List.replicate 131 5)).drop 128).take 128
      = [5, 5, 5] ++ List.replicate 125 0 := by decide +kernel
  obtain ⟨hencode, hrecover⟩ := striped_by_stripes c 2
  obtain ⟨codeword, hstripes, hcodewords⟩ := hencode (List.replicate 131 5) (by decide +kernel)
  obtain ⟨stripe, hslices, hstriped, hbatches⟩ :=
    hrecover slots 131 rfl (by decide) hlen (by decide)
  refine ⟨rfl, by decide, hlen, by decide, ⟨codeword, ?_, ?_, ?_⟩, stripe 0, stripe 1,
    ?_, ?_, ?_, ?_⟩
  · rw [← hfirst]
    exact (hstripes 0 (by decide)).2
  · rw [← hrest]
    exact (hstripes 1 (by decide)).2
  · refine hcodewords.trans (congrArg Except.ok (List.map_congr_left fun j _ => ?_))
    show (codeword 0).getD j [] ++ ((codeword 1).getD j [] ++ []) = _
    rw [List.append_nil]
  · exact (hslices 0 (by decide) (Sink.ofLimit none) rfl).2
  · exact (hslices 1 (by decide) (Sink.ofLimit none) rfl).2
  · refine (hstriped (Sink.ofLimit none) rfl).2.trans ?_
    show [] ++ (stripe 0 ++ (stripe 1 ++ [])).take 131 = _
    rw [List.append_nil, List.nil_append]
  · have h := hbatches 4096 (Sink.ofLimit none) (by decide)
    rw [(hstriped (Sink.ofLimit none) rfl).1] at h
    exact h

end Reclaim.Coder

import Reclaim.Proofs.Erasure.Codeword
import Reclaim.Proofs.Erasure.Split

/-!
# Any pieces of a chunk give it back

* `Codeword`           shards that belong together;
* `repair_of_kept`     as many shards of a codeword as there are data shards give those back;
* `pieces`             what `encode` makes of a chunk of full length (`encode_eq`);
* `recover_of_kept`    as many pieces as there are data pieces lead to the data being written.
-/

namespace Reclaim

open Erasure

namespace Coder

/-! ## one codeword -/

/-- `n` shards of `w` bytes that are the values of polynomials of degree below `k` -/
def Codeword (k n w : Nat) (shards : List Bytes) : Prop :=
  shards.length = n ∧ ∃ f, Low k f ∧ ∀ i s, shards[i]? = some s → Tells f w (place i) s

theorem codeword_extend (k m w : Nat) (hkm : k + m ≤ 256) (d : Bytes) (hd : d.length = k * w) :
    Codeword k (k + m) w (extend (parityRows k m) w (split k w d)) := by
  have hl := length_split k w d
  obtain ⟨f, hf, h⟩ := exists_tells w (split k w d) (by omega) (length_of_mem_split k w d hd)
  rw [hl] at hf
  exact ⟨by rw [length_extend, hl], f, hf, tells_extend f k m w hkm _ hl hf h⟩

theorem take_extend (k m w : Nat) (d : Bytes) :
    (extend (parityRows k m) w (split k w d)).take k = split k w d := by
  rw [extend]
  exact List.take_left' (length_split k w d)

theorem Codeword.length_of_mem {k n w : Nat} {shards : List Bytes} (h : Codeword k n w shards) :
    ∀ s ∈ shards, s.length = w := by
  obtain ⟨_, f, _, ht⟩ := h
  intro s hs
  obtain ⟨i, hi, e⟩ := List.mem_iff_getElem.1 hs
  exact (ht i s (List.getElem?_eq_some_iff.2 ⟨hi, e⟩)).1

/-- any `k` shards of a codeword give back the first `k` -/
theorem repair_of_kept {k n w : Nat} (hn : n ≤ 256) {shards : List Bytes}
    (hc : Codeword k n w shards) {slots : Slots} (hs : Kept shards slots)
    (hk : k ≤ (slots.filterMap id).length) :
    repair (repairRows k (present slots)) w slots = shards.take k := by
  obtain ⟨hl, f, hf, ht⟩ := hc
  have hsl := hs.length_eq
  obtain ⟨hr, hrt⟩ := tells_repair f k w slots (by omega) hk hf
    fun i s e => ht i s (hs.getElem?_eq e)
  have hkn : k ≤ slots.length := Nat.le_trans hk (List.length_filterMap_le ..)
  apply List.ext_getElem
  · rw [List.length_take]
    exact hr.trans (by omega)
  · intro i hi hi'
    rw [List.getElem_take]
    rw [List.length_take] at hi'
    exact (hrt i _ (List.getElem?_eq_getElem hi)).unique
      (ht i _ (List.getElem?_eq_getElem (by omega)))

/-! ## consecutive codewords -/

theorem kept_gather_cons {n w : Nat} {cw : List Bytes} (hl : cw.length = n)
    (hw : ∀ s ∈ cw, s.length = w) {rest : List (List Bytes)} {slots : Slots}
    (h : Kept (gather n (cw :: rest)) slots) :
    Kept cw (slots.map fun p => p.map (List.take w))
      ∧ Kept (gather n rest) (slots.map fun p => p.map (List.drop w)) := by
  have hsl : slots.length = n := by
    rw [h.length_eq, gather, List.length_map, List.length_range]
  have key : ∀ (i : Nat) (b : Bytes), slots[i]? = some (some b) →
      ∃ s, cw[i]? = some s ∧ b.take w = s ∧ (gather n rest)[i]? = some (b.drop w) := by
    intro i b hb
    have hi : i < n := by
      have := (List.getElem?_eq_some_iff.1 hb).1
      omega
    have hp := h.getElem?_eq hb
    rw [gather, List.getElem?_map, List.getElem?_range hi, Option.map_some, Option.some_inj,
      List.flatMap_cons] at hp
    have hc : cw[i]? = some cw[i] := List.getElem?_eq_getElem (by omega)
    have hlen := hw _ (List.mem_of_getElem? hc)
    rw [List.getD_eq_getElem?_getD, hc, Option.getD_some] at hp
    refine ⟨cw[i], hc, ?_, ?_⟩
    · rw [← hp, List.take_left' hlen]
    · rw [← hp, List.drop_left' hlen, gather, List.getElem?_map, List.getElem?_range hi]
      rfl
  constructor
  · apply kept_of_getElem? (by rw [List.length_map]; omega)
    intro i b hb
    rw [List.getElem?_map] at hb
    obtain ⟨o, ho, e⟩ := Option.map_eq_some_iff.1 hb
    obtain ⟨b', rfl, rfl⟩ := Option.map_eq_some_iff.1 e
    obtain ⟨s, hs, e, _⟩ := key i b' ho
    rw [hs, e]
  · apply kept_of_getElem? (by rw [List.length_map, gather, List.length_map, List.length_range, hsl])
    intro i b hb
    rw [List.getElem?_map] at hb
    obtain ⟨o, ho, e⟩ := Option.map_eq_some_iff.1 hb
    obtain ⟨b', rfl, rfl⟩ := Option.map_eq_some_iff.1 e
    obtain ⟨s, _, _, hr⟩ := key i b' ho
    exact hr

theorem present_map (g : Bytes → Bytes) (slots : Slots) :
    present (slots.map fun p => p.map g) = present slots := by
  unfold present
  rw [List.map_map]
  apply List.map_congr_left
  intro p _
  exact Option.isSome_map

theorem filterMap_map_slots (g : Bytes → Bytes) (slots : Slots) :
    (slots.map fun p => p.map g).filterMap id = (slots.filterMap id).map g := by
  rw [List.filterMap_map, List.map_filterMap]
  rfl

theorem length_filterMap_map (g : Bytes → Bytes) (slots : Slots) :
    ((slots.map fun p => p.map g).filterMap id).length = (slots.filterMap id).length := by
  rw [filterMap_map_slots, List.length_map]

theorem le_stripes {data w n : Nat} (hd : 0 < data) (hm : w % stripeWidth = 0)
    (hn : n ≤ w * data) :
    n ≤ min ((n + stripeWidth * data - 1) / (stripeWidth * data)) (w / stripeWidth)
      * (stripeWidth * data) := by
  have hpos : 0 < stripeWidth * data := Nat.mul_pos (by decide) hd
  rcases Nat.le_total ((n + stripeWidth * data - 1) / (stripeWidth * data)) (w / stripeWidth)
    with h | h
  · rw [Nat.min_eq_left h]
    have := Nat.lt_div_mul_add hpos (a := n + stripeWidth * data - 1)
    omega
  · rw [Nat.min_eq_right h, ← Nat.mul_assoc, Nat.div_mul_cancel (Nat.dvd_of_mod_eq_zero hm)]
    exact hn

/-- any `k` pieces give back the data of every stripe -/
theorem repairStripes_of_kept {k n : Nat} (hn : n ≤ 256) (cws : List (List Bytes))
    (hc : ∀ cw ∈ cws, Codeword k n stripeWidth cw) {slots : Slots} (hs : Kept (gather n cws) slots)
    (hk : k ≤ (slots.filterMap id).length) (count : Nat) (hcount : count ≤ cws.length) :
    repairStripes (repairRows k (present slots)) count slots
      = (cws.take count).map fun cw => (cw.take k).flatten := by
  induction count generalizing cws slots with
  | zero => rw [List.take_zero]; rfl
  | succ count ih =>
    cases cws with
    | nil => exact absurd hcount (Nat.not_succ_le_zero count)
    | cons cw rest =>
      have hcw := hc cw List.mem_cons_self
      obtain ⟨hfst, hrest⟩ := kept_gather_cons hcw.1 hcw.length_of_mem hs
      have h1 := repair_of_kept hn hcw hfst (by rw [length_filterMap_map]; exact hk)
      have h2 := ih rest (fun c h => hc c (List.mem_cons_of_mem _ h)) hrest
        (by rw [length_filterMap_map]; exact hk) (Nat.le_of_succ_le_succ hcount)
      rw [present_map] at h1 h2
      rw [repairStripes, h1, h2, List.take_succ_cons, List.map_cons]

/-! ## a whole chunk -/

/-- the codewords of a striped chunk of full length -/
def stripes (c : Coder) (w : Nat) (d : Bytes) : List (List Bytes) :=
  (split (w / stripeWidth) (stripeWidth * c.data) d).map fun s =>
    extend (parityRows c.data c.parity) stripeWidth (split c.data stripeWidth s)

/-- the pieces of `w` bytes of a chunk of full length -/
def pieces (c : Coder) (w : Nat) (d : Bytes) : List Bytes :=
  match c.kind with
  | .whole => extend (parityRows c.data c.parity) w (split c.data w d)
  | .striped => gather c.numPieces (c.stripes w d)

/-- the piece sizes that a code can work with -/
def Fits (c : Coder) (w : Nat) : Prop := 0 < w ∧ (c.kind = .striped → w % stripeWidth = 0)

/-- enough pieces of one length pass all checks -/
theorem recover_eq {c : Coder} {w : Nat} {slots : Slots} (hs : slots.length = c.numPieces)
    (hk : c.data ≤ (slots.filterMap id).length) (hlen : ∀ b ∈ slots.filterMap id, b.length = w)
    {n : Nat} (hn : n ≤ w * c.data) (sink : Sink) :
    pieceLength slots = w
      ∧ (c.kind = .whole → c.recover slots n sink = c.recoverWhole slots n sink)
      ∧ (c.kind = .striped → c.recover slots n sink = c.recoverStriped slots n sink) := by
  have hne : slots.filterMap id ≠ [] := by
    intro h
    rw [h] at hk
    exact absurd c.data_pos (Nat.not_lt.2 hk)
  have hwidth : pieceLength slots = w := pieceLength_of_forall hne hlen
  have hany : ((slots.filterMap id).any fun b => b.length != w) = false := by
    rw [List.any_eq_false]
    intro b hb
    simp [hlen b hb]
  refine ⟨hwidth, fun hkind => ?_, fun hkind => ?_⟩
  all_goals
    unfold recover
    simp only [hwidth, hany, hkind, if_neg (not_not.2 hs), if_neg (Nat.not_lt.2 hk),
      if_neg (Nat.not_lt.2 hn), if_neg Bool.false_ne_true]

theorem recover_ok {c : Coder} {w : Nat} (hw : c.Fits w) {slots : Slots}
    (hs : slots.length = c.numPieces) (hk : c.data ≤ (slots.filterMap id).length)
    (hlen : ∀ b ∈ slots.filterMap id, b.length = w) {n : Nat} (hn : n ≤ w * c.data) (sink : Sink)
    (hroom : sink.room = none) :
    (c.recover slots n sink).result = .ok () ∧ (c.recover slots n sink).sink.room = none := by
  obtain ⟨hwidth, hwhole, hstriped⟩ := recover_eq hs hk hlen hn sink
  cases hkind : c.kind with
  | whole =>
    rw [hwhole hkind]
    simp only [recoverWhole, hwidth, if_neg (Nat.ne_of_gt hw.1)]
    split
    · exact written_ok _ sink hroom n _
    · exact written_ok _ sink hroom n _
  | striped =>
    rw [hstriped hkind]
    simp only [recoverStriped, hwidth, if_neg (not_not.2 (hw.2 hkind))]
    exact written_ok _ sink hroom n _

section
variable (c : Coder) (w : Nat) (hw : c.Fits w) (d : Bytes) (hd : d.length = w * c.data)

theorem encode_striped (c : Coder) (hk : c.kind = .striped) (w : Nat) (hm : w % stripeWidth = 0)
    (data : Bytes) (hd : data.length ≤ w * c.data) :
    c.encode data w = .ok (gather c.numPieces (c.stripes w (data.fit (w * c.data)))) := by
  have hdiv : w * c.data = w / stripeWidth * (stripeWidth * c.data) := by
    rw [← Nat.mul_assoc, Nat.div_mul_cancel (Nat.dvd_of_mod_eq_zero hm)]
  have hpos : stripeWidth * c.data ≠ 0 :=
    Nat.ne_of_gt (Nat.mul_pos (by decide) c.data_pos)
  have hseg := segments_eq_split (w / stripeWidth) (stripeWidth * c.data) hpos
    (data.fit (w * c.data)) (by rw [Bytes.length_fit, hdiv])
  unfold encode
  rw [if_neg (by omega)]
  simp only [hk, if_neg (not_not.2 hm), hseg]
  rfl

theorem encode_eq (c : Coder) (w : Nat) (hw : c.Fits w) (data : Bytes)
    (hd : data.length ≤ w * c.data) :
    c.encode data w = .ok (c.pieces w (data.fit (w * c.data))) := by
  cases hkind : c.kind with
  | whole =>
    have h0 : ¬ (w = 0 ∧ 0 < c.parity) := fun h => absurd h.1 (Nat.ne_of_gt hw.1)
    unfold encode pieces
    rw [if_neg (by omega)]
    simp only [hkind, if_neg h0]
  | striped =>
    rw [encode_striped c hkind w (hw.2 hkind) data hd]
    simp only [pieces, hkind]

theorem length_pieces : (c.pieces w d).length = c.numPieces := by
  unfold pieces
  cases c.kind with
  | whole => simp only [length_extend, length_split, numPieces]
  | striped => simp only [gather, List.length_map, List.length_range]

include hw hd

theorem striped_length (hk : c.kind = .striped) :
    d.length = w / stripeWidth * (stripeWidth * c.data) := by
  rw [hd, ← Nat.mul_assoc, Nat.div_mul_cancel (Nat.dvd_of_mod_eq_zero (hw.2 hk))]

theorem codeword_of_mem_stripes (hk : c.kind = .striped) :
    ∀ cw ∈ c.stripes w d, Codeword c.data c.numPieces stripeWidth cw := by
  intro cw hcw
  obtain ⟨s, hs, rfl⟩ := List.mem_map.1 hcw
  have hl := length_of_mem_split _ _ _ (striped_length c w hw d hd hk) s hs
  exact codeword_extend c.data c.parity stripeWidth c.pieces_le s (by rw [hl, Nat.mul_comm])

theorem data_of_stripes (hk : c.kind = .striped) (count : Nat) :
    (((c.stripes w d).take count).map fun cw => (cw.take c.data).flatten).flatten
      = d.take (count * (stripeWidth * c.data)) := by
  have hdl := striped_length c w hw d hd hk
  have hstripe : ∀ s ∈ split (w / stripeWidth) (stripeWidth * c.data) d,
      ((extend (parityRows c.data c.parity) stripeWidth (split c.data stripeWidth s)).take
        c.data).flatten = s := by
    intro s hs
    have hsl := length_of_mem_split _ _ _ hdl s hs
    rw [take_extend, flatten_split, Nat.mul_comm c.data, ← hsl, List.take_length]
  have hmap : ((split (w / stripeWidth) (stripeWidth * c.data) d).take count).map
      ((fun cw : List Bytes => (cw.take c.data).flatten) ∘ fun s =>
        extend (parityRows c.data c.parity) stripeWidth (split c.data stripeWidth s))
      = (split (w / stripeWidth) (stripeWidth * c.data) d).take count := by
    conv_rhs => rw [← List.map_id ((split _ _ d).take count)]
    exact List.map_congr_left fun s hs => hstripe s (List.mem_of_mem_take hs)
  rw [stripes, ← List.map_take, List.map_map, hmap, take_split, flatten_split]
  rcases Nat.le_total count (w / stripeWidth) with h | h
  · rw [Nat.min_eq_left h]
  · rw [Nat.min_eq_right h, ← hdl, List.take_length]
    exact (List.take_of_length_le (by rw [hdl]; exact Nat.mul_le_mul_right _ h)).symm

theorem length_of_mem_pieces : ∀ p ∈ c.pieces w d, p.length = w := by
  unfold pieces
  cases hk : c.kind with
  | whole =>
    have hc := codeword_extend c.data c.parity w c.pieces_le d (by rw [hd, Nat.mul_comm])
    exact hc.length_of_mem
  | striped =>
    intro p hp
    obtain ⟨j, hj, rfl⟩ := List.mem_map.1 hp
    have hj := List.mem_range.1 hj
    have hlen : ∀ cw ∈ c.stripes w d, (cw.getD j []).length = stripeWidth := by
      intro cw hcw
      have hc := codeword_of_mem_stripes c w hw d hd hk cw hcw
      have hjc : j < cw.length := by rw [hc.1]; exact hj
      rw [List.getD_eq_getElem _ _ hjc]
      exact hc.length_of_mem _ (List.getElem_mem hjc)
    rw [List.length_flatMap, List.map_congr_left hlen, List.map_const', List.sum_replicate,
      stripes, List.length_map, length_split, smul_eq_mul,
      Nat.div_mul_cancel (Nat.dvd_of_mod_eq_zero (hw.2 hk))]

/-- enough pieces of a chunk lead to its first bytes being written -/
theorem recover_of_kept {slots : Slots} (hs : Kept (c.pieces w d) slots)
    (hk : c.data ≤ (slots.filterMap id).length) (n : Nat) (hn : n ≤ w * c.data) (sink : Sink) :
    ∃ slots' blocks, c.recover slots n sink = written slots' sink n blocks
      ∧ blocks.flatten.take n = d.take n := by
  have hlen := length_of_mem_pieces c w hw d hd
  have hcount : slots.length = c.numPieces := by rw [hs.length_eq, length_pieces]
  obtain ⟨hwidth, hwhole, hstriped⟩ :=
    recover_eq hcount hk (fun b hb => hlen b (hs.mem hb)) hn sink
  unfold pieces at hs
  cases hkind : c.kind with
  | whole =>
    simp only [hkind] at hs
    have hd' : d.length = c.data * w := by rw [hd, Nat.mul_comm]
    have hc := codeword_extend c.data c.parity w c.pieces_le d hd'
    have hfl : (split c.data w d).flatten = d := by
      rw [flatten_split, ← hd', List.take_length]
    rw [hwhole hkind]
    simp only [recoverWhole, hwidth, if_neg (Nat.ne_of_gt hw.1)]
    split
    · refine ⟨_, _, rfl, ?_⟩
      rw [repair_of_kept c.pieces_le hc hs hk, take_extend, hfl]
    · next hgap =>
      refine ⟨_, _, rfl, ?_⟩
      have hfull : (slots.take c.data).filterMap id = split c.data w d := by
        have hall : ∀ o ∈ slots.take c.data, o.isSome := by
          intro o ho
          cases o with
          | some b => rfl
          | none =>
            exact absurd (List.any_eq_true.2 ⟨none, ho, rfl⟩) hgap
        have hkept : Kept (split c.data w d) (slots.take c.data) := by
          have := List.forall₂_take c.data hs
          rwa [take_extend] at this
        clear hgap
        generalize split c.data w d = ps at hkept
        generalize slots.take c.data = l at hkept hall
        induction hkept with
        | nil => rfl
        | @cons p o _ _ hx _ ih =>
          have ho : o = some p := by
            rcases hx with hx | hx
            · have := hall o List.mem_cons_self
              rw [hx] at this
              cases this
            · exact hx
          rw [ho]
          show p :: _ = _
          rw [ih fun o' h' => hall o' (List.mem_cons_of_mem _ h')]
      rw [hfull, hfl]
  | striped =>
    simp only [hkind] at hs
    have hm := hw.2 hkind
    rw [hstriped hkind]
    simp only [recoverStriped, hwidth, if_neg (not_not.2 hm)]
    refine ⟨_, _, rfl, ?_⟩
    have hcw := codeword_of_mem_stripes c w hw d hd hkind
    have hl : (c.stripes w d).length = w / stripeWidth := by
      rw [stripes, List.length_map, length_split]
    rw [repairStripes_of_kept c.pieces_le _ hcw hs hk _ (by omega),
      data_of_stripes c w hw d hd hkind, List.take_take]
    congr 1
    exact Nat.min_eq_left (le_stripes c.data_pos hm hn)

end

end Coder

end Reclaim

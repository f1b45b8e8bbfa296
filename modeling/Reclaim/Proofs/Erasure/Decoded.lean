import Reclaim.Proofs.Erasure.Acceptable

/-!
# The data that pieces stand for

Any pieces of one length stand for some data, whether they were made from data or not: the first of
them, as many as there are data pieces, are pieces of exactly one chunk.

* `flatten_eq_iff`      blocks of one length put together, and cut apart again;
* `decoded_eq_iff`      what pieces stand for is the one chunk of which the first pieces are pieces;
* `recover_decoded`     recovering writes the first bytes of it;
* `recover_encodes_back`    encoding what was recovered gives the first pieces again, and the others
                        do not matter.
-/

namespace Reclaim.Coder

open Erasure

/-! ## blocks put together -/

theorem split_flatten {l : List Bytes} {w : Nat} (hw : ∀ b ∈ l, b.length = w) :
    split l.length w l.flatten = l := by
  induction l with
  | nil => rfl
  | cons b r ih =>
    have hb := hw b List.mem_cons_self
    rw [List.length_cons, split_succ, List.flatten_cons, List.take_left' hb, List.drop_left' hb,
      ih fun b' h => hw b' (List.mem_cons_of_mem _ h)]

theorem flatten_eq_iff {l : List Bytes} {w : Nat} {d : Bytes} (hw : ∀ b ∈ l, b.length = w)
    (hd : d.length = l.length * w) : l.flatten = d ↔ l = split l.length w d := by
  constructor
  · rintro rfl
    exact (split_flatten hw).symm
  · intro h
    rw [h, flatten_split, ← hd, List.take_length]

theorem flatMap_eq_iff {g : Nat → Bytes} {s u : Nat} {d : Bytes} (hg : ∀ i < s, (g i).length = u)
    (hd : d.length = s * u) :
    (List.range s).flatMap g = d ↔ ∀ i < s, g i = (d.drop (i * u)).take u := by
  have hw : ∀ b ∈ (List.range s).map g, b.length = u := by
    intro b hb
    obtain ⟨i, hi, rfl⟩ := List.mem_map.1 hb
    exact hg i (List.mem_range.1 hi)
  have hl : ((List.range s).map g).length = s := by simp
  rw [List.flatMap_def, flatten_eq_iff hw (by rw [hl, hd]), hl]
  unfold split
  rw [List.map_inj_left]
  simp only [List.mem_range]

theorem gather_eq_iff {count s u : Nat} {cw : Nat → List Bytes}
    (hcw : ∀ i < s, (cw i).length = count ∧ ∀ b ∈ cw i, b.length = u) {j : Nat} (hj : j < count)
    {b : Bytes} (hb : b.length = s * u) :
    (gather count ((List.range s).map cw))[j]? = some b
      ↔ ∀ i < s, (cw i)[j]? = some ((b.drop (i * u)).take u) := by
  have hshard : ∀ i < s, (cw i)[j]? = some ((cw i).getD j []) := by
    intro i hi
    have hl : j < (cw i).length := by rw [(hcw i hi).1]; exact hj
    rw [List.getD_eq_getElem _ _ hl, List.getElem?_eq_getElem hl]
  have hlen : ∀ i < s, ((cw i).getD j []).length = u := by
    intro i hi
    exact (hcw i hi).2 _ (List.mem_of_getElem? (hshard i hi))
  have hg : (gather count ((List.range s).map cw))[j]?
      = some ((List.range s).flatMap fun i => (cw i).getD j []) := by
    rw [gather, List.getElem?_map, List.getElem?_range hj, Option.map_some, List.flatMap_map]
  rw [hg, Option.some_inj, flatMap_eq_iff hlen hb]
  apply forall₂_congr
  intro i hi
  rw [hshard i hi, Option.some_inj]

/-! ## what pieces stand for -/

theorem decoded_whole {c : Coder} {slots : Slots} (hkind : c.kind = .whole) :
    c.decoded slots = (c.dataPieces slots).flatten := by
  simp only [decoded, hkind]

theorem encode_of_length {c : Coder} {w : Nat} (hw : c.Fits w) {d : Bytes}
    (hd : d.length = w * c.data) : c.encode d w = .ok (c.pieces w d) := by
  rw [encode_eq c w hw d (Nat.le_of_eq hd), Bytes.fit_of_length_eq _ _ hd]

/-- the codeword of stripe number `i` of a chunk -/
def stripeCodeword (c : Coder) (d : Bytes) (i : Nat) : List Bytes :=
  extend (parityRows c.data c.parity) stripeWidth
    (split c.data stripeWidth ((d.drop (i * (stripeWidth * c.data))).take (stripeWidth * c.data)))

theorem stripes_eq (c : Coder) (w : Nat) (d : Bytes) :
    c.stripes w d = (List.range (w / stripeWidth)).map (c.stripeCodeword d) := by
  rw [stripes, split, List.map_map]
  rfl

section
variable {c : Coder} {w : Nat} {slots : Slots} (hw : c.Fits w) (hs : slots.length = c.numPieces)
  (hk : c.data ≤ (slots.filterMap id).length) (hlen : ∀ b ∈ slots.filterMap id, b.length = w)
include hw hk hlen

omit hk in
theorem striped_lengths (hkind : c.kind = .striped) :
    ∀ b ∈ slots.filterMap id, b.length = w / stripeWidth * stripeWidth := by
  intro b hb
  rw [hlen b hb, Nat.div_mul_cancel (Nat.dvd_of_mod_eq_zero (hw.2 hkind))]

omit hw in
theorem decoded_striped (hkind : c.kind = .striped) :
    c.decoded slots = (List.range (w / stripeWidth)).flatMap (c.stripeData slots) := by
  simp only [decoded, hkind, pieceLength_of_forall (filterMap_ne_nil hk) hlen]

theorem length_decoded : (c.decoded slots).length = w * c.data := by
  cases hkind : c.kind with
  | whole =>
    rw [decoded_whole hkind, length_flatten_of_forall (length_of_mem_dataPieces hk hlen),
      length_dataPieces hk, Nat.mul_comm]
  | striped =>
    have hlen' := striped_lengths hw hlen hkind
    rw [decoded_striped hk hlen hkind, List.flatMap_def,
      length_flatten_of_forall (w := c.data * stripeWidth), List.length_map, List.length_range,
      Nat.mul_comm c.data, ← Nat.mul_assoc,
      Nat.div_mul_cancel (Nat.dvd_of_mod_eq_zero (hw.2 hkind))]
    intro b hb
    obtain ⟨i, hi, rfl⟩ := List.mem_map.1 hb
    exact length_stripeData hk hlen' (List.mem_range.1 hi)

omit hw

include hs

theorem dataPieces_eq_iff {d : Bytes} (hd : d.length = c.data * w) :
    (c.dataPieces slots).flatten = d
      ↔ ∀ e ∈ (entries slots).take c.data,
          (extend (parityRows c.data c.parity) w (split c.data w d))[e.1]? = some e.2 := by
  have hcount : slots.length ≤ 256 := by
    rw [hs]
    exact c.pieces_le
  have hwidth := pieceLength_of_forall (filterMap_ne_nil hk) hlen
  rw [flatten_eq_iff (length_of_mem_dataPieces hk hlen) (by rw [length_dataPieces hk, hd]),
    length_dataPieces hk, dataPieces, hwidth]
  exact repair_eq_iff hk hcount hs hlen (length_split ..) (length_of_mem_split _ _ _ hd)

include hw

/-- pieces stand for the one chunk of which the first of them are pieces -/
theorem decoded_eq_iff {d : Bytes} (hd : d.length = w * c.data) :
    c.decoded slots = d ↔ ∀ e ∈ (entries slots).take c.data, (c.pieces w d)[e.1]? = some e.2 := by
  unfold pieces
  cases hkind : c.kind with
  | whole =>
    rw [decoded_whole hkind]
    exact dataPieces_eq_iff hs hk hlen (by rw [hd, Nat.mul_comm])
  | striped =>
    have hlen' := striped_lengths hw hlen hkind
    have hdl := striped_length c w hw d hd hkind
    have hdl' : d.length = w / stripeWidth * (c.data * stripeWidth) := by
      rw [hdl, Nat.mul_comm c.data]
    rw [decoded_striped hk hlen hkind,
      flatMap_eq_iff (fun i hi => length_stripeData hk hlen' hi) hdl']
    have hcw : ∀ i < w / stripeWidth, (c.stripeCodeword d i).length = c.numPieces
        ∧ ∀ b ∈ c.stripeCodeword d i, b.length = stripeWidth := by
      intro i hi
      have h := codeword_of_mem_stripes c w hw d hd hkind (c.stripeCodeword d i)
        (by rw [stripes_eq]; exact List.mem_map.2 ⟨i, List.mem_range.2 hi, rfl⟩)
      exact ⟨h.1, h.length_of_mem⟩
    have hstripe : ∀ i < w / stripeWidth,
        c.stripeData slots i = (d.drop (i * (c.data * stripeWidth))).take (c.data * stripeWidth)
          ↔ ∀ e ∈ (entries slots).take c.data, (c.stripeCodeword d i)[e.1]?
              = some ((e.2.drop (i * stripeWidth)).take stripeWidth) := by
      intro i hi
      have hl := length_of_mem_split _ _ _ hdl _ (List.mem_map.2 ⟨i, List.mem_range.2 hi, rfl⟩)
      rw [Nat.mul_comm c.data, stripeData, dataPieces_eq_iff ((length_slice i slots).trans hs)
        (enough_slice hk i) (length_of_mem_slice hlen' hi) (by rw [hl, Nat.mul_comm]), slice,
        entries_map, ← List.map_take]
      exact List.forall_mem_map
    have hgather : ∀ e ∈ (entries slots).take c.data,
        ((gather c.numPieces (c.stripes w d))[e.1]? = some e.2
          ↔ ∀ i < w / stripeWidth, (c.stripeCodeword d i)[e.1]?
              = some ((e.2.drop (i * stripeWidth)).take stripeWidth)) := by
      intro e he
      have hplace := mem_entries.1 (List.mem_of_mem_take he)
      have hj : e.1 < c.numPieces := by
        rw [← hs]
        exact (List.getElem?_eq_some_iff.1 hplace).1
      rw [stripes_eq]
      exact gather_eq_iff hcw hj
        (hlen' _ (List.mem_filterMap.2 ⟨some e.2, List.mem_of_getElem? hplace, rfl⟩))
    dsimp only
    constructor
    · intro h e he
      rw [hgather e he]
      intro i hi
      exact (hstripe i hi).1 (h i hi) e he
    · intro h i hi
      rw [hstripe i hi]
      intro e he
      exact (hgather e he).1 (h e he) i hi

/-- recovering writes the first bytes of the data that the pieces stand for -/
theorem recover_decoded {n : Nat} (hn : n ≤ w * c.data) (sink : Sink) (hroom : sink.room = none) :
    (c.recover slots n sink).result = .ok ()
      ∧ (c.recover slots n sink).sink.bytes = sink.bytes ++ (c.decoded slots).take n :=
  (acceptable_of_length hs hk hlen hn hw.2 fun _ => hw.1).recover_fits (Sink.not_lacks hroom n)

end

/-! ## there and back -/

/-- pieces of one length, made from data or not, are recovered to data of which the first of them,
as many as there are data pieces, are pieces; no other data have these pieces, and all slots that
begin with the same pieces are recovered to the same, whatever the surplus pieces are -/
theorem recover_encodes_back (c : Coder) (w : Nat) (hw : c.Fits w) (slots : Slots)
    (hs : slots.length = c.data + c.parity) (hk : c.data ≤ (slots.filterMap id).length)
    (hlen : ∀ b ∈ slots.filterMap id, b.length = w) :
    ∃ data pieces, data.length = w * c.data
      ∧ (∀ sink : Sink, sink.room = none →
          (c.recover slots (w * c.data) sink).result = .ok ()
            ∧ (c.recover slots (w * c.data) sink).sink.bytes = sink.bytes ++ data)
      ∧ c.encode data w = .ok pieces
      ∧ (∀ e ∈ (entries slots).take c.data, pieces[e.1]? = some e.2)
      ∧ (∀ data' pieces', data'.length = w * c.data → c.encode data' w = .ok pieces' →
          (∀ e ∈ (entries slots).take c.data, pieces'[e.1]? = some e.2) → data' = data)
      ∧ ∀ slots' : Slots, slots'.length = c.data + c.parity →
          (∀ b ∈ slots'.filterMap id, b.length = w) →
          (entries slots').take c.data = (entries slots).take c.data →
          ∀ sink : Sink, sink.room = none →
            (c.recover slots' (w * c.data) sink).result = .ok ()
              ∧ (c.recover slots' (w * c.data) sink).sink.bytes = sink.bytes ++ data := by
  have hfull : ∀ d : Bytes, d.length = w * c.data → d.fit (w * c.data) = d := fun d hd =>
    Bytes.fit_of_length_eq _ _ hd
  have hencode : ∀ d : Bytes, d.length = w * c.data → c.encode d w = .ok (c.pieces w d) := by
    intro d hd
    rw [encode_eq c w hw d (Nat.le_of_eq hd), hfull d hd]
  have hl := length_decoded hw hk hlen
  have hfirst := (decoded_eq_iff hw hs hk hlen hl).1 rfl
  have hrec : ∀ slots' : Slots, slots'.length = c.data + c.parity →
      (∀ b ∈ slots'.filterMap id, b.length = w) →
      (entries slots').take c.data = (entries slots).take c.data →
      ∀ sink : Sink, sink.room = none →
        (c.recover slots' (w * c.data) sink).result = .ok ()
          ∧ (c.recover slots' (w * c.data) sink).sink.bytes
              = sink.bytes ++ c.decoded slots := by
    intro slots' hs' hlen' hsame sink hroom
    have hk' : c.data ≤ (slots'.filterMap id).length := by
      have h := congrArg List.length hsame
      rw [List.length_take, List.length_take, length_entries, length_entries] at h
      omega
    have hdata : c.decoded slots' = c.decoded slots := by
      rw [decoded_eq_iff hw hs' hk' hlen' hl, hsame]
      exact hfirst
    obtain ⟨hok, hbytes⟩ := recover_decoded hw hs' hk' hlen' (Nat.le_refl _) sink hroom
    refine ⟨hok, ?_⟩
    rw [hbytes, hdata, ← hl, List.take_length]
  refine ⟨c.decoded slots, c.pieces w (c.decoded slots), hl, hrec slots hs hlen rfl,
    hencode _ hl, hfirst, fun data' pieces' hd' he h => ?_, hrec⟩
  rw [hencode data' hd', Except.ok.injEq] at he
  rw [← he] at h
  exact ((decoded_eq_iff hw hs hk hlen hd').2 h).symm

theorem recover_encodes_back_surplus :
    let c : Coder := ⟨.whole, 2, 2, by decide, by decide⟩
    let slots : Slots := [none, some [7, 9], some [11, 29], some [0, 17]]
    c.Fits 2 ∧ slots.length = c.data + c.parity ∧ c.data ≤ (slots.filterMap id).length
      ∧ (∀ b ∈ slots.filterMap id, b.length = 2)
      ∧ (∀ sink : Sink, sink.room = none →
          (c.recover slots 4 sink).result = .ok ()
            ∧ (c.recover slots 4 sink).sink.bytes = sink.bytes ++ [3, 5, 7, 9])
      ∧ c.encode [3, 5, 7, 9] 2 = .ok [[3, 5], [7, 9], [11, 29], [15, 17]]
      ∧ ∀ sink : Sink, sink.room = none →
          (c.recover [none, some [7, 9], some [11, 29], none] 4 sink).result = .ok ()
            ∧ (c.recover [none, some [7, 9], some [11, 29], none] 4 sink).sink.bytes
                = sink.bytes ++ [3, 5, 7, 9] := by
  intro c slots
  have hw : c.Fits 2 := ⟨by decide, fun h => by cases h⟩
  have hlen : ∀ b ∈ slots.filterMap id, b.length = 2 := by decide
  have hpieces : c.encode [3, 5, 7, 9] 2 = .ok [[3, 5], [7, 9], [11, 29], [15, 17]] := by
    decide +kernel
  obtain ⟨data, pieces, -, hrec, -, -, hunique, hsurplus⟩ :=
    recover_encodes_back c 2 hw slots rfl (by decide) hlen
  have hdata := hunique [3, 5, 7, 9] _ rfl hpieces (by decide)
  rw [← hdata] at hrec hsurplus
  exact ⟨hw, rfl, by decide, hlen, hrec, hpieces,
    hsurplus [none, some [7, 9], some [11, 29], none] rfl (by decide) (by decide)⟩

end Reclaim.Coder

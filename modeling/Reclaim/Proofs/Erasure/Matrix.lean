import Mathlib.LinearAlgebra.Matrix.NonsingularInverse
import Mathlib.LinearAlgebra.Vandermonde
import Reclaim.Proofs.Erasure.AnyPieces

/-!
# The coding matrix

The rows of `powers n k` are the powers of the places.  The matrix of a code is that matrix for all
shards times the inverse of its top square (`codingMatrix`), so that the data shards come out as
they are.

* `byteAt_extend`      every shard of a codeword is its row times the data shards;
* `byteAt_pieces`      the same of the pieces of a whole chunk;
* `any_pieces_recover` encoding gives those pieces, and enough of them give the chunk back.
-/

namespace Reclaim

open Field256 Erasure Polynomial

namespace Erasure

/-! ## rows of powers -/

/-- the powers below `k` of the first `n` places, a row for each place -/
def powers (n k : Nat) : Matrix (Fin n) (Fin k) Element := fun r c => (⟨place r⟩ : Element) ^ (c : Nat)

/-- the matrix that takes `k` data shards to all `k + m` shards -/
noncomputable def codingMatrix (k m : Nat) : Matrix (Fin (k + m)) (Fin k) Element :=
  powers (k + m) k * (powers k k)⁻¹

theorem powers_mulVec (n k : Nat) (p : Element[X]) (hp : p.degree < k) (r : Fin n) :
    (powers n k).mulVec (fun c => p.coeff c) r = p.eval ⟨place r⟩ := by
  rw [eval_eq_sum_degreeLTEquiv (mem_degreeLT.2 hp)]
  show (∑ c : Fin k, (⟨place r⟩ : Element) ^ (c : Nat) * p.coeff c) = _
  apply Finset.sum_congr rfl
  intro c _
  rw [mul_comm]
  rfl

theorem isUnit_det_powers (k : Nat) (hk : k ≤ 256) : IsUnit (powers k k).det := by
  have e : powers k k = Matrix.vandermonde fun r : Fin k => (⟨place r⟩ : Element) := rfl
  rw [e, isUnit_iff_ne_zero, Matrix.det_vandermonde_ne_zero_iff]
  intro i j h
  have h1 := i.isLt
  have h2 := j.isLt
  exact Fin.ext (place_inj (by omega) (by omega) (Element.mk_injective h))

theorem codingMatrix_mulVec (k m : Nat) (hkm : k + m ≤ 256) (p : Element[X]) (hp : p.degree < k)
    (r : Fin (k + m)) :
    (codingMatrix k m).mulVec (fun i : Fin k => p.eval ⟨place i⟩) r = p.eval ⟨place r⟩ := by
  have hin : (fun i : Fin k => p.eval (⟨place i⟩ : Element)) = (powers k k).mulVec fun c => p.coeff c := by
    funext i
    exact (powers_mulVec k k p hp i).symm
  rw [hin, Matrix.mulVec_mulVec, codingMatrix, Matrix.mul_assoc,
    Matrix.nonsing_inv_mul _ (isUnit_det_powers k (by omega)), Matrix.mul_one,
    powers_mulVec _ _ p hp]

theorem byteAt_extend (k m w : Nat) (hkm : k + m ≤ 256) (shards : List Bytes)
    (hk : shards.length = k) (hw : ∀ s ∈ shards, s.length = w) (j : Fin (k + m)) (b : Nat)
    (hb : b < w) :
    byteAt ((extend (parityRows k m) w shards).getD j []) b
      = ∑ i : Fin k, codingMatrix k m j i * byteAt (shards.getD i []) b := by
  obtain ⟨f, hf, h⟩ := exists_tells w shards (by omega) hw
  rw [hk] at hf
  have hj : (j : Nat) < (extend (parityRows k m) w shards).length := by
    rw [length_extend, hk]
    exact j.isLt
  have ht := tells_extend f k m w hkm shards hk hf h j _ (List.getElem?_eq_getElem hj)
  rw [List.getD_eq_getElem _ _ hj, ht.2 b hb, ← codingMatrix_mulVec k m hkm (f b) (hf b) j]
  show (∑ i : Fin k, codingMatrix k m j i * (f b).eval ⟨place i⟩) = _
  apply Finset.sum_congr rfl
  intro i _
  have hi : (i : Nat) < shards.length := by
    rw [hk]
    exact i.isLt
  rw [List.getD_eq_getElem _ _ hi, (h i _ (List.getElem?_eq_getElem hi)).2 b hb]

end Erasure

namespace Coder

/-! ## where the bytes of a piece come from -/

/-- where the byte of data piece `i` stands in a chunk that stands at `b` in the piece -/
def offset (c : Coder) (w i b : Nat) : Nat :=
  match c.kind with
  | .whole => i * w + b
  | .striped => b / stripeWidth * (stripeWidth * c.data) + (i * stripeWidth + b % stripeWidth)

theorem byteAt_window (d : Bytes) (w at_ b : Nat) (hb : b < w) :
    byteAt ((d.drop at_).take w) b = byteAt d (at_ + b) := by
  unfold byteAt
  rw [List.getD_eq_getElem?_getD, List.getElem?_take_of_lt hb, List.getElem?_drop,
    List.getD_eq_getElem?_getD]

theorem byteAt_split (k w : Nat) (d : Bytes) (i b : Nat) (hi : i < k) (hb : b < w) :
    byteAt ((split k w d).getD i []) b = byteAt d (i * w + b) := by
  rw [List.getD_eq_getElem?_getD, getElem?_split k w d i hi, Option.getD_some,
    byteAt_window d w _ b hb]

theorem byteAt_flatMap {α : Type} (w : Nat) (g : α → Bytes) (l : List α)
    (hg : ∀ a ∈ l, (g a).length = w) (q r : Nat) (hr : r < w) (a : α) (ha : l[q]? = some a) :
    byteAt (l.flatMap g) (q * w + r) = byteAt (g a) r := by
  have hget : ∀ (s t : Bytes) (i : Nat), byteAt (s ++ t) (s.length + i) = byteAt t i := by
    intro s t i
    unfold byteAt
    rw [List.getD_eq_getElem?_getD, List.getElem?_append_right (Nat.le_add_right ..),
      Nat.add_sub_cancel_left, List.getD_eq_getElem?_getD]
  induction l generalizing q with
  | nil => rw [List.getElem?_nil] at ha; cases ha
  | cons x l ih =>
    have hx := hg x List.mem_cons_self
    rw [List.flatMap_cons]
    cases q with
    | zero =>
      rw [List.getElem?_cons_zero, Option.some_inj] at ha
      rw [ha] at hx ⊢
      rw [Nat.zero_mul, Nat.zero_add]
      unfold byteAt
      rw [List.getD_eq_getElem?_getD, List.getElem?_append_left (by omega),
        List.getD_eq_getElem?_getD]
    | succ q =>
      have e : (q + 1) * w + r = (g x).length + (q * w + r) := by rw [hx, Nat.succ_mul]; omega
      rw [e, hget]
      exact ih (fun a h => hg a (List.mem_cons_of_mem _ h)) q ha

section
variable (c : Coder) (w : Nat) (hw : c.Fits w) (d : Bytes) (hd : d.length = w * c.data)
include hw hd

/-- every piece of a chunk is its row of the matrix times the data -/
theorem byteAt_pieces (j : Fin (c.data + c.parity)) (b : Nat) (hb : b < w) :
    byteAt ((c.pieces w d).getD j []) b
      = ∑ i : Fin c.data, codingMatrix c.data c.parity j i * byteAt d (c.offset w i b) := by
  unfold pieces offset
  cases hk : c.kind with
  | whole =>
    have hd' : d.length = c.data * w := by rw [hd, Nat.mul_comm]
    show byteAt ((extend _ w (split c.data w d)).getD j []) b = _
    rw [byteAt_extend c.data c.parity w c.pieces_le _ (length_split ..)
      (length_of_mem_split _ _ _ hd') j b hb]
    apply Finset.sum_congr rfl
    intro i _
    rw [byteAt_split c.data w d i b i.isLt hb]
  | striped =>
    have hdl := striped_length c w hw d hd hk
    have hr : b % stripeWidth < stripeWidth := Nat.mod_lt _ (by decide)
    have hq : b / stripeWidth < w / stripeWidth :=
      Nat.div_lt_div_of_lt_of_dvd (Nat.dvd_of_mod_eq_zero (hw.2 hk)) hb
    have hcw : (c.stripes w d)[b / stripeWidth]?
        = some (extend (parityRows c.data c.parity) stripeWidth (split c.data stripeWidth
            ((d.drop (b / stripeWidth * (stripeWidth * c.data))).take (stripeWidth * c.data)))) := by
      rw [stripes, List.getElem?_map, getElem?_split _ _ _ _ hq]
      rfl
    have hlen : ∀ cw ∈ c.stripes w d, (cw.getD j []).length = stripeWidth := by
      intro cw h
      have hc := codeword_of_mem_stripes c w hw d hd hk cw h
      have hj : (j : Nat) < cw.length := by rw [hc.1]; exact j.isLt
      rw [List.getD_eq_getElem _ _ hj]
      exact hc.length_of_mem _ (List.getElem_mem hj)
    have hpiece : (gather c.numPieces (c.stripes w d)).getD j []
        = (c.stripes w d).flatMap fun shards => shards.getD j [] := by
      have hj : (j : Nat) < c.numPieces := j.isLt
      rw [gather, List.getD_eq_getElem?_getD, List.getElem?_map, List.getElem?_range hj]
      rfl
    have hstripe := length_of_mem_split _ _ _ hdl _
      (List.mem_of_getElem? (getElem?_split (w / stripeWidth) (stripeWidth * c.data) d _ hq))
    have hsl := length_of_mem_split c.data stripeWidth _ (by rw [hstripe, Nat.mul_comm])
    show byteAt ((gather c.numPieces (c.stripes w d)).getD j []) b = _
    conv_lhs => rw [hpiece, ← Nat.div_add_mod' b stripeWidth]
    rw [byteAt_flatMap stripeWidth _ _ hlen _ _ hr _ hcw,
      byteAt_extend c.data c.parity stripeWidth c.pieces_le _ (length_split ..) hsl j _ hr]
    apply Finset.sum_congr rfl
    intro i _
    have hi : (i + 1) * stripeWidth ≤ c.data * stripeWidth := Nat.mul_le_mul_right _ i.isLt
    rw [Nat.succ_mul] at hi
    rw [byteAt_split c.data stripeWidth _ i _ i.isLt hr, byteAt_window _ _ _ _ (by
      rw [Nat.mul_comm stripeWidth c.data]
      omega)]

end

/-! ## the whole way -/

/-- encoding makes the pieces that the coding matrix says, and any of them that are as many as there
are data pieces lead to the first bytes of the padded data being written -/
theorem any_pieces_recover (c : Coder) (w : Nat) (hw : c.Fits w) (data : Bytes)
    (hd : data.length ≤ w * c.data) :
    ∃ pieces, c.encode data w = .ok pieces ∧ pieces.length = c.data + c.parity
      ∧ (∀ p ∈ pieces, p.length = w)
      ∧ (∀ (j : Fin (c.data + c.parity)) (b : Nat), b < w →
          byteAt (pieces.getD j []) b = ∑ i : Fin c.data, codingMatrix c.data c.parity j i
            * byteAt (data.fit (w * c.data)) (c.offset w i b))
      ∧ ∀ (slots : Slots) (n : Nat) (sink : Sink), Kept pieces slots →
          c.data ≤ (slots.filterMap id).length → n ≤ w * c.data → sink.room = none →
          (c.recover slots n sink).result = .ok ()
            ∧ (c.recover slots n sink).sink.bytes
                = sink.bytes ++ (data.fit (w * c.data)).take n := by
  have hl : (data.fit (w * c.data)).length = w * c.data := Bytes.length_fit ..
  refine ⟨_, encode_eq c w hw data hd, length_pieces c w _, length_of_mem_pieces c w hw _ hl,
    byteAt_pieces c w hw _ hl, ?_⟩
  intro slots n sink hs hk hn hroom
  obtain ⟨slots', blocks, hrec, hblocks⟩ := recover_of_kept c w hw _ hl hs hk n hn sink
  obtain ⟨hok, -, hbytes⟩ := Sink.writeBlocks_unbounded sink hroom n blocks
  rw [hrec]
  refine ⟨?_, ?_⟩
  · show (if (sink.writeBlocks n blocks).1 then _ else _) = _
    rw [hok]
    rfl
  · rw [← hblocks]
    exact hbytes

theorem any_pieces_recover_small :
    (⟨.whole, 2, 1, by decide, by decide⟩ : Coder).encode [5, 9] 1 = .ok [[5], [9], [29]]
      ∧ ((⟨.whole, 2, 1, by decide, by decide⟩ : Coder).recover
          [none, some [9], some [29]] 2 (Sink.ofLimit none)).sink.bytes = [5, 9] := by
  have hw : (⟨.whole, 2, 1, by decide, by decide⟩ : Coder).Fits 1 :=
    ⟨by decide, fun h => absurd h (by decide)⟩
  obtain ⟨pieces, he, -, -, -, hrec⟩ := any_pieces_recover _ 1 hw [5, 9] (by decide)
  have hcode : (⟨.whole, 2, 1, by decide, by decide⟩ : Coder).encode [5, 9] 1
      = .ok [[5], [9], [29]] := by decide
  refine ⟨hcode, ?_⟩
  have hpieces : pieces = [[5], [9], [29]] := Except.ok.inj (he.symm.trans hcode)
  have hk : Kept pieces [none, some [9], some [29]] := by
    rw [hpieces]
    exact .cons (.inl rfl) (.cons (.inr rfl) (.cons (.inr rfl) .nil))
  exact (hrec _ 2 (Sink.ofLimit none) hk (by decide) (by decide) rfl).2

end Coder

end Reclaim

import Mathlib.Data.List.GetD
import Mathlib.LinearAlgebra.Lagrange
import Reclaim.Erasure.Interpolation
import Reclaim.Proofs.Erasure.FieldLaws

/-!
# Weighted sums of shards are values of polynomials

* `byteAt s b`        byte `b` of a shard as an element of the field;
* `Tells f w x s`     the shard `s` has `w` bytes, and byte `b` is the value of `f b` at `x`;
* `mk_weight`         `weight nodes i x` is the value at `x` of the Lagrange basis polynomial;
* `tells_combine`     shards at as many nodes as there are coefficients give the shard at any
                      other place.
-/

namespace Reclaim.Erasure

open Field256 Polynomial

/-! ## bytes of shards -/

/-- byte `b` of a shard as an element of the field, zero behind the end -/
def byteAt (s : Bytes) (b : Nat) : Element := ⟨s.getD b 0⟩

theorem byteAt_replicate (w b : Nat) : byteAt (List.replicate w 0) b = 0 := by
  unfold byteAt
  rw [List.getD_eq_getElem?_getD, List.getElem?_replicate]
  split <;> rfl

theorem byteAt_scale (c : UInt8) (s : Bytes) (b : Nat) :
    byteAt (scale c s) b = ⟨c⟩ * byteAt s b := by
  unfold byteAt scale
  rw [List.getD_eq_getElem?_getD, List.getD_eq_getElem?_getD, List.getElem?_map]
  cases s[b]? with
  | none => exact (mul_zero (⟨c⟩ : Element)).symm
  | some x => rfl

theorem byteAt_sum (a s : Bytes) (h : a.length = s.length) (b : Nat) :
    byteAt (sum a s) b = byteAt a b + byteAt s b := by
  unfold byteAt sum
  rw [List.getD_eq_getElem?_getD, List.getElem?_zipWith]
  by_cases hb : b < s.length
  · have ha : b < a.length := by omega
    rw [List.getElem?_eq_getElem ha, List.getElem?_eq_getElem hb, List.getD_eq_getElem _ _ ha,
      List.getD_eq_getElem _ _ hb]
    rfl
  · rw [List.getElem?_eq_none (by omega : a.length ≤ b),
      List.getD_eq_default _ _ (by omega : a.length ≤ b),
      List.getD_eq_default _ _ (by omega : s.length ≤ b)]
    exact (add_zero (0 : Element)).symm

theorem eq_of_byteAt {s t : Bytes} (hl : s.length = t.length)
    (h : ∀ b < s.length, byteAt s b = byteAt t b) : s = t := by
  apply List.ext_getElem hl
  intro b hs ht
  have e := congrArg Element.byte (h b hs)
  unfold byteAt at e
  rwa [List.getD_eq_getElem _ _ hs, List.getD_eq_getElem _ _ ht] at e

/-! ## weighted sums -/

theorem length_sum (a s : Bytes) (h : a.length = s.length) : (sum a s).length = a.length := by
  rw [sum, List.length_zipWith, h, Nat.min_self]

theorem length_scale (c : UInt8) (s : Bytes) : (scale c s).length = s.length := List.length_map ..

/-- adding weighted shards one after the other, beginning with `acc` -/
theorem foldl_sum_scale (w : Nat) (l : List (UInt8 × Bytes)) (hl : ∀ t ∈ l, t.2.length = w)
    (acc : Bytes) (ha : acc.length = w) :
    (l.foldl (fun acc t => sum acc (scale t.1 t.2)) acc).length = w
      ∧ ∀ b, byteAt (l.foldl (fun acc t => sum acc (scale t.1 t.2)) acc) b
          = byteAt acc b + (l.map fun t => (⟨t.1⟩ : Element) * byteAt t.2 b).sum := by
  induction l generalizing acc with
  | nil => exact ⟨ha, fun b => (add_zero _).symm⟩
  | cons t l ih =>
    have ht : acc.length = (scale t.1 t.2).length := by
      rw [length_scale, ha, hl t List.mem_cons_self]
    obtain ⟨h1, h2⟩ := ih (fun t' h' => hl t' (List.mem_cons_of_mem _ h')) (sum acc (scale t.1 t.2))
      (by rw [length_sum _ _ ht, ha])
    refine ⟨h1, fun b => ?_⟩
    rw [List.foldl_cons, h2, byteAt_sum _ _ ht, byteAt_scale, List.map_cons, List.sum_cons, add_assoc]

theorem length_combine (w : Nat) (row : List UInt8) (shards : List Bytes)
    (h : ∀ s ∈ shards, s.length = w) : (combine w row shards).length = w :=
  (foldl_sum_scale w _ (fun _ ht => h _ (List.of_mem_zip ht).2) _ List.length_replicate).1

theorem byteAt_combine (w : Nat) (row : List UInt8) (shards : List Bytes)
    (h : ∀ s ∈ shards, s.length = w) (b : Nat) :
    byteAt (combine w row shards) b
      = ((row.zip shards).map fun t => (⟨t.1⟩ : Element) * byteAt t.2 b).sum := by
  rw [combine, (foldl_sum_scale w _ (fun _ ht => h _ (List.of_mem_zip ht).2) _
    List.length_replicate).2 b, byteAt_replicate, zero_add]

/-! ## weights -/

theorem toFinset_others (nodes : List UInt8) (i : UInt8) :
    (nodes.filter (· != i)).toFinset = nodes.toFinset.erase i := by
  ext j
  simp [and_comm]

theorem mk_product_xor (l : List UInt8) (hl : l.Nodup) (x : UInt8) :
    (⟨product (l.map (x ^^^ ·))⟩ : Element) = ∏ j ∈ l.toFinset, (⟨x⟩ - ⟨j⟩ : Element) := by
  rw [List.prod_toFinset _ hl, ← byte_prod, List.map_map]
  rfl

theorem mk_weight (nodes : List UInt8) (hn : nodes.Nodup) (i x : UInt8) :
    (⟨weight nodes i x⟩ : Element)
      = (Lagrange.basis nodes.toFinset Element.mk i).eval (⟨x⟩ : Element) := by
  have ho := hn.filter (· != i)
  have e : (⟨weight nodes i x⟩ : Element) = ⟨product ((nodes.filter (· != i)).map (x ^^^ ·))⟩
      * (⟨product ((nodes.filter (· != i)).map (i ^^^ ·))⟩ : Element)⁻¹ := rfl
  rw [e, mk_product_xor _ ho, mk_product_xor _ ho, toFinset_others, Lagrange.basis,
    Polynomial.eval_prod, mul_comm, ← Finset.prod_inv_distrib, ← Finset.prod_mul_distrib]
  apply Finset.prod_congr rfl
  intro j _
  rw [Lagrange.basisDivisor, eval_mul, eval_C, eval_sub, eval_X, eval_C]

/-! ## shards as values of polynomials -/

/-- a shard of `w` bytes that are the values of polynomials at the place `x` -/
def Tells (f : Nat → Element[X]) (w : Nat) (x : UInt8) (s : Bytes) : Prop :=
  s.length = w ∧ ∀ b < w, byteAt s b = (f b).eval ⟨x⟩

theorem Tells.unique {f : Nat → Element[X]} {w : Nat} {x : UInt8} {s t : Bytes}
    (hs : Tells f w x s) (ht : Tells f w x t) : s = t := by
  apply eq_of_byteAt (hs.1.trans ht.1.symm)
  intro b hb
  have hb' : b < w := by rwa [hs.1] at hb
  rw [hs.2 b hb', ht.2 b hb']

theorem Tells.forall_length {f : Nat → Element[X]} {w : Nat} {nodes : List UInt8}
    {shards : List Bytes} (h : List.Forall₂ (Tells f w) nodes shards) :
    ∀ s ∈ shards, s.length = w := by
  induction h with
  | nil => exact fun s hs => absurd hs List.not_mem_nil
  | cons hx _ ih =>
    intro s hs
    rcases List.mem_cons.1 hs with rfl | hs
    · exact hx.1
    · exact ih s hs

/-- the terms of a weighted sum, the weights being given node by node -/
theorem zip_weights (f : Nat → Element[X]) (w b : Nat) (hb : b < w) (g : UInt8 → UInt8)
    (nodes : List UInt8) (shards : List Bytes) (h : List.Forall₂ (Tells f w) nodes shards) :
    ((nodes.map g).zip shards).map (fun t => (⟨t.1⟩ : Element) * byteAt t.2 b)
      = nodes.map fun i => (⟨g i⟩ : Element) * (f b).eval ⟨i⟩ := by
  induction h with
  | nil => rfl
  | cons hx _ ih =>
    rw [List.map_cons, List.zip_cons_cons, List.map_cons, ih, List.map_cons, hx.2 b hb]

/-- polynomials of degree below the number of nodes are known from the shards at the nodes -/
theorem tells_combine (f : Nat → Element[X]) (w : Nat) (nodes : List UInt8) (hn : nodes.Nodup)
    (hf : ∀ b, (f b).degree < nodes.length) (shards : List Bytes)
    (h : List.Forall₂ (Tells f w) nodes shards) (x : UInt8) :
    Tells f w x (combine w (weights nodes x) shards) := by
  have hl := Tells.forall_length h
  refine ⟨length_combine w _ shards hl, fun b hb => ?_⟩
  have hd : (f b).degree < nodes.toFinset.card := by
    rw [List.toFinset_card_of_nodup hn]
    exact hf b
  have hi := Lagrange.eq_interpolate (Element.mk_injective.injOn (s := nodes.toFinset)) hd
  rw [byteAt_combine w _ shards hl, weights, zip_weights f w b hb _ nodes shards h,
    ← List.sum_toFinset _ hn]
  conv_rhs => rw [hi, Lagrange.interpolate_apply, eval_finsetSum]
  apply Finset.sum_congr rfl
  intro i _
  rw [eval_mul, eval_C, mk_weight nodes hn, mul_comm]

end Reclaim.Erasure

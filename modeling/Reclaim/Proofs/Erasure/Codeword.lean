import Reclaim.Proofs.Erasure.Lagrange

/-!
# Codewords

The shards of a codeword are the values of polynomials at the places 0, 1, 2 … (`Tells`); with
data shards of equal width given, such polynomials of degree below their number exist
(`exists_tells`).

* `tells_extend`  data shards and the parity shards added to them are one codeword;
* `tells_repair`  enough shards of a codeword give back all its data shards.
-/

namespace Reclaim.Erasure

open Field256 Polynomial

/-- polynomials of degree below `k`, one for each byte of a shard -/
def Low (k : Nat) (f : Nat → Element[X]) : Prop := ∀ b, (f b).degree < k

theorem place_inj {i j : Nat} (hi : i < 256) (hj : j < 256) (h : place i = place j) : i = j := by
  have e := congrArg UInt8.toNat h
  unfold place at e
  rw [UInt8.toNat_ofNat', UInt8.toNat_ofNat'] at e
  omega

theorem nodup_places (l : List Nat) (hl : l.Nodup) (hb : ∀ i ∈ l, i < 256) : (l.map place).Nodup :=
  hl.map_on fun _ hi _ hj e => place_inj (hb _ hi) (hb _ hj) e

/-- data shards are the values of polynomials of degree below their number -/
theorem exists_tells (w : Nat) (shards : List Bytes) (hk : shards.length ≤ 256)
    (hw : ∀ s ∈ shards, s.length = w) :
    ∃ f, Low shards.length f ∧ ∀ i s, shards[i]? = some s → Tells f w (place i) s := by
  have hinj : Set.InjOn (fun i => (⟨place i⟩ : Element)) (Finset.range shards.length) := by
    intro i hi j hj e
    rw [Finset.coe_range, Set.mem_Iio] at hi hj
    exact place_inj (by omega) (by omega) (Element.mk_injective e)
  refine ⟨fun b => Lagrange.interpolate (Finset.range shards.length) (fun i => ⟨place i⟩)
    fun i => byteAt (shards.getD i []) b, fun b => ?_, fun i s hs => ⟨?_, fun b _ => ?_⟩⟩
  · have h := Lagrange.degree_interpolate_lt (fun i => byteAt (shards.getD i []) b) hinj
    rwa [Finset.card_range] at h
  · exact hw s (List.mem_of_getElem? hs)
  · obtain ⟨hi, _⟩ := List.getElem?_eq_some_iff.1 hs
    rw [Lagrange.eval_interpolate_at_node _ hinj (Finset.mem_range.2 hi), List.getD_eq_getElem?_getD,
      hs, Option.getD_some]

/-! ## adding parity -/

theorem length_extend (k m w : Nat) (shards : List Bytes) :
    (extend (parityRows k m) w shards).length = shards.length + m := by
  rw [extend, List.length_append, List.length_map, parityRows, List.length_map, List.length_range]

theorem getElem?_extend_data (rows : List (List UInt8)) (w : Nat) (shards : List Bytes) (i : Nat)
    (hi : i < shards.length) : (extend rows w shards)[i]? = shards[i]? := by
  rw [extend, List.getElem?_append_left hi]

theorem getElem?_extend_parity (k m w : Nat) (shards : List Bytes) (hk : shards.length = k) (j : Nat)
    (hj : j < m) :
    (extend (parityRows k m) w shards)[k + j]?
      = some (combine w (weights ((List.range k).map place) (place (k + j))) shards) := by
  have hp : (parityRows k m)[j]? = some (weights ((List.range k).map place) (place (k + j))) := by
    rw [parityRows, List.getElem?_map, List.getElem?_range hj]
    rfl
  rw [extend, List.getElem?_append_right (by omega), hk, Nat.add_sub_cancel_left, List.getElem?_map,
    hp]
  rfl

theorem forall₂_places (f : Nat → Element[X]) (w : Nat) (shards : List Bytes)
    (h : ∀ i s, shards[i]? = some s → Tells f w (place i) s) :
    List.Forall₂ (Tells f w) ((List.range shards.length).map place) shards := by
  rw [List.forall₂_iff_get]
  refine ⟨by rw [List.length_map, List.length_range], fun i hi hs => ?_⟩
  rw [List.get_eq_getElem, List.get_eq_getElem, List.getElem_map, List.getElem_range]
  exact h i _ (List.getElem?_eq_getElem hs)

/-- a codeword is made of the values of the polynomials that fit its data shards -/
theorem tells_extend (f : Nat → Element[X]) (k m w : Nat) (hkm : k + m ≤ 256) (shards : List Bytes)
    (hk : shards.length = k) (hf : Low k f) (h : ∀ i s, shards[i]? = some s → Tells f w (place i) s)
    (i : Nat) (s : Bytes) (hs : (extend (parityRows k m) w shards)[i]? = some s) :
    Tells f w (place i) s := by
  by_cases hi : i < k
  · rw [getElem?_extend_data _ _ _ _ (by omega)] at hs
    exact h i s hs
  · obtain ⟨hl, _⟩ := List.getElem?_eq_some_iff.1 hs
    rw [length_extend, hk] at hl
    obtain ⟨j, rfl⟩ := Nat.exists_eq_add_of_le (Nat.le_of_not_lt hi)
    rw [getElem?_extend_parity k m w shards hk j (by omega)] at hs
    cases hs
    have hn : ((List.range k).map place).Nodup :=
      nodup_places _ List.nodup_range fun i hi => by have := List.mem_range.1 hi; omega
    have h2 := forall₂_places f w shards h
    rw [hk] at h2
    refine tells_combine f w _ hn (fun b => ?_) shards h2 _
    rw [List.length_map, List.length_range]
    exact hf b

/-! ## filling gaps -/

theorem filterMap_id_eq (slots : List (Option Bytes)) :
    slots.filterMap id
      = ((List.range slots.length).filter fun i => (slots.map Option.isSome).getD i false).map
          fun i => (slots.getD i none).getD [] := by
  induction slots with
  | nil => rfl
  | cons a slots ih =>
    have key : ((List.range slots.length).map Nat.succ).filter
          (fun i => ((a :: slots).map Option.isSome).getD i false)
        = ((List.range slots.length).filter
            fun i => (slots.map Option.isSome).getD i false).map Nat.succ := by
      rw [List.filter_map]
      rfl
    rw [List.length_cons, List.range_succ_eq_map, List.filter_cons, key]
    cases a with
    | none =>
      have hb : (none :: slots).filterMap id = slots.filterMap id := rfl
      rw [hb, ih, if_neg (by simp), List.map_map]
      rfl
    | some b =>
      have hb : (some b :: slots).filterMap id = b :: slots.filterMap id := rfl
      rw [hb, ih, if_pos (by simp), List.map_cons, List.map_map]
      rfl

theorem forall₂_sources (f : Nat → Element[X]) (k w : Nat) (slots : List (Option Bytes))
    (h : ∀ i s, slots[i]? = some (some s) → Tells f w (place i) s) :
    List.Forall₂ (Tells f w) ((sources k (slots.map Option.isSome)).map place)
      ((slots.filterMap id).take k) := by
  rw [filterMap_id_eq, ← List.map_take, sources, List.length_map, List.forall₂_map_left_iff,
    List.forall₂_map_right_iff, List.forall₂_same]
  intro i hi
  have hp := (List.mem_filter.1 (List.mem_of_mem_take hi)).2
  rw [List.getD_eq_getElem?_getD, List.getElem?_map] at hp
  cases e : slots[i]? with
  | none => rw [e] at hp; cases hp
  | some o =>
    cases o with
    | none => rw [e] at hp; cases hp
    | some s =>
      rw [List.getD_eq_getElem?_getD, e]
      exact h i s e

theorem length_sources (k : Nat) (slots : List (Option Bytes)) (h : k ≤ (slots.filterMap id).length) :
    (sources k (slots.map Option.isSome)).length = k := by
  rw [filterMap_id_eq, List.length_map] at h
  rw [sources, List.length_take, List.length_map]
  omega

theorem nodup_sources (k : Nat) (present : List Bool) : (sources k present).Nodup :=
  (List.nodup_range.filter _).sublist (List.take_sublist _ _)

theorem lt_of_mem_sources (k : Nat) (present : List Bool) {i : Nat} (h : i ∈ sources k present) :
    i < present.length :=
  List.mem_range.1 (List.mem_filter.1 (List.mem_of_mem_take h)).1

/-- enough shards of a codeword give back its data shards -/
theorem tells_repair (f : Nat → Element[X]) (k w : Nat) (slots : List (Option Bytes))
    (hn : slots.length ≤ 256) (hk : k ≤ (slots.filterMap id).length) (hf : Low k f)
    (h : ∀ i s, slots[i]? = some (some s) → Tells f w (place i) s) :
    (repair (repairRows k (slots.map Option.isSome)) w slots).length = k
      ∧ ∀ i s, (repair (repairRows k (slots.map Option.isSome)) w slots)[i]? = some s →
          Tells f w (place i) s := by
  have hks : k ≤ slots.length := Nat.le_trans hk (List.length_filterMap_le ..)
  have hrows : (repairRows k (slots.map Option.isSome)).length = k := by
    rw [repairRows, List.length_map, List.length_range]
  have hsrc : List.Forall₂ (Tells f w) ((sources k (slots.map Option.isSome)).map place)
      ((slots.filterMap id).take k) := forall₂_sources f k w slots h
  have hnd : ((sources k (slots.map Option.isSome)).map place).Nodup := by
    refine nodup_places _ (nodup_sources _ _) fun i hi => ?_
    have := lt_of_mem_sources _ _ hi
    rw [List.length_map] at this
    omega
  have hlow : ∀ b, (f b).degree < ((sources k (slots.map Option.isSome)).map place).length := by
    intro b
    rw [List.length_map, length_sources k slots hk]
    exact hf b
  refine ⟨?_, fun i s hs => ?_⟩
  · rw [repair, List.length_map, List.length_zip, hrows]
    omega
  · rw [repair, List.getElem?_map, hrows] at hs
    obtain ⟨⟨row, slot⟩, hz, rfl⟩ := Option.map_eq_some_iff.1 hs
    obtain ⟨hr, hsl⟩ := List.getElem?_zip_eq_some.1 hz
    cases slot with
    | some s => exact h i s hsl
    | none =>
      obtain ⟨hi, e⟩ := List.getElem?_eq_some_iff.1 hr
      rw [hrows] at hi
      have hrow : row = some (weights ((sources k (slots.map Option.isSome)).map place) (place i)) := by
        have hp : (slots.map Option.isSome).getD i false = false := by
          rw [List.getD_eq_getElem?_getD, List.getElem?_map, hsl]
          rfl
        refine Eq.trans (Eq.symm e) ?_
        simp only [repairRows, List.getElem_map, List.getElem_range, hp]
        rfl
      rw [hrow]
      exact tells_combine f w _ hnd hlow _ hsrc (place i)

end Reclaim.Erasure

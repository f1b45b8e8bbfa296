import Reclaim.Proofs.Erasure.AnyPieces

/-!
# The pieces that decide

Whatever stands in the slots of a chunk, the first of them that are filled, as many as there are
data pieces, fix its data.

* `entries`              the pieces that are there, each with its place, first to last;
* `mem_sources_of_lt`    data pieces that are there are among the first;
* `exists_tells_at`      shards at any places are the values of polynomials of degree below their
                         number;
* `tells_repair_of_sources`   a repair goes by the first shards only;
* `repair_eq_iff`        a repair gives just those data shards whose codeword has the first shards
                         where they stand.
-/

namespace Reclaim

open Erasure Field256 Polynomial

namespace Coder

/-! ## pieces by place -/

/-- the pieces that are there, each with its place, first to last -/
def entries (slots : Slots) : List (Nat × Bytes) :=
  (List.range slots.length).filterMap fun i => (slots.getD i none).map fun b => (i, b)

theorem mem_entries {slots : Slots} {i : Nat} {b : Bytes} :
    (i, b) ∈ entries slots ↔ slots[i]? = some (some b) := by
  unfold entries
  rw [List.mem_filterMap]
  constructor
  · rintro ⟨j, hj, e⟩
    rw [List.getD_eq_getElem _ _ (List.mem_range.1 hj)] at e
    obtain ⟨b', hb, e⟩ := Option.map_eq_some_iff.1 e
    cases e
    rw [List.getElem?_eq_getElem (List.mem_range.1 hj), hb]
  · intro h
    obtain ⟨hi, e⟩ := List.getElem?_eq_some_iff.1 h
    refine ⟨i, List.mem_range.2 hi, ?_⟩
    rw [List.getD_eq_getElem _ _ hi, e]
    rfl

theorem entries_eq (slots : Slots) :
    entries slots = ((List.range slots.length).filter fun i => (present slots).getD i false).map
      fun i => (i, (slots.getD i none).getD []) := by
  unfold entries
  rw [← List.filterMap_eq_map, List.filterMap_filter]
  apply List.filterMap_congr
  intro i hi
  have hi := List.mem_range.1 hi
  have hp : (present slots).getD i false = (slots[i]).isSome := by
    unfold present
    rw [List.getD_eq_getElem _ _ (by rw [List.length_map]; exact hi), List.getElem_map]
  rw [hp, Function.comp, List.getD_eq_getElem _ _ hi]
  cases slots[i] with
  | none => rfl
  | some b => rfl

theorem map_snd_entries (slots : Slots) : (entries slots).map Prod.snd = slots.filterMap id := by
  rw [entries_eq, filterMap_id_eq, List.map_map]
  rfl

theorem length_entries (slots : Slots) : (entries slots).length = (slots.filterMap id).length := by
  rw [← map_snd_entries, List.length_map]

theorem map_fst_take_entries (k : Nat) (slots : Slots) :
    ((entries slots).take k).map Prod.fst = sources k (present slots) := by
  rw [entries_eq, sources, ← List.map_take, List.map_map, present, List.length_map]
  exact List.map_id _

theorem mem_sources_iff {k : Nat} {slots : Slots} {i : Nat} {b : Bytes}
    (hb : slots[i]? = some (some b)) :
    i ∈ sources k (present slots) ↔ (i, b) ∈ (entries slots).take k := by
  rw [← map_fst_take_entries, List.mem_map]
  constructor
  · rintro ⟨⟨j, b'⟩, hm, rfl⟩
    have hb' := mem_entries.1 (List.mem_of_mem_take hm)
    rw [hb] at hb'
    cases hb'
    exact hm
  · intro h
    exact ⟨_, h, rfl⟩

theorem mem_sources_of_lt {k : Nat} {slots : Slots} {i : Nat} {b : Bytes} (hi : i < k)
    (hb : slots[i]? = some (some b)) : i ∈ sources k (present slots) := by
  obtain ⟨hl, -⟩ := List.getElem?_eq_some_iff.1 hb
  obtain ⟨m, hm⟩ : ∃ m, (present slots).length = i + (m + 1) := by
    refine ⟨slots.length - i - 1, ?_⟩
    rw [present, List.length_map]
    omega
  have hp : (present slots).getD i false = true := by
    unfold present
    rw [List.getD_eq_getElem?_getD, List.getElem?_map, hb]
    rfl
  have hfew : ((List.range i).filter fun j => (present slots).getD j false).length ≤ i := by
    have := List.length_filter_le (fun j => (present slots).getD j false) (List.range i)
    rwa [List.length_range] at this
  unfold sources
  rw [hm, List.range_add, List.filter_append, List.range_succ_eq_map, List.map_cons, Nat.add_zero,
    List.filter_cons, if_pos hp, List.take_append, List.mem_append]
  right
  rw [← Nat.succ_pred_eq_of_pos (Nat.sub_pos_of_lt (Nat.lt_of_le_of_lt hfew hi)),
    List.take_succ_cons]
  exact List.mem_cons_self

theorem entries_map (g : Bytes → Bytes) (slots : Slots) :
    entries (slots.map fun p => p.map g) = (entries slots).map fun e => (e.1, g e.2) := by
  unfold entries
  rw [List.map_filterMap, List.length_map]
  apply List.filterMap_congr
  intro i hi
  have hi := List.mem_range.1 hi
  rw [List.getD_eq_getElem _ _ (by rw [List.length_map]; exact hi), List.getD_eq_getElem _ _ hi,
    List.getElem_map]
  cases slots[i] with
  | none => rfl
  | some b => rfl

end Coder

namespace Erasure

/-! ## polynomials through shards -/

theorem exists_tells_at (w : Nat) (places : List Nat) (hn : places.Nodup)
    (hb : ∀ i ∈ places, i < 256) (g : Nat → Bytes) (hg : ∀ i ∈ places, (g i).length = w) :
    ∃ f, Low places.length f ∧ ∀ i ∈ places, Tells f w (place i) (g i) := by
  have hinj : Set.InjOn (fun i => (⟨place i⟩ : Element)) places.toFinset := by
    intro i hi j hj e
    rw [Finset.mem_coe, List.mem_toFinset] at hi hj
    exact place_inj (hb i hi) (hb j hj) (Element.mk_injective e)
  refine ⟨fun b => Lagrange.interpolate places.toFinset (fun i => ⟨place i⟩)
    fun i => byteAt (g i) b, fun b => ?_, fun i hi => ⟨hg i hi, fun b _ => ?_⟩⟩
  · have h := Lagrange.degree_interpolate_lt (fun i => byteAt (g i) b) hinj
    rwa [List.toFinset_card_of_nodup hn] at h
  · rw [Lagrange.eval_interpolate_at_node _ hinj (List.mem_toFinset.2 hi)]

end Erasure

namespace Coder

section
variable {k w : Nat} {slots : Slots} (hk : k ≤ (slots.filterMap id).length)
include hk

theorem length_repair_of_enough :
    (repair (repairRows k (present slots)) w slots).length = k := by
  have hks : k ≤ slots.length := Nat.le_trans hk (List.length_filterMap_le ..)
  rw [repair, List.length_map, List.length_zip, repairRows, List.length_map, List.length_range]
  omega

variable (hn : slots.length ≤ 256)
include hn

/-- the data shards of a repair are told by the polynomials that tell the first shards, whatever the
other shards are -/
theorem tells_repair_of_sources {f : Nat → Element[X]} (hf : Low k f)
    (h : ∀ e ∈ (entries slots).take k, Tells f w (place e.1) e.2) (i : Nat) (s : Bytes)
    (hs : (repair (repairRows k (present slots)) w slots)[i]? = some s) :
    Tells f w (place i) s := by
  have hsources : List.Forall₂ (Tells f w) ((sources k (present slots)).map place)
      ((slots.filterMap id).take k) := by
    rw [← map_fst_take_entries, ← map_snd_entries, ← List.map_take, List.forall₂_map_left_iff,
      List.forall₂_map_left_iff, List.forall₂_map_right_iff, List.forall₂_same]
    exact h
  have hnd : ((sources k (present slots)).map place).Nodup := by
    refine nodup_places _ (nodup_sources _ _) fun i hi => ?_
    have := lt_of_mem_sources _ _ hi
    rw [present, List.length_map] at this
    omega
  have hlow : ∀ b, (f b).degree < ((sources k (present slots)).map place).length := by
    intro b
    rw [List.length_map, present, length_sources k slots hk]
    exact hf b
  have hrows : (repairRows k (present slots)).length = k := by
    rw [repairRows, List.length_map, List.length_range]
  rw [repair, List.getElem?_map, hrows] at hs
  obtain ⟨⟨row, slot⟩, hz, rfl⟩ := Option.map_eq_some_iff.1 hs
  obtain ⟨hr, hsl⟩ := List.getElem?_zip_eq_some.1 hz
  obtain ⟨hi, e⟩ := List.getElem?_eq_some_iff.1 hr
  rw [hrows] at hi
  cases slot with
  | some s => exact h (i, s) ((mem_sources_iff hsl).1 (mem_sources_of_lt hi hsl))
  | none =>
    have hrow : row = some (weights ((sources k (present slots)).map place) (place i)) := by
      have hp : (present slots).getD i false = false := by
        rw [List.getD_eq_getElem?_getD, present, List.getElem?_map, hsl]
        rfl
      refine Eq.trans (Eq.symm e) ?_
      simp only [repairRows, List.getElem_map, List.getElem_range, hp]
      rfl
    rw [hrow]
    exact tells_combine f w _ hnd hlow _ hsources (place i)

/-- a repair gives the data shards whose codeword has the first shards where they stand -/
theorem repair_eq_iff {m : Nat} (hm : slots.length = k + m)
    (hw : ∀ b ∈ slots.filterMap id, b.length = w) {shards : List Bytes} (hl : shards.length = k)
    (hs : ∀ s ∈ shards, s.length = w) :
    repair (repairRows k (present slots)) w slots = shards
      ↔ ∀ e ∈ (entries slots).take k,
          (extend (parityRows k m) w shards)[e.1]? = some e.2 := by
  have hplace : ∀ e ∈ (entries slots).take k, slots[e.1]? = some (some e.2) := by
    intro e he
    exact mem_entries.1 (List.mem_of_mem_take he)
  constructor
  · rintro rfl e he
    have hmem : ∀ i ∈ sources k (present slots), ∃ b, slots[i]? = some (some b) := by
      intro i hi
      rw [← map_fst_take_entries, List.mem_map] at hi
      obtain ⟨e, he, rfl⟩ := hi
      exact ⟨e.2, hplace e he⟩
    obtain ⟨f, hf, ht⟩ := exists_tells_at w (sources k (present slots)) (nodup_sources _ _)
      (fun i hi => by
        obtain ⟨b, hb⟩ := hmem i hi
        have := (List.getElem?_eq_some_iff.1 hb).1
        omega)
      (fun i => (slots.getD i none).getD []) (fun i hi => by
        obtain ⟨b, hb⟩ := hmem i hi
        rw [List.getD_eq_getElem?_getD, hb]
        exact hw b (List.mem_filterMap.2 ⟨some b, List.mem_of_getElem? hb, rfl⟩))
    rw [present, length_sources k slots hk] at hf
    have hfirst : ∀ e ∈ (entries slots).take k, Tells f w (place e.1) e.2 := by
      intro e he
      have h := ht e.1 ((mem_sources_iff (hplace e he)).2 he)
      rwa [List.getD_eq_getElem?_getD, hplace e he] at h
    have hrep := tells_repair_of_sources hk hn hf hfirst
    have hlt : e.1 < (extend (parityRows k m) w
        (repair (repairRows k (present slots)) w slots)).length := by
      have := (List.getElem?_eq_some_iff.1 (hplace e he)).1
      rw [length_extend, length_repair_of_enough hk]
      omega
    have htold := tells_extend f k m w (by omega) _ (length_repair_of_enough hk) hf hrep e.1 _
      (List.getElem?_eq_getElem hlt)
    rw [List.getElem?_eq_getElem hlt, htold.unique (hfirst e he)]
  · intro h
    obtain ⟨f, hf, ht⟩ := exists_tells w shards (by omega) hs
    rw [hl] at hf
    have hfirst : ∀ e ∈ (entries slots).take k, Tells f w (place e.1) e.2 := by
      intro e he
      exact tells_extend f k m w (by omega) shards hl hf ht e.1 e.2 (h e he)
    apply List.ext_getElem
    · rw [length_repair_of_enough hk, hl]
    · intro i hi hi'
      exact (tells_repair_of_sources hk hn hf hfirst i _ (List.getElem?_eq_getElem hi)).unique
        (ht i _ (List.getElem?_eq_getElem hi'))

end

end Coder

end Reclaim

import Mathlib.Data.List.GetD
import Mathlib.Data.List.Nodup
import Reclaim.Json.Record

/-!
# Records whose members come in any order

* `valuesFor`   the values of the members that go by one of some names;
* `record?_object_eq_some_iff`   an object is read as a record exactly if the key of every member is
                a text, and no field has two values; each field has what its members give;
* `record?_repeated`   so an object in which a field is given twice is no record.
-/

namespace Reclaim.Json

variable {fields : FieldNames} {ms : List (Bytes × Json)}

/-- whether the key of a member is one of the names -/
def goesBy (names : List String) (m : Bytes × Json) : Bool :=
  (bodyText? m.1).any names.contains

/-- the values of the members that go by one of the names -/
def valuesFor (names : List String) (ms : List (Bytes × Json)) : List Json :=
  (ms.filter (goesBy names)).map Prod.snd

section
variable {names : List String} {m : Bytes × Json} {name : String}

theorem goesBy_eq_true_iff (h : bodyText? m.1 = some name) :
    goesBy names m = true ↔ name ∈ names := by
  rw [goesBy, h, Option.any_some, List.contains_iff_mem]

theorem valuesFor_cons_of_mem (h : bodyText? m.1 = some name) (hn : name ∈ names) :
    valuesFor names (m :: ms) = m.2 :: valuesFor names ms := by
  rw [valuesFor, List.filter_cons_of_pos ((goesBy_eq_true_iff h).2 hn), List.map_cons]
  rfl

theorem valuesFor_cons_of_not_mem (h : bodyText? m.1 = some name) (hn : name ∉ names) :
    valuesFor names (m :: ms) = valuesFor names ms := by
  rw [valuesFor, List.filter_cons_of_neg fun hc => hn ((goesBy_eq_true_iff h).1 hc)]
  rfl

theorem valuesFor_sublist {ms' : List (Bytes × Json)} (h : ms'.Sublist ms) :
    (valuesFor names ms').Sublist (valuesFor names ms) := (h.filter _).map _

end

/-! ## the place of a name -/

theorem fieldIndex?_eq_some_iff (hf : fields.flatten.Nodup) {name : String} {i : Nat} :
    fieldIndex? fields name = some i ↔ ∃ hi : i < fields.length, name ∈ fields[i] := by
  have hapart := List.pairwise_iff_getElem.1 (List.nodup_flatten.1 hf).2
  rw [fieldIndex?, List.findIdx?_eq_some_iff_getElem]
  constructor
  · rintro ⟨hi, hc, -⟩
    exact ⟨hi, List.contains_iff_mem.1 hc⟩
  · rintro ⟨hi, hn⟩
    refine ⟨hi, List.contains_iff_mem.2 hn, fun j hj hc => ?_⟩
    exact hapart j i (Nat.lt_trans hj hi) hi hj (List.contains_iff_mem.1 hc) hn

theorem fieldIndex?_eq_none_iff {name : String} :
    fieldIndex? fields name = none ↔ ∀ names ∈ fields, name ∉ names := by
  rw [fieldIndex?, List.findIdx?_eq_none_iff]
  refine forall₂_congr fun names _ => ?_
  rw [← List.contains_iff_mem, Bool.not_eq_true]

/-! ## one member after the other -/

theorem toList_inj {α : Type} {a b : Option α} (h : a.toList = b.toList) : a = b := by
  rw [← a.head?_toList, h, b.head?_toList]

theorem foldlM_place?_eq_some_iff (hf : fields.flatten.Nodup) {start found : List (Option Json)}
    (hs : start.length = fields.length) :
    ms.foldlM (place? fields) start = some found ↔
      (∀ m ∈ ms, (bodyText? m.1).isSome = true) ∧ found.length = fields.length ∧
        ∀ i (hi : i < fields.length), (start.getD i none).toList ++ valuesFor fields[i] ms =
          (found.getD i none).toList := by
  induction ms generalizing start with
  | nil =>
    have hvalues : ∀ names, valuesFor names [] = [] := fun _ => rfl
    simp only [hvalues, List.append_nil]
    rw [List.foldlM_nil]
    constructor
    · intro h
      cases h
      exact ⟨fun m hm => absurd hm List.not_mem_nil, hs, fun i hi => rfl⟩
    · rintro ⟨-, hl, h⟩
      refine congrArg some (List.ext_getElem (hs.trans hl.symm) fun i h₁ h₂ => ?_)
      have := h i (hs ▸ h₁)
      rw [List.getD_eq_getElem _ _ h₁, List.getD_eq_getElem _ _ h₂] at this
      exact toList_inj this
  | cons m ms ih =>
    rw [List.foldlM_cons, List.forall_mem_cons, place?]
    cases hb : bodyText? m.1 with
    | none =>
      exact ⟨fun h => (by cases h), fun h => absurd h.1.1 Bool.false_ne_true⟩
    | some name =>
      simp only [Option.isSome_some, true_and]
      cases hj : fieldIndex? fields name with
      | none =>
        have hnone := fieldIndex?_eq_none_iff.1 hj
        have hvalues : ∀ i (hi : i < fields.length),
            valuesFor fields[i] (m :: ms) = valuesFor fields[i] ms := fun i hi =>
          valuesFor_cons_of_not_mem hb (hnone _ (List.getElem_mem hi))
        refine (ih hs).trans ?_
        refine and_congr_right fun _ => and_congr_right fun _ => forall₂_congr fun i hi => ?_
        rw [hvalues i hi]
      | some j =>
        obtain ⟨hjl, hn⟩ := (fieldIndex?_eq_some_iff hf).1 hj
        have hvalues : ∀ i (hi : i < fields.length), i ≠ j →
            valuesFor fields[i] (m :: ms) = valuesFor fields[i] ms := by
          intro i hi hij
          refine valuesFor_cons_of_not_mem hb fun hni => hij ?_
          exact Option.some.inj (((fieldIndex?_eq_some_iff hf).2 ⟨hi, hni⟩).symm.trans hj)
        cases hu : start.getD j none with
        | some u =>
          simp only [hu]
          refine ⟨fun h => (by cases h), fun h => ?_⟩
          have := congrArg List.length (h.2.2 j hjl)
          rw [hu, valuesFor_cons_of_mem hb hn] at this
          cases hfound : found.getD j none <;> rw [hfound] at this <;> simp at this
        | none =>
          simp only [hu]
          have hset : (start.set j (some m.2)).length = fields.length := by
            rw [List.length_set, hs]
          refine (ih hset).trans ?_
          refine and_congr_right fun _ => and_congr_right fun _ => forall₂_congr fun i hi => ?_
          by_cases hij : i = j
          · subst hij
            have hget : (start.set i (some m.2)).getD i none = some m.2 := by
              rw [List.getD_eq_getElem _ _ (hset ▸ hi), List.getElem_set_self]
            rw [hget, hu, valuesFor_cons_of_mem hb hn]
            rfl
          · have hget : (start.set j (some m.2)).getD i none = start.getD i none := by
              rw [List.getD_eq_getElem?_getD, List.getElem?_set_ne (Ne.symm hij),
                ← List.getD_eq_getElem?_getD]
            rw [hget, hvalues i hi hij]

/-- an object is a record exactly if every key is a text and no field is given twice -/
theorem record?_object_eq_some_iff (hf : fields.flatten.Nodup) {found : List (Option Json)} :
    record? fields (.object ms) = some found ↔
      (∀ m ∈ ms, (bodyText? m.1).isSome = true) ∧
        found.map Option.toList = fields.map (valuesFor · ms) := by
  have hs : (fields.map fun _ => (none : Option Json)).length = fields.length := List.length_map _
  have hnone : ∀ i, (fields.map fun _ => (none : Option Json)).getD i none = none := by
    intro i
    rw [List.getD_eq_getElem?_getD, List.getElem?_map]
    cases fields[i]? <;> rfl
  rw [record?, foldlM_place?_eq_some_iff hf hs]
  refine and_congr_right fun _ => ?_
  simp only [hnone, Option.toList_none, List.nil_append]
  constructor
  · rintro ⟨hl, h⟩
    refine List.ext_getElem (by rw [List.length_map, List.length_map, hl]) fun i h₁ h₂ => ?_
    rw [List.getElem_map, List.getElem_map, h i (by rwa [List.length_map] at h₂),
      List.getD_eq_getElem]
  · intro h
    have hl := congrArg List.length h
    rw [List.length_map, List.length_map] at hl
    refine ⟨hl, fun i hi => ?_⟩
    have := List.getElem_of_eq h (i := i) (by rwa [List.length_map, hl])
    rw [List.getElem_map, List.getElem_map] at this
    rw [List.getD_eq_getElem _ _ (hl ▸ hi), this]

theorem value_of_record? (hf : fields.flatten.Nodup) {found : List (Option Json)}
    (h : record? fields (.object ms) = some found) {names : List String} {i : Nat}
    (hi : fields[i]? = some names) {w : Json} (hw : w ∈ valuesFor names ms) :
    found[i]? = some (some w) := by
  have hvalues := congrArg (·[i]?) ((record?_object_eq_some_iff hf).1 h).2
  rw [List.getElem?_map, List.getElem?_map, hi] at hvalues
  obtain ⟨o, ho, htoList⟩ := Option.map_eq_some_iff.1 hvalues
  have hw : w ∈ o.toList := htoList ▸ hw
  cases o with
  | none => cases hw
  | some v =>
    rw [ho, List.mem_singleton.1 hw]

/-- an object in which a field is given twice, be it by different names, is no record -/
theorem record?_repeated (hf : fields.flatten.Nodup) {names : List String} (hn : names ∈ fields)
    {m m' : Bytes × Json} (hsub : [m, m'].Sublist ms) (h : goesBy names m = true)
    (h' : goesBy names m' = true) : record? fields (.object ms) = none := by
  rw [Option.eq_none_iff_forall_ne_some]
  intro found hfound
  have hvalues := ((record?_object_eq_some_iff hf).1 hfound).2
  have hmem : valuesFor names ms ∈ found.map Option.toList := by
    rw [hvalues]
    exact List.mem_map.2 ⟨names, hn, rfl⟩
  obtain ⟨o, -, ho⟩ := List.mem_map.1 hmem
  have htwo : valuesFor names [m, m'] = [m.2, m'.2] := by
    rw [valuesFor, List.filter_cons_of_pos h, List.filter_cons_of_pos h']
    rfl
  have hle : (valuesFor names [m, m']).length ≤ (valuesFor names ms).length :=
    (valuesFor_sublist hsub).length_le
  rw [htwo, ← ho] at hle
  cases o with
  | none => exact Nat.not_succ_le_zero 1 hle
  | some v => exact Nat.not_succ_le_self 1 hle

end Reclaim.Json

import Mathlib.Data.List.Forall2
import Reclaim.Json.Printer
import Reclaim.Proofs.Json.Members
import Reclaim.Proofs.Json.Spelling

/-!
# Records there and back

* `IsObject`             the objects with given members, their keys written in one way or another;
* `IsObject.record?_eq_some_iff`   they are read as what their members give;
* `record?_ofMembers`    members that give all fields in order give each its value;
* `Has`, `Lacks`         fields that are given and fields that are not;
* `list?_array_eq_some_iff`   a list is read exactly if each of its elements is.
-/

namespace Reclaim.Json

/-! ## objects with given members -/

/-- an object with these members in this order, each key being written in one way or another -/
inductive IsObject (named : List (String × Json)) : Json → Prop where
  | mk {ms : List (Bytes × Json)}
      (h : List.Forall₂ (fun n m => Writes m.1 (utf8 n.1) ∧ m.2 = n.2) named ms) :
      IsObject named (.object ms)

/-- the values that are given by one of the names -/
def given (names : List String) (named : List (String × Json)) : List Json :=
  (named.filter fun n => n.1 ∈ names).map Prod.snd

section
variable {named : List (String × Json)} {fields : FieldNames} {v : Json}

theorem keys_named {ms : List (Bytes × Json)}
    (h : List.Forall₂ (fun n m => Writes m.1 (utf8 n.1) ∧ m.2 = n.2) named ms) :
    ∀ m ∈ ms, (bodyText? m.1).isSome = true := by
  induction h with
  | nil => exact fun m hm => absurd hm List.not_mem_nil
  | cons hnm _ ih =>
    rw [List.forall_mem_cons, bodyText?_of_writes hnm.1]
    exact ⟨rfl, ih⟩

theorem valuesFor_named {ms : List (Bytes × Json)}
    (h : List.Forall₂ (fun n m => Writes m.1 (utf8 n.1) ∧ m.2 = n.2) named ms)
    (names : List String) : valuesFor names ms = given names named := by
  induction h with
  | nil => rfl
  | @cons n m named ms hnm _ ih =>
    have hkey := bodyText?_of_writes hnm.1
    by_cases hn : n.1 ∈ names
    · have hgiven : given names (n :: named) = n.2 :: given names named :=
        congrArg (List.map Prod.snd) (List.filter_cons_of_pos (decide_eq_true hn))
      rw [valuesFor_cons_of_mem hkey hn, ih, hnm.2, hgiven]
    · have hgiven : given names (n :: named) = given names named :=
        congrArg (List.map Prod.snd) (List.filter_cons_of_neg fun h => hn (of_decide_eq_true h))
      rw [valuesFor_cons_of_not_mem hkey hn, ih, hgiven]

/-- an object is read as the record of what its members give, each field one value or none -/
theorem IsObject.record?_eq_some_iff (h : IsObject named v) (hf : fields.flatten.Nodup)
    {found : List (Option Json)} :
    record? fields v = some found ↔
      found.map Option.toList = fields.map (given · named) := by
  obtain ⟨h⟩ := h
  rw [record?_object_eq_some_iff hf, and_iff_right (keys_named h),
    List.map_congr_left fun names _ => valuesFor_named h names]

theorem isObject_ofMembers (named : List (String × Json)) : IsObject named (ofMembers named) := by
  refine .mk ?_
  induction named with
  | nil => exact .nil
  | cons n named ih => exact .cons ⟨writes_escape _, rfl⟩ ih

theorem record?_ofMembers (hf : fields.flatten.Nodup)
    (h : (named.map fun m => [m.2]) = fields.map (given · named)) :
    record? fields (ofMembers named) = some (named.map fun m => some m.2) := by
  rw [(isObject_ofMembers named).record?_eq_some_iff hf, List.map_map]
  exact h

end

/-! ## fields of an object -/

/-- a field is given once, by one of its names, and its value is as `P` has it -/
def Has (names : List String) (P : Json → Prop) (named : List (String × Json)) : Prop :=
  ∃ v, given names named = [v] ∧ P v

/-- a field is not given -/
def Lacks (names : List String) (named : List (String × Json)) : Prop := given names named = []

section
variable {names : List String} {named : List (String × Json)} {P : Json → Prop} {α : Type} {a : α}

theorem Has.read (f : Json → Option α) (h : Has names P named) (hP : ∀ v, P v → f v = some a) :
    ∃ v, [v] = given names named ∧ f v = some a := by
  obtain ⟨v, hv, hp⟩ := h
  exact ⟨v, hv.symm, hP v hp⟩

theorem read_or {default : α} (f : Json → Option α)
    (h : Has names P named ∨ a = default ∧ Lacks names named) (hP : ∀ v, P v → f v = some a) :
    ∃ o : Option Json, o.toList = given names named ∧ optional? default f o = some a := by
  rcases h with ⟨v, hv, hp⟩ | ⟨rfl, hl⟩
  · exact ⟨some v, hv.symm, hP v hp⟩
  · exact ⟨none, hl.symm, rfl⟩

end

/-! ## parts of a record -/

theorem plain_ofText (s : String) : Plain (ofText s) := .string (body_escape _)

theorem plain_ofMembers {ms : List (String × Json)} (h : ∀ m ∈ ms, Plain m.2) :
    Plain (ofMembers ms) := by
  refine .object ?_ ?_
  · intro m hm
    obtain ⟨m', _, rfl⟩ := List.mem_map.1 hm
    exact body_escape _
  · intro m hm
    obtain ⟨m', hm', rfl⟩ := List.mem_map.1 hm
    exact h m' hm'

theorem plain_map {α : Type} {f : α → Json} (hf : ∀ a, Plain (f a)) (l : List α) :
    Plain (.array (l.map f)) := by
  refine .array fun v hv => ?_
  obtain ⟨a, _, rfl⟩ := List.mem_map.1 hv
  exact hf a

/-- a list is read exactly if each of its elements is -/
theorem list?_array_eq_some_iff {α : Type} {f : Json → Option α} {vs : List Json} {l : List α} :
    list? f (.array vs) = some l ↔ List.Forall₂ (fun a v => f v = some a) l vs := by
  rw [list?]
  induction vs generalizing l with
  | nil =>
    rw [List.mapM_nil, List.forall₂_nil_right_iff]
    exact ⟨fun h => (Option.some.inj h).symm, fun h => congrArg some h.symm⟩
  | cons v vs ih =>
    rw [List.mapM_cons, List.forall₂_cons_right_iff]
    constructor
    · intro h
      obtain ⟨a, ha, h⟩ := Option.bind_eq_some_iff.1 h
      obtain ⟨l', hl', h⟩ := Option.bind_eq_some_iff.1 h
      exact ⟨a, l', ha, ih.1 hl', (Option.some.inj h).symm⟩
    · rintro ⟨a, l', ha, hl', rfl⟩
      rw [ha, ih.2 hl']
      rfl

theorem list?_map {α β : Type} {f : α → Json} {g : Json → Option β} {e : α → β}
    (hg : ∀ a, g (f a) = some (e a)) (l : List α) :
    list? g (.array (l.map f)) = some (l.map e) := by
  rw [list?_array_eq_some_iff, List.forall₂_map_left_iff, List.forall₂_map_right_iff,
    List.forall₂_same]
  exact fun a _ => hg a

theorem list?_map_self {α : Type} {f : α → Json} {g : Json → Option α}
    (hg : ∀ a, g (f a) = some a) (l : List α) : list? g (.array (l.map f)) = some l := by
  have := list?_map (e := id) hg l
  rwa [List.map_id] at this

end Reclaim.Json

import Mathlib.Data.List.Basic
import Reclaim.Proofs.Json.Spelling

/-!
# Documents over several lines

* `Spells.array_spaced`, `Spells.object_spaced`   white space before a closing bracket or brace;
* `spells_prettyAt`   a plain value is spelled by its form over several lines, however far in;
* `parse_pretty`      which is a document of the value, white space at its end or not.
-/

namespace Reclaim.Json

/-! ## white space at the end -/

theorem Spells.behind {v : Json} {b w : Bytes} (hw : White w) (h : Spells v b) :
    Spells v (b ++ w) := .spaced white_nil hw h

/-- the white space before the closing bracket belongs to the last element -/
theorem Spells.array_spaced {t : Json × Bytes} {ts : List (Json × Bytes)} {w : Bytes}
    (hw : White w) (h : Spells t.1 t.2) (hs : ∀ u ∈ ts, Spells u.1 u.2) :
    Spells (.array (t.1 :: ts.map Prod.fst))
      (91 :: (t.2 ++ (ts.flatMap (fun u => 44 :: u.2) ++ (w ++ [93])))) := by
  rcases List.eq_nil_or_concat' ts with rfl | ⟨front, u, rfl⟩
  · have hb : Spells (t.1, t.2 ++ w).1 (t.1, t.2 ++ w).2 := h.behind hw
    have := Spells.array hb (fun u hu => absurd hu List.not_mem_nil)
    rwa [List.flatMap_nil, List.nil_append, List.append_assoc] at this
  · have hlast : ∀ u' ∈ front ++ [(u.1, u.2 ++ w)], Spells u'.1 u'.2 := by
      intro u' hu'
      rcases List.mem_append.1 hu' with hu' | hu'
      · exact hs u' (List.mem_append_left _ hu')
      · rw [List.mem_singleton.1 hu']
        exact (hs u (List.mem_append_right _ List.mem_cons_self)).behind hw
    have := Spells.array h hlast
    simp only [List.map_append, List.map_cons, List.map_nil, List.flatMap_append,
      List.flatMap_cons, List.flatMap_nil, List.append_nil, List.cons_append,
      List.append_assoc] at this ⊢
    exact this

/-- a member with white space behind its value -/
def Member.spaced (m : Member) (w : Bytes) : Member := { m with spelling := m.spelling ++ w }

theorem Member.bytes_spaced (m : Member) (w : Bytes) : (m.spaced w).bytes = m.bytes ++ w := by
  simp only [spaced, bytes, List.append_assoc, List.cons_append]

/-- the white space before the closing brace belongs to the last member -/
theorem Spells.object_spaced {m : Member} {ms : List Member} {w : Bytes} (hw : White w)
    (hm : m.Fair) (hms : ∀ u ∈ ms, u.Fair) (h : Spells m.value m.spelling)
    (hs : ∀ u ∈ ms, Spells u.value u.spelling) :
    Spells (.object (m.entry :: ms.map Member.entry))
      (123 :: (m.bytes ++ (ms.flatMap (fun u => 44 :: u.bytes) ++ (w ++ [125])))) := by
  rcases List.eq_nil_or_concat' ms with rfl | ⟨front, u, rfl⟩
  · have hfair : (m.spaced w).Fair := ⟨hm.before, hm.key, hm.behind⟩
    have := Spells.object hfair (fun u hu => absurd hu List.not_mem_nil) (h.behind hw)
      (fun u hu => absurd hu List.not_mem_nil)
    rwa [Member.bytes_spaced, List.flatMap_nil, List.nil_append, List.append_assoc] at this
  · have hu : u ∈ front ++ [u] := List.mem_append_right _ List.mem_cons_self
    have hfront : ∀ u' ∈ front, u' ∈ front ++ [u] := fun u' hu' => List.mem_append_left _ hu'
    have hfairs : ∀ u' ∈ front ++ [u.spaced w], u'.Fair := by
      intro u' hu'
      rcases List.mem_append.1 hu' with hu' | hu'
      · exact hms u' (hfront u' hu')
      · rw [List.mem_singleton.1 hu']
        exact ⟨(hms u hu).before, (hms u hu).key, (hms u hu).behind⟩
    have hvalues : ∀ u' ∈ front ++ [u.spaced w], Spells u'.value u'.spelling := by
      intro u' hu'
      rcases List.mem_append.1 hu' with hu' | hu'
      · exact hs u' (hfront u' hu')
      · rw [List.mem_singleton.1 hu']
        exact (hs u hu).behind hw
    have := Spells.object hm hfairs h hvalues
    simp only [List.map_append, List.map_cons, List.map_nil,
      List.flatMap_append, List.flatMap_cons, List.flatMap_nil, List.append_nil,
      List.cons_append, List.append_assoc, Member.bytes_spaced] at this ⊢
    exact this

/-! ## one line for every element and member -/

theorem white_newLine (n : Nat) : White (newLine n) := by
  intro c hc
  rcases List.mem_cons.1 hc with rfl | hc
  · decide
  · rw [List.eq_of_mem_replicate hc]
    decide

theorem prettyItems_eq (n : Nat) (vs : List Json) : prettyItems n vs =
    vs.flatMap (fun v => 44 :: (newLine (n + 1) ++ prettyAt (n + 1) v)) ++ (newLine n ++ [93]) := by
  induction vs with
  | nil => rw [prettyItems, List.flatMap_nil, List.nil_append]
  | cons v vs ih =>
    rw [prettyItems, ih, List.flatMap_cons]
    simp only [List.cons_append, List.append_assoc]

/-- a member on a line of its own, `n` steps in -/
def prettyMember (n : Nat) (m : Bytes × Json) : Member :=
  ⟨newLine n, m.1, [], m.2, 32 :: prettyAt n m.2⟩

theorem bytes_prettyMember (n : Nat) (m : Bytes × Json) : (prettyMember n m).bytes =
    newLine n ++ (quoted m.1 ++ 58 :: 32 :: prettyAt n m.2) := rfl

theorem prettyMembers_eq (n : Nat) (ms : List (Bytes × Json)) : prettyMembers n ms =
    ms.flatMap (fun m => 44 :: (prettyMember (n + 1) m).bytes) ++ (newLine n ++ [125]) := by
  induction ms with
  | nil => rw [prettyMembers, List.flatMap_nil, List.nil_append]
  | cons m ms ih =>
    obtain ⟨k, v⟩ := m
    rw [prettyMembers, ih, List.flatMap_cons, bytes_prettyMember]
    simp only [List.cons_append, List.append_assoc]

theorem spells_pretty_array {vs : List Json} (h : ∀ v ∈ vs, ∀ n, Spells v (prettyAt n v))
    (n : Nat) : Spells (.array vs) (prettyAt n (.array vs)) := by
  cases vs with
  | nil => exact .emptyArray white_nil
  | cons v vs =>
    have hline : ∀ u ∈ v :: vs, Spells u (newLine (n + 1) ++ prettyAt (n + 1) u) := by
      intro u hu
      have := Spells.spaced (white_newLine (n + 1)) white_nil (h u hu (n + 1))
      rwa [List.append_nil] at this
    have hvs : ∀ u ∈ vs.map fun v => (v, newLine (n + 1) ++ prettyAt (n + 1) v),
        Spells u.1 u.2 := by
      intro u hu
      obtain ⟨w, hw, rfl⟩ := List.mem_map.1 hu
      exact hline w (List.mem_cons_of_mem v hw)
    have hv : Spells (v, newLine (n + 1) ++ prettyAt (n + 1) v).1
        (v, newLine (n + 1) ++ prettyAt (n + 1) v).2 := hline v List.mem_cons_self
    have hs := Spells.array_spaced (white_newLine n) hv hvs
    have hid : vs.map (Prod.fst ∘ fun v => (v, newLine (n + 1) ++ prettyAt (n + 1) v)) = vs :=
      List.map_id vs
    rw [List.map_map, hid, List.flatMap_map, List.append_assoc] at hs
    rw [prettyAt, prettyItems_eq]
    exact hs

theorem spells_pretty_object {ms : List (Bytes × Json)} (hk : ∀ m ∈ ms, Body m.1)
    (h : ∀ m ∈ ms, ∀ n, Spells m.2 (prettyAt n m.2)) (n : Nat) :
    Spells (.object ms) (prettyAt n (.object ms)) := by
  cases ms with
  | nil => exact .emptyObject white_nil
  | cons m ms =>
    have hfair : ∀ u ∈ m :: ms, (prettyMember (n + 1) u).Fair := fun u hu =>
      ⟨white_newLine _, hk u hu, white_nil⟩
    have hvalue : ∀ u ∈ m :: ms,
        Spells (prettyMember (n + 1) u).value (prettyMember (n + 1) u).spelling := by
      intro u hu
      have hspace : White [32] := by
        intro c hc
        rw [List.mem_singleton.1 hc]
        decide
      have := Spells.spaced hspace white_nil (h u hu (n + 1))
      rwa [List.append_nil] at this
    have hfairs : ∀ u ∈ ms.map (prettyMember (n + 1)), u.Fair := by
      intro u hu
      obtain ⟨w, hw, rfl⟩ := List.mem_map.1 hu
      exact hfair w (List.mem_cons_of_mem m hw)
    have hvalues : ∀ u ∈ ms.map (prettyMember (n + 1)), Spells u.value u.spelling := by
      intro u hu
      obtain ⟨w, hw, rfl⟩ := List.mem_map.1 hu
      exact hvalue w (List.mem_cons_of_mem m hw)
    have hs := Spells.object_spaced (white_newLine n) (hfair m List.mem_cons_self) hfairs
      (hvalue m List.mem_cons_self) hvalues
    have hid : ms.map (Member.entry ∘ prettyMember (n + 1)) = ms := List.map_id ms
    rw [List.map_map, hid, List.flatMap_map, bytes_prettyMember] at hs
    obtain ⟨k, v⟩ := m
    rw [prettyAt, prettyMembers_eq]
    simp only [List.append_assoc, List.cons_append] at hs
    exact hs

theorem spells_prettyAt {v : Json} (h : Plain v) (n : Nat) : Spells v (prettyAt n v) := by
  induction h generalizing n with
  | null => exact .null
  | bool b => exact .bool b
  | number h => exact .number h
  | string hb => exact .string hb
  | array _ ih => exact spells_pretty_array ih n
  | object hk _ ih => exact spells_pretty_object hk ih n

theorem parse_pretty {v : Json} (h : Plain v) {w : Bytes} (hw : White w) :
    parse (v.pretty ++ w) = some v :=
  parse_of_spells ((spells_prettyAt h 0).behind hw)

end Reclaim.Json

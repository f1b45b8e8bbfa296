import Mathlib.Logic.Basic
import Reclaim.Bytes

/-!
# Numbers in bytes and runs of equal length

* `leNat_le_mod`          the bytes of a number hold it as far as they reach;
* `leNat_take_lt`         a few bytes hold a small number;
* `getElem?_segments`, `length_segments`   the runs of a list, one by one;
* `take_segments`, `takeWhile_segments`   the runs of full length by their places;
* `segments_flatMap`      entries of one length are cut where they were joined;
* `slice_flatMap`         each of them stands at its place.
-/

namespace Reclaim.Bytes

theorem leNat_le_mod (w n : Nat) : leNat (le w n) = n % count w := by
  induction w generalizing n with
  | zero => rw [le, leNat, count, Nat.mod_one]
  | succ w ih =>
    rw [le, leNat, ih, UInt8.toNat_ofNat', count]
    exact (Nat.mod_mul (x := n) (a := 256) (b := count w)).symm

theorem leNat_take_lt (n : Nat) (b : Bytes) : leNat (b.take n) < count n := by
  induction n generalizing b with
  | zero => exact Nat.one_pos
  | succ n ih =>
    cases b with
    | nil => exact Nat.mul_pos (by decide) (Nat.zero_lt_of_lt (ih []))
    | cons x b =>
      have hx := x.toNat_lt
      have hb := ih b
      rw [List.take_succ_cons, leNat, count]
      omega

theorem fit_take (n : Nat) (b : Bytes) : fit n (b.take n) = fit n b := by
  have hlen : n - min n b.length = n - b.length := by omega
  rw [fit, fit, List.take_take, Nat.min_self, List.length_take, hlen]

theorem fit_of_length_le {n : Nat} {b : Bytes} (h : b.length ≤ n) :
    fit n b = b ++ List.replicate (n - b.length) 0 := by
  rw [fit, List.take_of_length_le h]

theorem getElem?_fit_of_le {n j : Nat} {b : Bytes} (h : b.length ≤ j) (hj : j < n) :
    (fit n b)[j]? = some 0 := by
  rw [fit_of_length_le (by omega), List.getElem?_append_right h, List.getElem?_replicate,
    if_pos (by omega)]

/-! ## runs of equal length -/

section
variable {α : Type}

theorem getElem?_segments (n : Nat) (hn : n ≠ 0) (l : List α) (i : Nat) :
    (segments n l)[i]? = if i * n < l.length then some ((l.drop (i * n)).take n) else none := by
  induction i generalizing l with
  | zero =>
    by_cases hl : l = []
    · rw [hl, segments_nil]
      rfl
    · have hpos : 0 * n < l.length := by
        rw [Nat.zero_mul]
        exact List.length_pos_iff.2 hl
      rw [segments_cons n l hl hn, if_pos hpos, Nat.zero_mul]
      rfl
  | succ i ih =>
    by_cases hl : l = []
    · rw [hl, segments_nil]
      rfl
    · have e : (i + 1) * n = n + i * n := by rw [Nat.succ_mul, Nat.add_comm]
      rw [segments_cons n l hl hn, List.getElem?_cons_succ, ih, List.length_drop, List.drop_drop, e]
      by_cases h : i * n < l.length - n
      · rw [if_pos h, if_pos (by omega)]
      · rw [if_neg h, if_neg (by omega)]

theorem length_segments (n : Nat) (hn : n ≠ 0) (l : List α) :
    (segments n l).length = (l.length + n - 1) / n := by
  have key : ∀ i, (segments n l).length ≤ i ↔ (l.length + n - 1) / n ≤ i := by
    intro i
    rw [← List.getElem?_eq_none_iff, getElem?_segments n hn]
    have hdiv : (l.length + n - 1) / n ≤ i ↔ l.length ≤ i * n := by
      rw [Nat.div_le_iff_le_mul_add_pred (Nat.pos_of_ne_zero hn), Nat.mul_comm]
      omega
    rw [hdiv]
    split
    · next h => exact ⟨fun h' => (by cases h'), fun h' => absurd h (Nat.not_lt.2 h')⟩
    · next h => exact ⟨fun _ => Nat.le_of_not_lt h, fun _ => rfl⟩
  exact Nat.le_antisymm ((key _).2 (Nat.le_refl _)) ((key _).1 (Nat.le_refl _))

theorem length_le_of_mem_segments {n : Nat} (hn : n ≠ 0) {l s : List α} (h : s ∈ segments n l) :
    s.length ≤ n := by
  obtain ⟨i, hi⟩ := List.getElem?_of_mem h
  rw [getElem?_segments n hn] at hi
  split at hi
  · cases hi
    exact List.length_take_le n _
  · cases hi

theorem flatten_take_segments (n : Nat) (hn : n ≠ 0) (l : List α) (j : Nat) :
    ((segments n l).take j).flatten = l.take (j * n) := by
  induction j generalizing l with
  | zero => rw [List.take_zero, Nat.zero_mul, List.take_zero, List.flatten_nil]
  | succ j ih =>
    by_cases hl : l = []
    · rw [hl, segments_nil, List.take_nil, List.take_nil, List.flatten_nil]
    · rw [segments_cons n l hl hn, List.take_succ_cons, List.flatten_cons, ih, Nat.succ_mul,
        Nat.add_comm (j * n), ← List.take_add]

theorem take_segments {n : Nat} (hn : n ≠ 0) {l : List α} {c : Nat} (h : c * n ≤ l.length) :
    (segments n l).take c = (List.range c).map fun j => (l.drop (j * n)).take n := by
  apply List.ext_getElem?
  intro j
  rw [List.getElem?_take, List.getElem?_map]
  by_cases hj : j < c
  · have hlt : j * n < l.length :=
      Nat.lt_of_lt_of_le (Nat.mul_lt_mul_of_pos_right hj (Nat.pos_of_ne_zero hn)) h
    rw [if_pos hj, getElem?_segments n hn, if_pos hlt, List.getElem?_range hj]
    rfl
  · rw [if_neg hj, List.getElem?_eq_none (by rw [List.length_range]; omega)]
    rfl

/-- the runs of full length -/
theorem takeWhile_segments {n : Nat} (hn : n ≠ 0) (l : List α) :
    (segments n l).takeWhile (fun s => decide (n ≤ s.length)) =
      (List.range (l.length / n)).map fun j => (l.drop (j * n)).take n := by
  induction hq : l.length / n generalizing l with
  | zero =>
    have hlt : l.length < n := (Nat.div_eq_zero_iff_lt (Nat.pos_of_ne_zero hn)).1 hq
    by_cases hl : l = []
    · rw [hl, segments_nil]
      rfl
    · have hshort : ¬ decide (n ≤ (l.take n).length) = true := by
        rw [List.length_take, decide_eq_true_eq]
        omega
      rw [segments_cons n l hl hn, List.takeWhile_cons, if_neg hshort]
      rfl
  | succ q ih =>
    have hle : n ≤ l.length := by
      refine Nat.le_of_not_lt fun hlt => ?_
      rw [Nat.div_eq_of_lt hlt] at hq
      cases hq
    have hl : l ≠ [] := by
      rintro rfl
      exact hn (Nat.le_zero.1 hle)
    have hfull : decide (n ≤ (l.take n).length) = true := by
      rw [List.length_take, decide_eq_true_eq]
      omega
    have hrest : (l.drop n).length / n = q := by
      rw [Nat.div_eq_sub_div (Nat.pos_of_ne_zero hn) hle] at hq
      rw [List.length_drop]
      exact Nat.succ.inj hq
    rw [segments_cons n l hl hn, List.takeWhile_cons, if_pos hfull, ih _ hrest,
      List.range_succ_eq_map, List.map_cons, List.map_map, Nat.zero_mul, List.drop_zero]
    congr 1
    refine List.map_congr_left fun j _ => ?_
    rw [List.drop_drop, Function.comp, Nat.succ_mul, Nat.add_comm]

theorem segments_flatMap {β : Type} {f : β → List α} {n : Nat} (hn : n ≠ 0)
    (hf : ∀ a, (f a).length = n) (l : List β) (r : List α) :
    segments n (l.flatMap f ++ r) = l.map f ++ segments n r := by
  induction l with
  | nil => rfl
  | cons a l ih =>
    have hne : f a ++ (l.flatMap f ++ r) ≠ [] := by
      intro h
      have := hf a
      rw [(List.append_eq_nil_iff.1 h).1] at this
      exact hn this.symm
    rw [List.flatMap_cons, List.append_assoc, segments_cons n _ hne hn, List.take_left' (hf a),
      List.drop_left' (hf a), ih]
    rfl

/-- entry number `i` of entries of one length that are joined -/
theorem slice_flatMap {β : Type} {f : β → List α} {n : Nat} (hn : n ≠ 0)
    (hf : ∀ a, (f a).length = n) {l : List β} {i : Nat} {a : β} (h : l[i]? = some a)
    (r : List α) : ((l.flatMap f ++ r).drop (i * n)).take n = f a := by
  have hi : i < l.length := (List.getElem?_eq_some_iff.1 h).1
  have hget := getElem?_segments n hn (l.flatMap f ++ r) i
  rw [segments_flatMap hn hf, List.getElem?_append_left (by rw [List.length_map]; exact hi),
    List.getElem?_map, h] at hget
  split at hget
  · exact (Option.some.inj hget).symm
  · cases hget

end

end Reclaim.Bytes

/-!
# Byte strings

Everything the library reads, hashes, codes or writes is a list of bytes.  Here are the few
operations all the formats share:

* `le w n`       the number `n` in `w` bytes, least significant first; `leNat` reads it back
                 (`leNat_le`);
* `be w n`       the same, most significant first;
* `fit n b`      `b` cut or zero-filled to exactly `n` bytes (`length_fit`);
* `segments n b` consecutive runs of `n` bytes, the last one possibly shorter; together they
                 are `b` again (`flatten_segments`).
-/

namespace Reclaim

/-- a byte string -/
abbrev Bytes := List UInt8

def utf8 (s : String) : Bytes := s.toUTF8.toList

namespace Bytes

/-! ## numbers in bytes -/

/-- `n` in `w` bytes, least significant byte first; higher bytes of `n` are dropped -/
def le : Nat → Nat → Bytes
  | 0, _ => []
  | w + 1, n => UInt8.ofNat n :: le w (n / 256)

/-- the number written by `b`, least significant byte first -/
def leNat : Bytes → Nat
  | [] => 0
  | x :: b => x.toNat + 256 * leNat b

/-- `n` in `w` bytes, most significant byte first -/
def be (w n : Nat) : Bytes := (le w n).reverse

/-- the number written by `b`, most significant byte first -/
def beNat (b : Bytes) : Nat := leNat b.reverse

theorem length_le (w n : Nat) : (le w n).length = w := by
  induction w generalizing n with
  | zero => rfl
  | succ w ih => rw [le, List.length_cons, ih]

theorem length_be (w n : Nat) : (be w n).length = w := by
  rw [be, List.length_reverse, length_le]

/-- how many byte strings of length `w` there are -/
def count : Nat → Nat
  | 0 => 1
  | w + 1 => 256 * count w

theorem leNat_le (w n : Nat) (h : n < count w) : leNat (le w n) = n := by
  induction w generalizing n with
  | zero =>
    have : n = 0 := Nat.lt_one_iff.1 h
    rw [le, leNat, this]
  | succ w ih =>
    have hq : n / 256 < count w := Nat.div_lt_of_lt_mul h
    rw [le, leNat, ih _ hq, UInt8.toNat_ofNat']
    exact Nat.mod_add_div n 256

theorem beNat_be (w n : Nat) (h : n < count w) : beNat (be w n) = n := by
  rw [beNat, be, List.reverse_reverse, leNat_le w n h]

theorem leNat_lt (b : Bytes) : leNat b < count b.length := by
  induction b with
  | nil => decide
  | cons x b ih =>
    have hx := x.toNat_lt
    rw [leNat, List.length_cons, count]
    omega

/-! ## exact lengths -/

/-- `b` cut or filled with zero bytes to exactly `n` bytes -/
def fit (n : Nat) (b : Bytes) : Bytes := b.take n ++ List.replicate (n - b.length) 0

theorem length_fit (n : Nat) (b : Bytes) : (fit n b).length = n := by
  rw [fit, List.length_append, List.length_take, List.length_replicate]
  omega

theorem fit_of_length_eq (n : Nat) (b : Bytes) (h : b.length = n) : fit n b = b := by
  subst h
  rw [fit, Nat.sub_self, List.replicate_zero, List.append_nil, List.take_length]

/-! ## runs of equal length -/

section
variable {α : Type}

/-- the runs collected in `done`, latest first, followed by the runs of `l` -/
def segmentsOnto (n : Nat) (done : List (List α)) (l : List α) : List (List α) :=
  if _h : l = [] ∨ n = 0 then done.reverse
  else segmentsOnto n (l.take n :: done) (l.drop n)
termination_by l.length
decreasing_by
  have : l.length ≠ 0 := fun e => _h (.inl (List.length_eq_zero_iff.1 e))
  rw [List.length_drop]
  omega

/-- consecutive runs of `n` elements; the last one is shorter when `n` does not divide the length -/
def segments (n : Nat) (l : List α) : List (List α) := segmentsOnto n [] l

theorem segmentsOnto_append (n : Nat) (a done : List (List α)) (l : List α) :
    segmentsOnto n (done ++ a) l = a.reverse ++ segmentsOnto n done l := by
  fun_induction segmentsOnto n done l with
  | case1 done l h => rw [segmentsOnto, dif_pos h, List.reverse_append]
  | case2 done l h ih => rw [segmentsOnto, dif_neg h, ← List.cons_append, ih]

theorem segments_nil (n : Nat) : segments n ([] : List α) = [] := by
  rw [segments, segmentsOnto, dif_pos (.inl rfl), List.reverse_nil]

theorem segments_cons (n : Nat) (l : List α) (hl : l ≠ []) (hn : n ≠ 0) :
    segments n l = l.take n :: segments n (l.drop n) := by
  rw [segments, segmentsOnto, dif_neg (fun h => h.elim hl hn)]
  exact segmentsOnto_append n [l.take n] [] (l.drop n)

theorem flatten_segments (n : Nat) (l : List α) (hn : n ≠ 0) : (segments n l).flatten = l := by
  induction h : l.length using Nat.strongRecOn generalizing l with
  | ind k ih =>
    by_cases hl : l = []
    · rw [hl, segments_nil, List.flatten_nil]
    · have hpos : l.length ≠ 0 := fun e => hl (List.length_eq_zero_iff.1 e)
      rw [segments_cons n l hl hn, List.flatten_cons,
        ih (l.drop n).length (by rw [List.length_drop]; omega) (l.drop n) rfl,
        List.take_append_drop]

end

end Bytes

end Reclaim

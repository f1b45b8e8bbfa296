import Mathlib.Data.List.TakeWhile
import Reclaim.Proofs.Text.Utf8

/-!
# Reading a text back from its bytes

`lossy` loses nothing of well-formed UTF-8: the bytes of a text are read as that text
(`lossy_utf8`).  The argument goes by characters; `following` is right about the first byte of each
(`following_two`, `following_three`, `following_four`), its bounds leave out only longer ways to
write a character and the values that no character has.
-/

namespace Reclaim.Text

theorem isContinuation_tailByte (u : Nat) : isContinuation (tailByte u) = true := by
  have all : ∀ m : Fin 64, isContinuation (UInt8.ofNat (m.val + 128)) = true := by decide
  exact all ⟨u % 64, Nat.mod_lt u (by decide)⟩

/-! ## the first byte -/

theorem following_one {v : Nat} (hv : v < 128) : following (UInt8.ofNat v) = some (0, 0, 0) := by
  have all : ∀ m : Fin 128, following (UInt8.ofNat m.val) = some (0, 0, 0) := by decide
  exact all ⟨v, hv⟩

theorem following_two {q : Nat} (hlo : 2 ≤ q) (hhi : q < 32) :
    following (UInt8.ofNat (q + 192)) = some (1, 128, 191) := by
  have all : ∀ m : Fin 32, 2 ≤ m.val →
      following (UInt8.ofNat (m.val + 192)) = some (1, 128, 191) := by decide
  exact all ⟨q, hhi⟩ hlo

theorem following_three {q : Nat} (hq : q < 16) :
    following (UInt8.ofNat (q + 224)) =
      some (2, if q = 0 then 160 else 128, if q = 13 then 159 else 191) := by
  have all : ∀ m : Fin 16, following (UInt8.ofNat (m.val + 224)) =
      some (2, if m.val = 0 then 160 else 128, if m.val = 13 then 159 else 191) := by decide
  exact all ⟨q, hq⟩

theorem following_four {q : Nat} (hq : q < 5) :
    following (UInt8.ofNat (q + 240)) =
      some (3, if q = 0 then 144 else 128, if q = 4 then 143 else 191) := by
  have all : ∀ m : Fin 5, following (UInt8.ofNat (m.val + 240)) =
      some (3, if m.val = 0 then 144 else 128, if m.val = 4 then 143 else 191) := by decide
  exact all ⟨q, hq⟩

/-! ## the bytes behind it -/

theorem continuing_all {b lo hi : UInt8} {t : Bytes} (hlo : lo ≤ b) (hhi : b ≤ hi)
    (ht : ∀ y ∈ t, isContinuation y = true) (r : Bytes) :
    continuing (t.length + 1) lo hi (b :: t ++ r) = t.length + 1 := by
  have hin : (decide (t.length + 1 = 0) || decide (b < lo) || decide (hi < b)) = false := by
    rw [decide_eq_false (Nat.succ_ne_zero _), decide_eq_false (UInt8.not_lt.2 hlo),
      decide_eq_false (UInt8.not_lt.2 hhi)]
    rfl
  show (if (decide (t.length + 1 = 0) || decide (b < lo) || decide (hi < b)) = true then 0 else
    1 + (((t ++ r).take (t.length + 1 - 1)).takeWhile isContinuation).length) = _
  rw [hin, if_neg Bool.false_ne_true, Nat.add_sub_cancel, List.take_left,
    List.takeWhile_eq_self_iff.2 ht, Nat.add_comm]

/-- a first byte with all that follows it is a character -/
theorem charAt_all {a b lo hi : UInt8} (t : Bytes) (ha : following a = some (t.length + 1, lo, hi))
    (hlo : lo ≤ b) (hhi : b ≤ hi) (ht : ∀ y ∈ t, isContinuation y = true) (r : Bytes) :
    charAt a (b :: t ++ r) =
      (Char.ofNat ((b :: t).foldl (fun v y => v * 64 + y.toNat % 64) (leadBits (t.length + 1) a)),
        t.length + 1) := by
  have htake : (b :: t ++ r).take (b :: t).length = b :: t := List.take_left
  rw [List.length_cons] at htake
  rw [charAt, ha]
  simp only
  rw [continuing_all hlo hhi ht r, if_pos rfl, htake]

theorem charAt_one {a : UInt8} (ha : following a = some (0, 0, 0)) (r : Bytes) :
    charAt a r = (Char.ofNat a.toNat, 0) := by
  have hnone : continuing 0 0 0 r = 0 := by cases r <;> rfl
  rw [charAt, ha]
  simp only
  rw [hnone, if_pos rfl]
  rfl

/-! ## characters and texts -/

theorem tailByte_value (u : Nat) : (tailByte u).toNat % 64 = u % 64 := by
  rw [(tailByte_spec u).2]
  omega

theorem within_bounds (q s : Nat) (least : UInt8) (top : Nat) (most : UInt8)
    (hleast : q = 0 → least.toNat ≤ s % 64 + 128) (hmost : q = top → s % 64 + 128 ≤ most.toNat) :
    (if q = 0 then least else 128) ≤ tailByte s ∧ tailByte s ≤ if q = top then most else 191 := by
  have hs := Nat.mod_lt s (show 0 < 64 by decide)
  rw [UInt8.le_iff_toNat_le, UInt8.le_iff_toNat_le, (tailByte_spec s).2]
  constructor
  · split
    · exact hleast ‹_›
    · exact Nat.le_add_left 128 _
  · split
    · exact hmost ‹_›
    · show s % 64 + 128 ≤ 191
      omega

theorem leadBits_eq {n size base q : Nat} (hsize : ∀ a, leadBits n a = a.toNat % size)
    (hbase : base % size = 0) (hq : q < size) (hbyte : q + base < 256) :
    leadBits n (UInt8.ofNat (q + base)) = q := by
  rw [hsize, UInt8.toNat_ofNat_of_lt' hbyte, Nat.add_mod, hbase, Nat.add_zero, Nat.mod_mod,
    Nat.mod_eq_of_lt hq]

/-- the bytes of a character are read as it, whatever follows -/
theorem charAt_encodes {v : Nat} {a : UInt8} {t : Bytes} (h : Encodes v (a :: t)) (r : Bytes) :
    charAt a (t ++ r) = (Char.ofNat v, t.length) := by
  cases h with
  | one hv =>
    rw [charAt_one (following_one hv), UInt8.toNat_ofNat_of_lt' (Nat.lt_trans hv (by decide))]
    rfl
  | two hlo hhi =>
    have hb := within_bounds 1 v 128 0 191 (fun e => absurd e (by decide))
      (fun e => absurd e (by decide))
    have hlead : leadBits 1 (UInt8.ofNat (v / 64 + 192)) = v / 64 :=
      leadBits_eq (fun _ => rfl) rfl (by omega) (by omega)
    have hv : v / 64 * 64 + v % 64 = v := by omega
    rw [charAt_all [] (following_two (by omega) (by omega)) hb.1 hb.2 (List.forall_mem_nil _)]
    simp only [List.foldl_cons, List.foldl_nil, List.length_nil, List.length_cons, Nat.zero_add,
      tailByte_value, hlead, hv]
  | three hlo hhi hgap =>
    have hb := within_bounds (v / 4096) (v / 64) 160 13 159 (fun e => show 160 ≤ _ by omega)
      (fun e => show _ ≤ 159 by omega)
    have hlead : leadBits 2 (UInt8.ofNat (v / 4096 + 224)) = v / 4096 :=
      leadBits_eq (fun _ => rfl) rfl (by omega) (by omega)
    have hv : (v / 4096 * 64 + v / 64 % 64) * 64 + v % 64 = v := by omega
    rw [charAt_all [tailByte v] (following_three (by omega)) hb.1 hb.2
      (List.forall_mem_singleton.2 (isContinuation_tailByte v))]
    simp only [List.foldl_cons, List.foldl_nil, List.length_nil, List.length_cons, Nat.zero_add,
      Nat.reduceAdd, tailByte_value, hlead, hv]
  | four hlo hhi =>
    have hb := within_bounds (v / 262144) (v / 4096) 144 4 143 (fun e => show 144 ≤ _ by omega)
      (fun e => show _ ≤ 143 by omega)
    have hlead : leadBits 3 (UInt8.ofNat (v / 262144 + 240)) = v / 262144 :=
      leadBits_eq (fun _ => rfl) rfl (by omega) (by omega)
    have hv : ((v / 262144 * 64 + v / 4096 % 64) * 64 + v / 64 % 64) * 64 + v % 64 = v := by omega
    rw [charAt_all [tailByte (v / 64), tailByte v] (following_four (by omega)) hb.1 hb.2
      (List.forall_mem_cons.2 ⟨isContinuation_tailByte _,
        List.forall_mem_singleton.2 (isContinuation_tailByte v)⟩)]
    simp only [List.foldl_cons, List.foldl_nil, List.length_nil, List.length_cons, Nat.zero_add,
      Nat.reduceAdd, tailByte_value, hlead, hv]

theorem lossyChars_encode (l : List Char) : lossyChars (l.flatMap String.utf8EncodeChar) = l := by
  induction l with
  | nil => rw [List.flatMap_nil, lossyChars]
  | cons c l ih =>
    obtain ⟨a, t, hc⟩ := List.exists_cons_of_ne_nil (encode_ne_nil c)
    have henc := encodes c
    rw [hc] at henc
    rw [List.flatMap_cons, hc, List.cons_append, lossyChars, charAt_encodes henc,
      Char.ofNat_toNat]
    simp only
    rw [List.drop_left, ih]

/-- the bytes of a text are read as that text -/
theorem lossy_utf8 (s : String) : lossy (utf8 s) = s := by
  rw [lossy, utf8_eq, lossyChars_encode, String.ofList_toList]

end Reclaim.Text

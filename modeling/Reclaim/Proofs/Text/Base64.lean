import Mathlib.Logic.Basic
import Reclaim.Text.Base64

/-!
# Base 64 there and back

* `decode_encode`   the letters of a byte string spell it;
* `decode_eq_some_iff`   nothing else spells it;
* `mem_encode`      letters and padding are all that stands there, plain ASCII (`encode_lt`).
-/

namespace Reclaim.Base64

/-! ## the bytes of four letters -/

theorem first_back (a b : UInt8) :
    UInt8.ofNat (a.toNat / 4 * 4 + (a.toNat % 4 * 16 + b.toNat / 16) / 16) = a := by
  have hb := b.toNat_lt
  have e : a.toNat / 4 * 4 + (a.toNat % 4 * 16 + b.toNat / 16) / 16 = a.toNat := by omega
  rw [e]
  exact UInt8.ofNat_toNat

theorem second_back (a b c : UInt8) :
    UInt8.ofNat ((a.toNat % 4 * 16 + b.toNat / 16) % 16 * 16 +
      (b.toNat % 16 * 4 + c.toNat / 64) / 4) = b := by
  have hb := b.toNat_lt
  have hc := c.toNat_lt
  have e : (a.toNat % 4 * 16 + b.toNat / 16) % 16 * 16 +
      (b.toNat % 16 * 4 + c.toNat / 64) / 4 = b.toNat := by omega
  rw [e]
  exact UInt8.ofNat_toNat

theorem third_back (b c : UInt8) :
    UInt8.ofNat ((b.toNat % 16 * 4 + c.toNat / 64) % 4 * 64 + c.toNat % 64) = c := by
  have hc := c.toNat_lt
  have e : (b.toNat % 16 * 4 + c.toNat / 64) % 4 * 64 + c.toNat % 64 = c.toNat := by omega
  rw [e]
  exact UInt8.ofNat_toNat

section
variable (a b c : UInt8)

theorem letterValue_first : letterValue? (letter (a.toNat / 4)) = some (a.toNat / 4) := by
  have ha := a.toNat_lt
  exact letterValue_letter _ (by omega)

theorem letterValue_second : letterValue? (letter (a.toNat % 4 * 16 + b.toNat / 16)) =
    some (a.toNat % 4 * 16 + b.toNat / 16) := by
  have hb := b.toNat_lt
  exact letterValue_letter _ (by omega)

theorem letterValue_third : letterValue? (letter (b.toNat % 16 * 4 + c.toNat / 64)) =
    some (b.toNat % 16 * 4 + c.toNat / 64) := by
  have hc := c.toNat_lt
  exact letterValue_letter _ (by omega)

theorem letterValue_fourth : letterValue? (letter (c.toNat % 64)) = some (c.toNat % 64) :=
  letterValue_letter _ (Nat.mod_lt _ (by decide))

theorem decodeLast_one :
    decodeLast (letter (a.toNat / 4)) (letter (a.toNat % 4 * 16)) pad pad = some [a] := by
  have h2 := letterValue_second a 0
  have hback := first_back a 0
  rw [UInt8.toNat_zero, Nat.zero_div, Nat.add_zero] at h2 hback
  rw [decodeLast, letterValue_first, h2]
  simp only
  rw [if_pos True.intro, if_pos True.intro, if_pos (Nat.mul_mod_left _ 16), hback]

theorem decodeLast_two :
    decodeLast (letter (a.toNat / 4)) (letter (a.toNat % 4 * 16 + b.toNat / 16))
      (letter (b.toNat % 16 * 4)) pad = some [a, b] := by
  have h3 := letterValue_third b 0
  have hback := second_back a b 0
  rw [UInt8.toNat_zero, Nat.zero_div, Nat.add_zero] at h3 hback
  have hpad : letter (b.toNat % 16 * 4) ≠ pad := letter_ne_pad _ (by omega)
  rw [decodeLast, letterValue_first, letterValue_second, h3]
  simp only
  rw [if_pos True.intro, if_neg hpad, if_pos (Nat.mul_mod_left _ 4), first_back, hback]

theorem decodeLast_three :
    decodeLast (letter (a.toNat / 4)) (letter (a.toNat % 4 * 16 + b.toNat / 16))
      (letter (b.toNat % 16 * 4 + c.toNat / 64)) (letter (c.toNat % 64)) = some [a, b, c] := by
  have hpad : letter (c.toNat % 64) ≠ pad := letter_ne_pad _ (Nat.mod_lt _ (by decide))
  rw [decodeLast, letterValue_first, letterValue_second, letterValue_third, letterValue_fourth]
  simp only
  rw [if_neg hpad, first_back, second_back, third_back]

end

/-! ## whole texts -/

theorem encode_eq_nil (r : Bytes) (h : encode r = []) : r = [] := by
  match r with
  | [] => rfl
  | [a] => cases h
  | [a, b] => cases h
  | a :: b :: c :: r => cases h

theorem decode_encode (r : Bytes) : decode (encode r) = some r := by
  fun_induction encode r with
  | case1 => rfl
  | case2 a => exact decodeLast_one a
  | case3 a b => exact decodeLast_two a b
  | case4 a b c r ih =>
    by_cases h : encode r = []
    · rw [h, encode_eq_nil r h]
      exact decodeLast_three a b c
    · rw [decode, letterValue_first, letterValue_second, letterValue_third, letterValue_fourth, ih]
      · simp only
        rw [first_back, second_back, third_back]
      · exact h

/-! ## the letters of what was read -/

theorem letter_letterValue {c : UInt8} {n : Nat} (h : letterValue? c = some n) :
    n < 64 ∧ letter n = c := by
  have all : ∀ x : Fin 256, ∀ m ∈ letterValue? (UInt8.ofNat x.val),
      m < 64 ∧ letter m = UInt8.ofNat x.val := by decide +kernel
  have := all ⟨c.toNat, c.toNat_lt⟩
  rw [UInt8.ofNat_toNat] at this
  exact this n h

section
variable {i j k l : Nat}

theorem toNat_first (hi : i < 64) (hj : j < 64) :
    (UInt8.ofNat (i * 4 + j / 16)).toNat = i * 4 + j / 16 := by
  rw [UInt8.toNat_ofNat']
  omega

theorem toNat_second (hk : k < 64) :
    (UInt8.ofNat (j % 16 * 16 + k / 4)).toNat = j % 16 * 16 + k / 4 := by
  rw [UInt8.toNat_ofNat']
  omega

theorem toNat_third (hl : l < 64) : (UInt8.ofNat (k % 4 * 64 + l)).toNat = k % 4 * 64 + l := by
  rw [UInt8.toNat_ofNat']
  omega

theorem encode_one (hi : i < 64) (hj : j < 64) (hzero : j % 16 = 0) :
    encode [UInt8.ofNat (i * 4 + j / 16)] = [letter i, letter j, pad, pad] := by
  have h1 : (i * 4 + j / 16) / 4 = i := by omega
  have h2 : (i * 4 + j / 16) % 4 * 16 = j := by omega
  rw [encode, toNat_first hi hj, h1, h2]

theorem encode_two (hi : i < 64) (hj : j < 64) (hk : k < 64) (hzero : k % 4 = 0) :
    encode [UInt8.ofNat (i * 4 + j / 16), UInt8.ofNat (j % 16 * 16 + k / 4)] =
      [letter i, letter j, letter k, pad] := by
  have h1 : (i * 4 + j / 16) / 4 = i := by omega
  have h2 : (i * 4 + j / 16) % 4 * 16 + (j % 16 * 16 + k / 4) / 16 = j := by omega
  have h3 : (j % 16 * 16 + k / 4) % 16 * 4 = k := by omega
  rw [encode, toNat_first hi hj, toNat_second hk, h1, h2, h3]

theorem encode_three (hi : i < 64) (hj : j < 64) (hk : k < 64) (hl : l < 64) (r : Bytes) :
    encode (UInt8.ofNat (i * 4 + j / 16) :: UInt8.ofNat (j % 16 * 16 + k / 4) ::
        UInt8.ofNat (k % 4 * 64 + l) :: r) =
      letter i :: letter j :: letter k :: letter l :: encode r := by
  have h1 : (i * 4 + j / 16) / 4 = i := by omega
  have h2 : (i * 4 + j / 16) % 4 * 16 + (j % 16 * 16 + k / 4) / 16 = j := by omega
  have h3 : (j % 16 * 16 + k / 4) % 16 * 4 + (k % 4 * 64 + l) / 64 = k := by omega
  have h4 : (k % 4 * 64 + l) % 64 = l := by omega
  rw [encode, toNat_first hi hj, toNat_second hk, toNat_third hl, h1, h2, h3, h4]

end

theorem encode_decodeLast {w x y z : UInt8} {b : Bytes} (h : decodeLast w x y z = some b) :
    encode b = [w, x, y, z] := by
  rw [decodeLast] at h
  split at h
  · next i j hw hx =>
    obtain ⟨hi, rfl⟩ := letter_letterValue hw
    obtain ⟨hj, rfl⟩ := letter_letterValue hx
    split at h
    · next hz =>
      subst hz
      split at h
      · next hy =>
        subst hy
        split at h
        · next hzero =>
          cases h
          exact encode_one hi hj hzero
        · cases h
      · split at h
        · next k hy =>
          obtain ⟨hk, rfl⟩ := letter_letterValue hy
          split at h
          · next hzero =>
            cases h
            exact encode_two hi hj hk hzero
          · cases h
        · cases h
    · split at h
      · next k l hy hz =>
        obtain ⟨hk, rfl⟩ := letter_letterValue hy
        obtain ⟨hl, rfl⟩ := letter_letterValue hz
        cases h
        exact encode_three hi hj hk hl []
      · cases h
  · cases h

theorem encode_of_decode {t b : Bytes} (h : decode t = some b) : encode b = t := by
  fun_induction decode t generalizing b with
  | case1 =>
    cases h
    rfl
  | case2 w x y z => exact encode_decodeLast h
  | case3 w x y z r _ i j k l b' hr hz hy hx hw ih =>
    cases h
    obtain ⟨hi, rfl⟩ := letter_letterValue hw
    obtain ⟨hj, rfl⟩ := letter_letterValue hx
    obtain ⟨hk, rfl⟩ := letter_letterValue hy
    obtain ⟨hl, rfl⟩ := letter_letterValue hz
    rw [encode_three hi hj hk hl, ih hr]
  | case4 => cases h
  | case5 => cases h

/-- a text spells at most one byte string, and is what that byte string is written as -/
theorem decode_eq_some_iff (t b : Bytes) : decode t = some b ↔ encode b = t := by
  constructor
  · exact encode_of_decode
  · rintro rfl
    exact decode_encode b

/-- what stands in an encoding: letters and the padding sign -/
theorem mem_encode (r : Bytes) : ∀ x ∈ encode r, x = pad ∨ ∃ n < 64, x = letter n := by
  have letters : ∀ n < 64, letter n = pad ∨ ∃ m < 64, letter n = letter m := fun n hn =>
    .inr ⟨n, hn, rfl⟩
  fun_induction encode r with
  | case1 => exact fun x hx => absurd hx List.not_mem_nil
  | case2 a =>
    have ha := a.toNat_lt
    simp only [List.forall_mem_cons]
    exact ⟨letters _ (by omega), letters _ (by omega), .inl trivial, .inl trivial,
      fun x hx => absurd hx List.not_mem_nil⟩
  | case3 a b =>
    have ha := a.toNat_lt
    have hb := b.toNat_lt
    simp only [List.forall_mem_cons]
    exact ⟨letters _ (by omega), letters _ (by omega), letters _ (by omega), .inl trivial,
      fun x hx => absurd hx List.not_mem_nil⟩
  | case4 a b c r ih =>
    have ha := a.toNat_lt
    have hb := b.toNat_lt
    have hc := c.toNat_lt
    simp only [List.forall_mem_cons]
    exact ⟨letters _ (by omega), letters _ (by omega), letters _ (by omega),
      letters _ (by omega), ih⟩

theorem letter_lt (n : Nat) (h : n < 64) : letter n < 128 := by
  have all : ∀ m : Fin 64, letter m.val < 128 := by decide
  exact all ⟨n, h⟩

theorem encode_lt (r : Bytes) : ∀ x ∈ encode r, x < 128 := by
  intro x hx
  rcases mem_encode r x hx with rfl | ⟨n, hn, rfl⟩
  · decide
  · exact letter_lt n hn

end Reclaim.Base64

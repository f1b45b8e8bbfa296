import Mathlib.Logic.Basic
import Reclaim.Text.Lossy

/-!
# Texts and their bytes

* `toByteArray_toList`, `toList_toByteArray`   byte arrays and lists of bytes are the same;
* `text?_utf8`    the bytes of a text are read as that text;
* `utf8_eq`       they are those of its characters, one after the other;
* `utf8_ascii`    the bytes of a text of plain ASCII are its characters;
* `encode_shape`  one to four bytes make a character, by its value; from the second on they are
                  none of plain ASCII, and so is the first of several (`encode_cases`).
-/

namespace Reclaim

theorem toList_loop (b : ByteArray) (i : Nat) (done : Bytes) :
    ByteArray.toList.loop b i done = done.reverse ++ b.data.toList.drop i := by
  fun_induction ByteArray.toList.loop b i done with
  | case1 i done h ih =>
    have hi : i < b.data.toList.length := by
      rw [Array.length_toList]
      exact h
    have hget : b.get! i = b.data.toList[i] := by
      show b.data[i]! = _
      rw [getElem!_pos b.data i h, Array.getElem_toList]
    rw [ih, List.reverse_cons, List.append_assoc, List.drop_eq_getElem_cons hi, hget]
    rfl
  | case2 i done h =>
    have hi : b.data.toList.length ≤ i := by
      rw [Array.length_toList]
      exact Nat.le_of_not_lt h
    rw [List.drop_eq_nil_of_le hi, List.append_nil]

theorem toList_eq (b : ByteArray) : b.toList = b.data.toList := by
  rw [ByteArray.toList, toList_loop, List.reverse_nil, List.nil_append, List.drop_zero]

theorem toByteArray_loop (l : Bytes) (b : ByteArray) :
    (List.toByteArray.loop l b).data = b.data ++ l.toArray := by
  induction l generalizing b with
  | nil =>
    show b.data = b.data ++ #[]
    rw [Array.append_empty]
  | cons x l ih =>
    show (List.toByteArray.loop l (b.push x)).data = _
    rw [ih]
    show b.data.push x ++ l.toArray = _
    apply Array.toList_inj.1
    rw [Array.toList_append, Array.toList_append, Array.toList_push, List.append_assoc]
    rfl

theorem toByteArray_toList (b : ByteArray) : b.toList.toByteArray = b := by
  apply ByteArray.ext
  rw [toList_eq, List.toByteArray, toByteArray_loop]
  show #[] ++ b.data.toList.toArray = b.data
  rw [Array.empty_append]

theorem text?_utf8 (s : String) : Text.text? (utf8 s) = some s := by
  have h : (utf8 s).toByteArray = s.toByteArray := toByteArray_toList s.toUTF8
  rw [Text.text?, h, String.fromUTF8?, dif_pos s.isValidUTF8]
  rfl

theorem toList_toByteArray (l : Bytes) : l.toByteArray.toList = l := by
  rw [toList_eq, List.toByteArray, toByteArray_loop]
  show (#[] ++ l.toArray).toList = l
  rw [Array.empty_append]

/-! ## character after character -/

theorem utf8_ofList (l : List Char) : utf8 (String.ofList l) = l.flatMap String.utf8EncodeChar := by
  rw [utf8, String.toUTF8_eq_toByteArray, String.toByteArray_ofList, List.utf8Encode,
    toList_toByteArray]

theorem utf8_eq (s : String) : utf8 s = s.toList.flatMap String.utf8EncodeChar := by
  rw [← utf8_ofList, String.ofList_toList]

theorem utf8_append (s t : String) : utf8 (s ++ t) = utf8 s ++ utf8 t := by
  rw [utf8_eq, utf8_eq s, utf8_eq t, String.toList_append, List.flatMap_append]

theorem utf8_inj {s t : String} (h : utf8 s = utf8 t) : s = t := by
  have hs := text?_utf8 s
  rw [h, text?_utf8] at hs
  exact (Option.some.inj hs).symm

theorem utf8EncodeChar_ascii (x : UInt8) (h : x < 128) :
    String.utf8EncodeChar (Char.ofUInt8 x) = [x] := by
  have all : ∀ m : Fin 128, String.utf8EncodeChar (Char.ofUInt8 (UInt8.ofNat m.val)) =
      [UInt8.ofNat m.val] := by decide
  have := all ⟨x.toNat, h⟩
  rw [UInt8.ofNat_toNat] at this
  exact this

theorem utf8_ascii (l : Bytes) (h : ∀ x ∈ l, x < 128) :
    utf8 (String.ofList (l.map Char.ofUInt8)) = l := by
  rw [utf8_ofList]
  induction l with
  | nil => rfl
  | cons x l ih =>
    rw [List.map_cons, List.flatMap_cons, utf8EncodeChar_ascii x (h x List.mem_cons_self),
      ih fun y hy => h y (List.mem_cons_of_mem x hy)]
    rfl

/-! ## the bytes of one character -/

/-- the byte that carries the last six bits of `u` -/
def tailByte (u : Nat) : UInt8 := UInt8.ofNat (u % 64 + 128)

theorem tailByte_spec (u : Nat) : 128 ≤ tailByte u ∧ (tailByte u).toNat = u % 64 + 128 := by
  have all : ∀ m : Fin 64, 128 ≤ UInt8.ofNat (m.val + 128) ∧
      (UInt8.ofNat (m.val + 128)).toNat = m.val + 128 := by decide
  exact all ⟨u % 64, Nat.mod_lt u (by decide)⟩

/-- the bytes of a character with value `v` -/
inductive Encodes (v : Nat) : Bytes → Prop where
  | one (hv : v < 128) : Encodes v [UInt8.ofNat v]
  | two (hlo : 128 ≤ v) (hhi : v < 2048) : Encodes v [UInt8.ofNat (v / 64 + 192), tailByte v]
  | three (hlo : 2048 ≤ v) (hhi : v < 65536) (hgap : v < 55296 ∨ 57344 ≤ v) :
      Encodes v [UInt8.ofNat (v / 4096 + 224), tailByte (v / 64), tailByte v]
  | four (hlo : 65536 ≤ v) (hhi : v < 1114112) :
      Encodes v [UInt8.ofNat (v / 262144 + 240), tailByte (v / 4096), tailByte (v / 64), tailByte v]

theorem encodes (c : Char) : Encodes c.toNat (String.utf8EncodeChar c) := by
  have hvalid : c.val.toNat < 55296 ∨ 57343 < c.val.toNat ∧ c.val.toNat < 1114112 := c.valid
  show Encodes c.val.toNat _
  rw [String.utf8EncodeChar]
  by_cases h1 : c.val.toNat ≤ 127
  · rw [if_pos h1]
    exact .one (by omega)
  · rw [if_neg h1]
    by_cases h2 : c.val.toNat ≤ 2047
    · rw [if_pos h2, Nat.mod_eq_of_lt (show c.val.toNat / 64 < 32 by omega)]
      exact .two (by omega) (by omega)
    · rw [if_neg h2]
      by_cases h3 : c.val.toNat ≤ 65535
      · rw [if_pos h3, Nat.mod_eq_of_lt (show c.val.toNat / 4096 < 16 by omega)]
        exact .three (by omega) (by omega) (by omega)
      · rw [if_neg h3, Nat.mod_eq_of_lt (show c.val.toNat / 262144 < 8 by omega)]
        exact .four (by omega) (by omega)

/-- no byte of a character beyond plain ASCII is plain ASCII -/
theorem Encodes.high {v : Nat} {b : Bytes} (h : Encodes v b) (hv : 128 ≤ v) : ∀ y ∈ b, 128 ≤ y := by
  have lead : ∀ n, 128 ≤ n → n < 256 → 128 ≤ UInt8.ofNat n := fun n hlo hhi => by
    rw [UInt8.le_iff_toNat_le, UInt8.toNat_ofNat_of_lt' hhi]
    exact hlo
  cases h with
  | one hlo => omega
  | two hlo hhi =>
    rw [List.forall_mem_cons, List.forall_mem_singleton]
    exact ⟨lead _ (by omega) (by omega), (tailByte_spec v).1⟩
  | three hlo hhi =>
    rw [List.forall_mem_cons, List.forall_mem_cons, List.forall_mem_singleton]
    exact ⟨lead _ (by omega) (by omega), (tailByte_spec _).1, (tailByte_spec v).1⟩
  | four hlo hhi =>
    rw [List.forall_mem_cons, List.forall_mem_cons, List.forall_mem_cons, List.forall_mem_singleton]
    exact ⟨lead _ (by omega) (by omega), (tailByte_spec _).1, (tailByte_spec _).1,
      (tailByte_spec v).1⟩

/-- a character is plain ASCII, or none of its bytes is -/
theorem encode_cases (c : Char) :
    (∃ x < 128, c = Char.ofUInt8 x) ∨ ∀ y ∈ String.utf8EncodeChar c, 128 ≤ y := by
  by_cases hc : c.toNat < 128
  · refine .inl ⟨UInt8.ofNat c.toNat, ?_, ?_⟩
    · rw [UInt8.lt_iff_toNat_lt, UInt8.toNat_ofNat_of_lt' (Nat.lt_trans hc (by decide))]
      exact hc
    · apply Char.ext
      apply UInt32.toNat_inj.1
      show c.toNat = (UInt8.ofNat c.toNat).toUInt32.toNat
      rw [UInt8.toNat_toUInt32, UInt8.toNat_ofNat_of_lt' (Nat.lt_trans hc (by decide))]
  · exact .inr ((encodes c).high (Nat.le_of_not_lt hc))

theorem encode_ne_nil (c : Char) : String.utf8EncodeChar c ≠ [] := by
  have h := encodes c
  intro e
  rw [e] at h
  cases h

/-- a byte of plain ASCII stands for its character alone -/
theorem mem_utf8_iff {x : UInt8} (hx : x < 128) {l : List Char} :
    x ∈ l.flatMap String.utf8EncodeChar ↔ Char.ofUInt8 x ∈ l := by
  rw [List.mem_flatMap]
  constructor
  · rintro ⟨c, hc, hmem⟩
    rcases encode_cases c with ⟨y, hy, rfl⟩ | hhigh
    · rw [utf8EncodeChar_ascii y hy, List.mem_singleton] at hmem
      rwa [hmem]
    · exact absurd hx (UInt8.not_lt.2 (hhigh x hmem))
  · intro hc
    refine ⟨_, hc, ?_⟩
    rw [utf8EncodeChar_ascii x hx]
    exact List.mem_singleton_self x

/-- and so it does in front of a text -/
theorem cons_of_utf8 {x : UInt8} (hx : x < 128) {r : Bytes} {l : List Char}
    (h : l.flatMap String.utf8EncodeChar = x :: r) :
    ∃ m, l = Char.ofUInt8 x :: m ∧ m.flatMap String.utf8EncodeChar = r := by
  cases l with
  | nil => cases h
  | cons c m =>
    rw [List.flatMap_cons] at h
    rcases encode_cases c with ⟨y, hy, rfl⟩ | hhigh
    · rw [utf8EncodeChar_ascii y hy] at h
      obtain ⟨rfl, hm⟩ := List.cons.inj h
      exact ⟨m, rfl, hm⟩
    · obtain ⟨y, t, ht⟩ := List.exists_cons_of_ne_nil (encode_ne_nil c)
      rw [ht] at h hhigh
      obtain ⟨rfl, -⟩ := List.cons.inj h
      exact absurd hx (UInt8.not_lt.2 (hhigh y List.mem_cons_self))

end Reclaim

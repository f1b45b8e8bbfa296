import Mathlib.Data.List.Basic
import Reclaim.Cipher.MasterKey

/-!
# Encryption by a key stream

* `take_stream`   a shorter piece of the stream is the front of a longer one;
* `crypt_crypt`   encryption undoes itself;
* `take_crypt`    the front of an encrypted text is the encrypted front.

The same is said of piece keys (`PieceKey.length_crypt` and the others), one of which leaves its
texts as they are.
-/

namespace Reclaim

namespace XChaCha

variable (key nonce : Bytes)

theorem length_blocks (inner nonce : Bytes) (k : Nat) :
    ((List.range k).flatMap (block inner nonce)).length = k * 64 := by
  induction k with
  | zero => rfl
  | succ k ih =>
    rw [List.range_succ, List.flatMap_append, List.length_append, ih, List.flatMap_singleton,
      length_block, Nat.succ_mul]

theorem blocks_prefix (inner nonce : Bytes) {j k : Nat} (h : j ≤ k) :
    (List.range j).flatMap (block inner nonce) <+: (List.range k).flatMap (block inner nonce) := by
  obtain ⟨d, rfl⟩ := Nat.exists_eq_add_of_le h
  rw [List.range_add, List.flatMap_append]
  exact List.prefix_append _ _

theorem length_stream (n : Nat) : (stream key nonce n).length = n := by
  rw [stream, List.length_take, length_blocks]
  omega

theorem take_stream {m n : Nat} (h : m ≤ n) :
    (stream key nonce n).take m = stream key nonce m := by
  obtain ⟨rest, e⟩ := blocks_prefix (innerKey key nonce) nonce
    (Nat.succ_le_succ (Nat.div_le_div_right h) : m / 64 + 1 ≤ n / 64 + 1)
  have hm : m ≤ ((List.range (m / 64 + 1)).flatMap (block (innerKey key nonce) nonce)).length := by
    rw [length_blocks]
    omega
  rw [stream, stream, List.take_take, Nat.min_eq_left h, ← e, List.take_append_of_le_length hm]

/-! ## a text and the stream -/

theorem length_crypt (buf : Bytes) : (crypt key nonce buf).length = buf.length := by
  rw [crypt, List.length_zipWith, length_stream, Nat.min_self]

theorem zipWith_xor_twice (a k : Bytes) (h : a.length ≤ k.length) :
    List.zipWith (· ^^^ ·) (List.zipWith (· ^^^ ·) a k) k = a := by
  induction a generalizing k with
  | nil => rfl
  | cons x a ih =>
    cases k with
    | nil => exact absurd h (Nat.not_succ_le_zero _)
    | cons y k =>
      rw [List.zipWith_cons_cons, List.zipWith_cons_cons, ih k (Nat.le_of_succ_le_succ h),
        UInt8.xor_assoc, UInt8.xor_self, UInt8.xor_zero]

theorem crypt_crypt (buf : Bytes) : crypt key nonce (crypt key nonce buf) = buf := by
  have hl := length_crypt key nonce buf
  have e : crypt key nonce (crypt key nonce buf)
      = List.zipWith (· ^^^ ·) (crypt key nonce buf) (stream key nonce buf.length) := by
    rw [crypt, hl]
  rw [e, crypt]
  exact zipWith_xor_twice _ _ (Nat.le_of_eq (length_stream ..).symm)

theorem take_crypt (n : Nat) (buf : Bytes) :
    (crypt key nonce buf).take n = crypt key nonce (buf.take n) := by
  rw [crypt, crypt, List.take_zipWith, List.length_take]
  rcases Nat.le_total n buf.length with h | h
  · rw [take_stream key nonce h, Nat.min_eq_left h]
  · have hs : (stream key nonce buf.length).length ≤ n := by
      rw [length_stream]
      exact h
    rw [List.take_of_length_le hs, Nat.min_eq_right h]

end XChaCha

namespace PieceKey

variable (k : PieceKey)

theorem length_crypt (buf : Bytes) : (k.crypt buf).length = buf.length := by
  cases k with
  | plaintext => rfl
  | xchacha20 key nonce => exact XChaCha.length_crypt key nonce buf

theorem crypt_crypt (buf : Bytes) : k.crypt (k.crypt buf) = buf := by
  cases k with
  | plaintext => rfl
  | xchacha20 key nonce => exact XChaCha.crypt_crypt key nonce buf

theorem take_crypt (n : Nat) (buf : Bytes) : (k.crypt buf).take n = k.crypt (buf.take n) := by
  cases k with
  | plaintext => rfl
  | xchacha20 key nonce => exact XChaCha.take_crypt key nonce n buf

end PieceKey

end Reclaim

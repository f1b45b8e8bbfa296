import Reclaim.Cipher.Cursor
import Reclaim.Proofs.Bytes
import Reclaim.Proofs.Cipher.Stream
import Reclaim.Recovery.Recover

/-!
# Encryption block by block

* `step_next`, `run_segments`   a block, and one block after the other, are the text and its part of
                        the key stream combined;
* `mask?_start`         so a text for which there are numbers comes to what the stream as a whole
                        makes of it;
* `mask?_start_refused`   and any other is refused;
* `piece_crypt_laws`    encryption undoes itself, keeps lengths and commutes with cutting.
-/

namespace Reclaim

namespace XChaCha

variable (key nonce inner : Bytes)

/-- how many blocks a text of `n` bytes uses, a last one of which only a part is used included -/
def blocksFor (n : Nat) : Nat := (n + 63) / 64

theorem length_parts (buf : Bytes) : (Bytes.segments 64 buf).length = blocksFor buf.length :=
  Bytes.length_segments 64 (by decide) buf

theorem blocksFor_le {m n : Nat} (h : m ≤ n) : blocksFor m ≤ blocksFor n :=
  Nat.div_le_div_right (Nat.add_le_add_right h 63)

theorem zipWith_block (buf rest : Bytes) (i : Nat) :
    List.zipWith (· ^^^ ·) buf (block inner nonce i ++ rest) =
      List.zipWith (· ^^^ ·) (buf.take 64) (block inner nonce i)
        ++ List.zipWith (· ^^^ ·) (buf.drop 64) rest := by
  have hl := length_block inner nonce i
  rw [← List.take_append_drop 64 (List.zipWith (· ^^^ ·) buf (block inner nonce i ++ rest)),
    List.take_zipWith, List.drop_zipWith, List.take_left' hl, List.drop_left' hl]

namespace Cursor

theorem step_next {i : Nat} (h : i + 1 < UInt32.size) (part : Bytes) :
    step ⟨inner, nonce, UInt32.ofNat i⟩ part =
      (List.zipWith (· ^^^ ·) part (block inner nonce i),
        ⟨inner, nonce, UInt32.ofNat (i + 1)⟩) := by
  have hi : (UInt32.ofNat i).toNat = i := UInt32.toNat_ofNat_of_lt' (Nat.lt_of_succ_lt h)
  rw [step, hi, UInt32.ofNat_add]
  rfl

/-- from number `i` on, one block after the other -/
theorem run_segments (buf : Bytes) (i : Nat) (h : i + blocksFor buf.length < UInt32.size) :
    run ⟨inner, nonce, UInt32.ofNat i⟩ (Bytes.segments 64 buf) =
      List.zipWith (· ^^^ ·) buf
        ((List.range' i (blocksFor buf.length)).flatMap (block inner nonce)) := by
  -- on the length of what is left of the text, which every block makes shorter
  induction hn : buf.length using Nat.strongRecOn generalizing buf i with
  | ind n ih =>
    subst hn
    by_cases hbuf : buf = []
    · rw [hbuf, Bytes.segments_nil]
      rfl
    · have hpos := List.length_pos_iff.2 hbuf
      have hblocks : blocksFor buf.length = blocksFor (buf.drop 64).length + 1 := by
        rw [blocksFor, blocksFor, List.length_drop]
        omega
      rw [hblocks] at h ⊢
      rw [Bytes.segments_cons 64 buf hbuf (by decide), run, step_next nonce inner (by omega),
        ih (buf.drop 64).length (by rw [List.length_drop]; omega) (buf.drop 64) (i + 1) (by omega)
          rfl, List.range'_succ, List.flatMap_cons, zipWith_block]

end Cursor

theorem zipWith_blocks (buf : Bytes) :
    List.zipWith (· ^^^ ·) buf
        ((List.range (blocksFor buf.length)).flatMap (block (innerKey key nonce) nonce)) =
      crypt key nonce buf := by
  have hle : blocksFor buf.length ≤ buf.length / 64 + 1 := by
    rw [blocksFor]
    omega
  have henough : buf.length ≤
      ((List.range (blocksFor buf.length)).flatMap (block (innerKey key nonce) nonce)).length := by
    rw [length_blocks, blocksFor]
    omega
  obtain ⟨rest, e⟩ := blocks_prefix (innerKey key nonce) nonce hle
  have htake : stream key nonce buf.length =
      ((List.range (blocksFor buf.length)).flatMap (block (innerKey key nonce) nonce)).take
        buf.length := by
    rw [stream, ← e, List.take_append_of_le_length henough]
  have hlen : (List.zipWith (· ^^^ ·) buf ((List.range (blocksFor buf.length)).flatMap
      (block (innerKey key nonce) nonce))).length ≤ buf.length := by
    rw [List.length_zipWith]
    exact Nat.min_le_left _ _
  rw [crypt, htake, ← List.take_of_length_le hlen, List.take_zipWith, List.take_length]

theorem left_start : (Cursor.start key nonce).left = 4294967295 := Nat.sub_zero _

theorem mask?_start {buf : Bytes} (h : blocksFor buf.length < UInt32.size) :
    (Cursor.start key nonce).mask? buf = some (crypt key nonce buf) := by
  have hzero : Cursor.start key nonce = ⟨innerKey key nonce, nonce, UInt32.ofNat 0⟩ := rfl
  have hleft : blocksFor buf.length ≤ (Cursor.start key nonce).left := by
    rw [left_start]
    exact Nat.le_of_lt_succ h
  rw [Cursor.mask?, length_parts, if_pos hleft, hzero,
    Cursor.run_segments nonce _ buf 0 (by rwa [Nat.zero_add]), ← List.range_eq_range',
    zipWith_blocks]

theorem mask?_start_refused {buf : Bytes} (h : UInt32.size ≤ blocksFor buf.length) :
    (Cursor.start key nonce).mask? buf = none := by
  have hleft : ¬ blocksFor buf.length ≤ (Cursor.start key nonce).left := by
    rw [left_start]
    exact Nat.not_le_of_lt h
  rw [Cursor.mask?, length_parts, if_neg hleft]

end XChaCha

/-! ## pieces -/

section
variable (k : PieceKey) {buf : Bytes}

theorem PieceKey.mask?_eq (h : XChaCha.blocksFor buf.length < UInt32.size) :
    k.mask? buf = some (k.crypt buf) := by
  cases k with
  | plaintext => rfl
  | xchacha20 key nonce => exact XChaCha.mask?_start key nonce h

end

/-- Encryption undoes itself and keeps the length of a text, and the front of a text is encrypted to
the front of what the whole is encrypted to; so the piece that is taken out of a sector by cutting
and decrypting is the front of the decrypted sector.  A text of fewer than 2^32 blocks is not
refused, and goes through block by block as the stream as a whole would have it. -/
theorem MasterKey.piece_crypt_laws (k : MasterKey) (chunk piece : Nat) (buf : Bytes) :
    (k.derive chunk piece).crypt ((k.derive chunk piece).crypt buf) = buf ∧
      ((k.derive chunk piece).crypt buf).length = buf.length ∧
      (∀ n, ((k.derive chunk piece).crypt buf).take n = (k.derive chunk piece).crypt (buf.take n)) ∧
      (∀ (d : Descriptor) (coder : Coder),
        (⟨d, coder, k⟩ : Recovery.Target).piece chunk piece buf =
          ((k.derive chunk piece).crypt buf).take d.pieceSize.toNat) ∧
      (XChaCha.blocksFor buf.length < UInt32.size →
        (k.derive chunk piece).mask? buf = some ((k.derive chunk piece).crypt buf) ∧
          (k.derive chunk piece).mask? ((k.derive chunk piece).crypt buf) = some buf ∧
          ∀ n, (k.derive chunk piece).mask? (buf.take n) =
            some (((k.derive chunk piece).crypt buf).take n)) := by
  generalize hkey : k.derive chunk piece = key
  have htake : ∀ n, (key.crypt buf).take n = key.crypt (buf.take n) := fun n => key.take_crypt n buf
  refine ⟨key.crypt_crypt buf, key.length_crypt buf, htake, fun d coder => ?_, fun h => ?_⟩
  · rw [htake, ← hkey]
    rfl
  · refine ⟨key.mask?_eq h, ?_, fun n => ?_⟩
    · rw [key.mask?_eq (by rwa [key.length_crypt]), key.crypt_crypt]
    · have hn : (buf.take n).length ≤ buf.length := by
        rw [List.length_take]
        exact Nat.min_le_right _ _
      rw [key.mask?_eq (Nat.lt_of_le_of_lt (XChaCha.blocksFor_le hn) h), htake]

/-- a master key of one byte over and over -/
def MasterKey.sevens : MasterKey := .xchacha20 (List.replicate 56 7) rfl

theorem MasterKey.piece_crypt_laws_ragged :
    XChaCha.blocksFor 65 < UInt32.size ∧
      ((sevens.derive 3 1).crypt (List.replicate 65 42)).drop 64 ≠ [42] ∧
      (sevens.derive 3 1).mask? ((sevens.derive 3 1).crypt (List.replicate 65 42)) =
        some (List.replicate 65 42) := by
  have hfew : XChaCha.blocksFor (List.replicate 65 (42 : UInt8)).length < UInt32.size := by decide
  have hdiffers : ((sevens.derive 3 1).crypt (List.replicate 65 42)).drop 64 ≠ [42] := by
    decide +kernel
  obtain ⟨-, -, -, -, hlaws⟩ := piece_crypt_laws sevens 3 1 (List.replicate 65 42)
  exact ⟨hfew, hdiffers, (hlaws hfew).2.1⟩

end Reclaim

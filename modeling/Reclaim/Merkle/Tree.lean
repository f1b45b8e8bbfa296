import Reclaim.Key

/-!
# Hash trees

A tree over `n` leaves has at its left as many of them as the largest power of two below `n`, so
that every left half is a full tree.

A leaf is hashed behind a zero byte and a pair of hashes behind a one byte, so that no leaf passes
for a pair.  `treeHash` is the tree over a list of leaf hashes, for an arbitrary hash function on
byte strings.
-/

namespace Reclaim

/-- the largest power of two below `n`, for `n` above one -/
def leftSize (n : Nat) : Nat := 1 <<< (n - 1).log2

theorem leftSize_pos (n : Nat) : 0 < leftSize n := by
  rw [leftSize, Nat.one_shiftLeft]
  exact Nat.two_pow_pos _

theorem leftSize_lt (n : Nat) (h : 1 < n) : leftSize n < n := by
  have h1 : 2 ^ (n - 1).log2 ≤ n - 1 := Nat.log2_self_le (by omega)
  rw [leftSize, Nat.one_shiftLeft]
  omega

namespace Merkle

section
variable (hash : Bytes → Hash256)

def leafMessage (leaf : Bytes) : Bytes := 0 :: leaf

def nodeMessage (l r : Hash256) : Bytes := 1 :: (l.bytes ++ r.bytes)

def leafHash (leaf : Bytes) : Hash256 := hash (leafMessage leaf)

def nodeHash (l r : Hash256) : Hash256 := hash (nodeMessage l r)

/-- the tree over a list of leaf hashes; nothing at all hashes to zero -/
def treeHash : List Hash256 → Hash256
  | [] => Hash256.zero
  | [h] => h
  | a :: b :: r =>
    let k := leftSize (r.length + 2)
    nodeHash hash (treeHash ((a :: b :: r).take k)) (treeHash ((a :: b :: r).drop k))
termination_by l => l.length
decreasing_by
  · have := leftSize_lt (r.length + 2) (by omega)
    rw [List.length_take, List.length_cons, List.length_cons]
    omega
  · have := leftSize_pos (r.length + 2)
    rw [List.length_drop, List.length_cons, List.length_cons]
    omega

end

end Merkle

end Reclaim

import Mathlib.Algebra.Group.Nat.Defs
import Reclaim.Merkle.Frontier

/-!
# A frontier holds the tree of its leaves

The roots of a frontier belong to consecutive blocks of leaves, each block a power of two long and
longer than all blocks behind it.  This is kept by a carry, and it is what makes folding the roots
from right to left the same as splitting the leaves from left to right.

* `treeHash_append`       a full block in front of at most as many leaves is the left half;
* `Covers`                the blocks of leaves that the roots of a frontier belong to;
* `covers_carry`          a carry adds a block;
* `foldl_covers`          the fold over the roots is the tree over all leaves;
* `root_eq_treeHash`      the root after any pushes, and of any byte string.
-/

namespace Reclaim.Merkle

/-! ## the left half -/

theorem leftSize_eq {k n : Nat} (hlt : 2 ^ k < n) (hle : n ≤ 2 * 2 ^ k) : leftSize n = 2 ^ k := by
  have hlog : (n - 1).log2 = k := by
    rw [Nat.log2_eq_iff (by omega), Nat.pow_succ]
    omega
  rw [leftSize, Nat.one_shiftLeft, hlog]

section
variable (hash : Bytes → Hash256)

theorem treeHash_nil : treeHash hash [] = Hash256.zero := by
  rw [treeHash]

theorem treeHash_singleton (h : Hash256) : treeHash hash [h] = h := by
  rw [treeHash]

theorem treeHash_split {k : Nat} {l : List Hash256} (hlt : 2 ^ k < l.length)
    (hle : l.length ≤ 2 * 2 ^ k) :
    treeHash hash l =
      nodeHash hash (treeHash hash (l.take (2 ^ k))) (treeHash hash (l.drop (2 ^ k))) := by
  have hpos := Nat.two_pow_pos k
  match l with
  | [] => exact absurd hlt (Nat.not_lt_zero _)
  | [_] =>
    rw [List.length_singleton] at hlt
    omega
  | a :: b :: r =>
    have hsize : leftSize (r.length + 2) = 2 ^ k := leftSize_eq hlt hle
    rw [treeHash, hsize]

theorem treeHash_append {k : Nat} {block rest : List Hash256} (hblock : block.length = 2 ^ k)
    (hne : rest ≠ []) (hle : rest.length ≤ 2 ^ k) :
    treeHash hash (block ++ rest) = nodeHash hash (treeHash hash block) (treeHash hash rest) := by
  have hpos : 0 < rest.length := List.length_pos_iff.2 hne
  rw [treeHash_split hash (k := k) (by rw [List.length_append]; omega)
    (by rw [List.length_append]; omega), List.take_left' hblock, List.drop_left' hblock]

/-! ## the blocks of a frontier -/

/-- the roots belong to consecutive blocks of the leaves, the last block and its root in front -/
inductive Covers : List (Nat × Hash256) → List Hash256 → Prop where
  | empty : Covers [] []
  | block {roots leaves block} (height : Nat) (before : Covers roots leaves)
      (full : block.length = 2 ^ height) (higher : ∀ t ∈ roots, height < t.1) :
      Covers ((height, treeHash hash block) :: roots) (leaves ++ block)

theorem covers_carry {roots : List (Nat × Hash256)} {leaves : List Hash256}
    (h : Covers hash roots leaves) {height : Nat} {block : List Hash256}
    (full : block.length = 2 ^ height) (higher : ∀ t ∈ roots, height ≤ t.1) :
    Covers hash (Frontier.carry hash height (treeHash hash block) roots) (leaves ++ block) := by
  induction h generalizing height block with
  | empty => exact .block height .empty full fun t ht => absurd ht List.not_mem_nil
  | @block roots leaves left k before fullLeft above ih =>
    rw [Frontier.carry]
    by_cases hk : k = height
    · subst hk
      have hpos := Nat.two_pow_pos k
      have hne : block ≠ [] := by
        rw [← List.length_pos_iff]
        omega
      rw [if_pos rfl, ← treeHash_append hash fullLeft hne (Nat.le_of_eq full), List.append_assoc]
      refine ih ?_ above
      rw [List.length_append, fullLeft, full, Nat.pow_succ]
      omega
    · rw [if_neg hk]
      have hlt : height < k := Nat.lt_of_le_of_ne (higher _ List.mem_cons_self) (Ne.symm hk)
      refine .block height (.block k before fullLeft above) full ?_
      rw [List.forall_mem_cons]
      exact ⟨hlt, fun t ht => Nat.lt_trans hlt (above t ht)⟩

/-- the blocks in front are joined one by one to what is behind them -/
theorem foldl_covers {roots : List (Nat × Hash256)} {leaves : List Hash256}
    (h : Covers hash roots leaves) {rest : List Hash256} (hne : rest ≠ [])
    (hle : ∀ t ∈ roots, rest.length ≤ 2 ^ t.1) :
    roots.foldl (fun acc left => nodeHash hash left.2 acc) (treeHash hash rest) =
      treeHash hash (leaves ++ rest) := by
  induction h generalizing rest with
  | empty => rfl
  | @block roots leaves left k before fullLeft above ih =>
    have hrest : rest.length ≤ 2 ^ k := hle _ List.mem_cons_self
    rw [List.foldl_cons, ← treeHash_append hash fullLeft hne hrest, List.append_assoc]
    refine ih (List.append_ne_nil_of_right_ne_nil left hne) fun t ht => ?_
    calc (left ++ rest).length = 2 ^ k + rest.length := by rw [List.length_append, fullLeft]
      _ ≤ 2 ^ (k + 1) := by
        rw [Nat.pow_succ]
        omega
      _ ≤ 2 ^ t.1 := Nat.pow_le_pow_right (by decide) (above t ht)

theorem root_of_covers {f : Frontier} {leaves : List Hash256} (h : Covers hash f.roots leaves) :
    f.root hash = treeHash hash leaves := by
  obtain ⟨roots⟩ := f
  cases h with
  | empty => exact (treeHash_nil hash).symm
  | @block roots leaves last k before full above =>
    refine foldl_covers hash before ?_ fun t ht => ?_
    · rw [← List.length_pos_iff, full]
      exact Nat.two_pow_pos k
    · rw [full]
      exact Nat.pow_le_pow_right (by decide) (Nat.le_of_lt (above t ht))

/-! ## any sequence of pushes -/

/-- what may be pushed: a leaf, or the hash of one -/
inductive Push where
  | leaf (b : Bytes)
  | hashed (h : Hash256)

def Push.node : Push → Hash256
  | .leaf b => leafHash hash b
  | .hashed h => h

def Frontier.add (f : Frontier) : Push → Frontier
  | .leaf b => f.pushLeaf hash b
  | .hashed h => f.push hash h

theorem Frontier.add_eq_push (f : Frontier) (p : Push) : f.add hash p = f.push hash (p.node hash) := by
  cases p <;> rfl

theorem covers_push {f : Frontier} {leaves : List Hash256} (h : Covers hash f.roots leaves)
    (leaf : Hash256) : Covers hash (f.push hash leaf).roots (leaves ++ [leaf]) := by
  have full : [leaf].length = 2 ^ 0 := rfl
  have hcarry := covers_carry hash h full fun t _ => Nat.zero_le _
  rw [treeHash_singleton] at hcarry
  exact hcarry

theorem covers_foldl_push {f : Frontier} {leaves : List Hash256} (h : Covers hash f.roots leaves)
    (more : List Hash256) :
    Covers hash (more.foldl (Frontier.push hash) f).roots (leaves ++ more) := by
  induction more generalizing f leaves with
  | nil => rwa [List.append_nil]
  | cons leaf more ih =>
    have := ih (covers_push hash h leaf)
    rwa [List.append_assoc] at this

theorem root_foldl_push (leaves : List Hash256) :
    (leaves.foldl (Frontier.push hash) Frontier.empty).root hash = treeHash hash leaves :=
  root_of_covers hash (covers_foldl_push hash (f := Frontier.empty) .empty leaves)

theorem foldl_add (pushes : List Push) (f : Frontier) :
    pushes.foldl (Frontier.add hash) f =
      (pushes.map (Push.node hash)).foldl (Frontier.push hash) f := by
  rw [List.foldl_map]
  congr 1
  funext f p
  exact Frontier.add_eq_push hash f p

theorem rootOf_eq_treeHash (data : Bytes) :
    rootOf hash data = treeHash hash ((Bytes.segments leafSize data).map (leafHash hash)) := by
  rw [rootOf, ← root_foldl_push]
  split
  · rfl
  · rw [List.foldl_map]
    rfl

end

/-- The root after any pushes is the tree over what was pushed, and the root of a byte string is the
tree over its leaves, however many there are.  The tree over one hash is that hash; over more, its
left half is the largest power of two below their number. -/
theorem root_eq_treeHash :
    (∀ hash, treeHash hash [] = Hash256.zero ∧ (∀ h, treeHash hash [h] = h) ∧
      ∀ l k, 2 ^ k < l.length → l.length ≤ 2 * 2 ^ k → treeHash hash l =
        nodeHash hash (treeHash hash (l.take (2 ^ k))) (treeHash hash (l.drop (2 ^ k)))) ∧
    (∀ hash (pushes : List Push) n,
      ((pushes.take n).foldl (Frontier.add hash) Frontier.empty).root hash =
        treeHash hash ((pushes.take n).map (Push.node hash))) ∧
    (∀ hash data, rootOf hash data =
      treeHash hash ((Bytes.segments 64 data).map (leafHash hash))) ∧
    ∀ data, sectorRoot data =
      treeHash Blake2b.hash ((Bytes.segments 64 data).map (leafHash Blake2b.hash)) := by
  refine ⟨fun hash => ⟨treeHash_nil hash, treeHash_singleton hash, fun l k => treeHash_split hash⟩,
    fun hash pushes n => ?_, rootOf_eq_treeHash, rootOf_eq_treeHash Blake2b.hash⟩
  rw [foldl_add, root_foldl_push]

theorem root_eq_treeHash_three :
    2 ^ 1 < [Hash256.zero, Hash256.ofBytes [1], Hash256.ofBytes [2]].length ∧
      [Hash256.zero, Hash256.ofBytes [1], Hash256.ofBytes [2]].length ≤ 2 * 2 ^ 1 ∧
      treeHash Blake2b.hash [Hash256.zero, Hash256.ofBytes [1], Hash256.ofBytes [2]] =
        nodeHash Blake2b.hash (treeHash Blake2b.hash [Hash256.zero, Hash256.ofBytes [1]])
          (treeHash Blake2b.hash [Hash256.ofBytes [2]]) :=
  ⟨by decide, by decide, (root_eq_treeHash.1 Blake2b.hash).2.2 _ 1 (by decide) (by decide)⟩

end Reclaim.Merkle

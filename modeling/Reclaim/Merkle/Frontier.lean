import Reclaim.Hash.Blake2b
import Reclaim.Merkle.Tree

/-!
# Hash trees leaf by leaf

A `Frontier` holds the roots of the full subtrees seen so far, the latest and lowest first.  A new
leaf joins equal heights like a carry; the root folds what is left over from right to left.

* `Frontier.push`, `Frontier.root` the two operations, for any hash function;
* `sectorRoot` the root of a byte string cut into leaves of 64 bytes, with the hash of the format.
-/

namespace Reclaim.Merkle

/-- the roots of the full subtrees seen so far with their heights, the latest first -/
structure Frontier where
  roots : List (Nat × Hash256)

namespace Frontier

def empty : Frontier := ⟨[]⟩

section
variable (hash : Bytes → Hash256)

/-- put a subtree in front, joining it with every subtree of the same height -/
def carry (height : Nat) (node : Hash256) : List (Nat × Hash256) → List (Nat × Hash256)
  | [] => [(height, node)]
  | (k, left) :: r =>
    if k = height then carry (height + 1) (nodeHash hash left node) r
    else (height, node) :: (k, left) :: r

/-- add a leaf that is hashed already -/
def push (f : Frontier) (leaf : Hash256) : Frontier := ⟨carry hash 0 leaf f.roots⟩

def pushLeaf (f : Frontier) (leaf : Bytes) : Frontier := f.push hash (leafHash hash leaf)

/-- the root of all leaves so far; zero when there are none -/
def root (f : Frontier) : Hash256 :=
  match f.roots with
  | [] => Hash256.zero
  | (_, last) :: r => r.foldl (fun acc left => nodeHash hash left.2 acc) last

end

end Frontier

def leafSize : Nat := 64

/-- from this many leaves on, all leaves are hashed before the first is added -/
def batchLeaves : Nat := 1024

/-- the root over the consecutive leaves of a byte string; a short last leaf is hashed as it is -/
def rootOf (hash : Bytes → Hash256) (data : Bytes) : Hash256 :=
  let leaves := Bytes.segments leafSize data
  if batchLeaves * leafSize ≤ data.length then
    ((leaves.map (leafHash hash)).foldl (Frontier.push hash) Frontier.empty).root hash
  else (leaves.foldl (Frontier.pushLeaf hash) Frontier.empty).root hash

end Reclaim.Merkle

namespace Reclaim

/-- the root that names a sector -/
def sectorRoot (data : Bytes) : Hash256 := Merkle.rootOf Blake2b.hash data

end Reclaim

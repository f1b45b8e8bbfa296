import Reclaim.Bytes
import Reclaim.Erasure.Field

/-!
# Shards as values of a polynomial

The shards of a codeword are the values, byte by byte, of one polynomial at the places 0, 1, 2 …;
`k` of them fix a polynomial of degree below `k`, and with it all the others.

* `weight nodes i x` the value at `x` of the polynomial that is one at `i` and zero at the other
                     nodes;
* `combine w row shards` the shard that is the weighted sum of the given ones.
-/

namespace Reclaim.Erasure

open Field256

/-- the value at `x` of the polynomial of least degree that is one at `i` and zero at the other
nodes -/
def weight (nodes : List UInt8) (i x : UInt8) : UInt8 :=
  let others := nodes.filter (· != i)
  mul (product (others.map (x ^^^ ·))) (inv (product (others.map (i ^^^ ·))))

/-- the weights that the shards at `nodes` have in the shard at `x` -/
def weights (nodes : List UInt8) (x : UInt8) : List UInt8 := nodes.map fun i => weight nodes i x

/-- a shard with every byte multiplied by `c` -/
def scale (c : UInt8) (shard : Bytes) : Bytes := shard.map (mul c)

def sum (a b : Bytes) : Bytes := List.zipWith (· ^^^ ·) a b

/-- the weighted sum of shards of `width` bytes -/
def combine (width : Nat) (row : List UInt8) (shards : List Bytes) : Bytes :=
  (row.zip shards).foldl (fun acc t => sum acc (scale t.1 t.2)) (List.replicate width 0)

def place (i : Nat) : UInt8 := UInt8.ofNat i

/-! ## adding parity -/

/-- the weights of the data shards in each parity shard -/
def parityRows (data parity : Nat) : List (List UInt8) :=
  (List.range parity).map fun j => weights ((List.range data).map place) (place (data + j))

/-- data shards followed by their parity shards -/
def extend (rows : List (List UInt8)) (width : Nat) (shards : List Bytes) : List Bytes :=
  shards ++ rows.map fun row => combine width row shards

/-! ## filling gaps -/

/-- the first `data` places that hold a shard -/
def sources (data : Nat) (present : List Bool) : List Nat :=
  ((List.range present.length).filter fun i => present.getD i false).take data

/-- for every data place the weights of the source shards, or nothing where the shard is there -/
def repairRows (data : Nat) (present : List Bool) : List (Option (List UInt8)) :=
  let nodes := (sources data present).map place
  (List.range data).map fun i =>
    if present.getD i false then none else some (weights nodes (place i))

/-- the data shards: those that are there, and the others from the source shards -/
def repair (rows : List (Option (List UInt8))) (width : Nat) (slots : List (Option Bytes)) :
    List Bytes :=
  let known := (slots.filterMap id).take rows.length
  (rows.zip slots).map fun t =>
    match t.2 with
    | some b => b
    | none => combine width (t.1.getD []) known

end Reclaim.Erasure

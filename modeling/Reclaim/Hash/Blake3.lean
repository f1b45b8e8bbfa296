import Reclaim.Merkle.Tree

/-!
# BLAKE3

The hash behind host identities, contract names and file digests.  A message is cut into chunks of
1024 bytes of 64-byte blocks; the chunks are the leaves of a binary tree whose left halves are as
large a power of two as fits.  The topmost node can be asked for any number of output bytes.
-/

namespace Reclaim.Blake3

def rotr (x : UInt32) (n : UInt32) : UInt32 := (x >>> n) ||| (x <<< (32 - n))

/-- a column (or diagonal) of the square -/
structure Column where
  a : UInt32
  b : UInt32
  c : UInt32
  d : UInt32

/-- stir two message words into a column -/
def Column.mix (q : Column) (x y : UInt32) : Column :=
  let a := q.a + q.b + x
  let d := rotr (q.d ^^^ a) 16
  let c := q.c + d
  let b := rotr (q.b ^^^ c) 12
  let a := a + b + y
  let d := rotr (d ^^^ a) 8
  let c := c + d
  let b := rotr (b ^^^ c) 7
  ⟨a, b, c, d⟩

structure Square where
  q0 : Column
  q1 : Column
  q2 : Column
  q3 : Column

/-- columns become diagonals: row `i` moves `i` places to the left -/
def Square.slant (s : Square) : Square :=
  ⟨⟨s.q0.a, s.q1.b, s.q2.c, s.q3.d⟩, ⟨s.q1.a, s.q2.b, s.q3.c, s.q0.d⟩,
   ⟨s.q2.a, s.q3.b, s.q0.c, s.q1.d⟩, ⟨s.q3.a, s.q0.b, s.q1.c, s.q2.d⟩⟩

/-- diagonals become columns again -/
def Square.straighten (s : Square) : Square :=
  ⟨⟨s.q0.a, s.q3.b, s.q2.c, s.q1.d⟩, ⟨s.q1.a, s.q0.b, s.q3.c, s.q2.d⟩,
   ⟨s.q2.a, s.q1.b, s.q0.c, s.q3.d⟩, ⟨s.q3.a, s.q2.b, s.q1.c, s.q0.d⟩⟩

/-- one round, the message words taken in their present order -/
def Square.round (s : Square) (m : Array UInt32) : Square :=
  let w := fun i => m.getD i 0
  let t : Square :=
    ⟨s.q0.mix (w 0) (w 1), s.q1.mix (w 2) (w 3), s.q2.mix (w 4) (w 5), s.q3.mix (w 6) (w 7)⟩
  let t := t.slant
  Square.straighten
    ⟨t.q0.mix (w 8) (w 9), t.q1.mix (w 10) (w 11), t.q2.mix (w 12) (w 13), t.q3.mix (w 14) (w 15)⟩

/-- where each message word of the next round stands in this one -/
def order : Array Nat := #[2, 6, 3, 10, 7, 0, 4, 13, 1, 11, 12, 5, 9, 14, 15, 8]

/-- `n` rounds, the message words changing places between them -/
def rounds : Nat → Square → Array UInt32 → Square
  | 0, s, _ => s
  | n + 1, s, m => rounds n (s.round m) (order.map fun i => m.getD i 0)

structure Chain where
  h0 : UInt32
  h1 : UInt32
  h2 : UInt32
  h3 : UInt32
  h4 : UInt32
  h5 : UInt32
  h6 : UInt32
  h7 : UInt32

def Chain.words (h : Chain) : List UInt32 := [h.h0, h.h1, h.h2, h.h3, h.h4, h.h5, h.h6, h.h7]

/-- the fractional parts of the square roots of the first eight primes -/
def seed : Chain :=
  ⟨0x6a09e667, 0xbb67ae85, 0x3c6ef372, 0xa54ff53a, 0x510e527f, 0x9b05688c, 0x1f83d9ab, 0x5be0cd19⟩

/-! ## roles of a node -/

def chunkStart : UInt32 := 1
def chunkEnd : UInt32 := 2
def parent : UInt32 := 4
def top : UInt32 := 8

/-- everything that decides a node's output -/
structure Node where
  chain : Chain
  message : Array UInt32
  counter : Nat
  length : Nat
  role : UInt32

/-- the square of a node after all rounds; `extra` marks the topmost node, `counter` its output block -/
def Node.stir (n : Node) (counter : Nat) (extra : UInt32) : Square :=
  let h := n.chain
  rounds 7
    ⟨⟨h.h0, h.h4, seed.h0, UInt32.ofNat counter⟩,
     ⟨h.h1, h.h5, seed.h1, UInt32.ofNat (counter / 4294967296)⟩,
     ⟨h.h2, h.h6, seed.h2, UInt32.ofNat n.length⟩, ⟨h.h3, h.h7, seed.h3, n.role ||| extra⟩⟩
    n.message

/-- the chaining words a node hands to the node above it -/
def Node.chaining (n : Node) : Chain :=
  let s := n.stir n.counter 0
  ⟨s.q0.a ^^^ s.q0.c, s.q1.a ^^^ s.q1.c, s.q2.a ^^^ s.q2.c, s.q3.a ^^^ s.q3.c,
   s.q0.b ^^^ s.q0.d, s.q1.b ^^^ s.q1.d, s.q2.b ^^^ s.q2.d, s.q3.b ^^^ s.q3.d⟩

/-- output block `i` of the topmost node: 64 bytes -/
def Node.block (n : Node) (i : Nat) : Bytes :=
  let s := n.stir i top
  let h := n.chain
  [s.q0.a ^^^ s.q0.c, s.q1.a ^^^ s.q1.c, s.q2.a ^^^ s.q2.c, s.q3.a ^^^ s.q3.c,
   s.q0.b ^^^ s.q0.d, s.q1.b ^^^ s.q1.d, s.q2.b ^^^ s.q2.d, s.q3.b ^^^ s.q3.d,
   s.q0.c ^^^ h.h0, s.q1.c ^^^ h.h1, s.q2.c ^^^ h.h2, s.q3.c ^^^ h.h3,
   s.q0.d ^^^ h.h4, s.q1.d ^^^ h.h5, s.q2.d ^^^ h.h6, s.q3.d ^^^ h.h7].flatMap
    fun w => Bytes.le 4 w.toNat

/-- the first `n` output bytes of the topmost node -/
def Node.output (node : Node) (n : Nat) : Bytes :=
  ((List.range (n / 64 + 1)).flatMap node.block).take n

/-! ## the tree -/

/-- the number written by up to four bytes, least significant first -/
def word (b : Bytes) : UInt32 := b.foldr (fun x w => (w <<< 8) ||| x.toUInt32) 0

def blockNode (h : Chain) (block : Bytes) (counter : Nat) (role : UInt32) : Node :=
  ⟨h, ((Bytes.segments 4 (block.fit 64)).map word).toArray, counter, block.length, role⟩

/-- the last block of a chunk as a node, the blocks before it absorbed -/
def chunkBlocks (counter : Nat) (h : Chain) (role : UInt32) : List Bytes → Node
  | [] => blockNode h [] counter (role ||| chunkEnd)
  | [b] => blockNode h b counter (role ||| chunkEnd)
  | b :: r => chunkBlocks counter (blockNode h b counter role).chaining 0 r

/-- chunk number `counter` of a message -/
def chunkNode (counter : Nat) (chunk : Bytes) : Node :=
  chunkBlocks counter seed chunkStart (Bytes.segments 64 chunk)

def parentNode (l r : Chain) : Node :=
  ⟨seed, (l.words ++ r.words).toArray, 0, 64, parent⟩

/-- the node above a run of chunks -/
def treeNode : List Node → Node
  | [] => chunkNode 0 []
  | [n] => n
  | a :: b :: r =>
    let k := leftSize (r.length + 2)
    parentNode (treeNode ((a :: b :: r).take k)).chaining (treeNode ((a :: b :: r).drop k)).chaining
termination_by l => l.length
decreasing_by
  · have := leftSize_lt (r.length + 2) (by omega)
    rw [List.length_take, List.length_cons, List.length_cons]
    omega
  · have := leftSize_pos (r.length + 2)
    rw [List.length_drop, List.length_cons, List.length_cons]
    omega

def output (message : Bytes) (n : Nat) : Bytes :=
  let chunks := Bytes.segments 1024 message
  (treeNode ((chunks.zipIdx).map fun c => chunkNode c.2 c.1)).output n

def hash (message : Bytes) : Hash256 := Hash256.ofBytes (output message 32)

end Reclaim.Blake3

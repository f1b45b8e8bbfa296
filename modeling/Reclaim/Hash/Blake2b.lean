import Reclaim.Key

/-!
# BLAKE2b with 32 bytes of output

The hash of sectors and piece keys.  A message is cut into blocks of 128 bytes; each block stirs a
square of sixteen 64-bit words, kept here as its four columns, through twelve rounds of column and
diagonal mixing.
-/

namespace Reclaim.Blake2b

def rotr (x : UInt64) (n : UInt64) : UInt64 := (x >>> n) ||| (x <<< (64 - n))

/-- a column (or diagonal) of the square -/
structure Column where
  a : UInt64
  b : UInt64
  c : UInt64
  d : UInt64

/-- stir two message words into a column -/
def Column.mix (q : Column) (x y : UInt64) : Column :=
  let a := q.a + q.b + x
  let d := rotr (q.d ^^^ a) 32
  let c := q.c + d
  let b := rotr (q.b ^^^ c) 24
  let a := a + b + y
  let d := rotr (d ^^^ a) 16
  let c := c + d
  let b := rotr (b ^^^ c) 63
  ⟨a, b, c, d⟩

structure Square where
  q0 : Column
  q1 : Column
  q2 : Column
  q3 : Column

/-- columns become diagonals: row `i` moves `i` places to the left -/
def Square.slant (s : Square) : Square :=
  ⟨⟨s.q0.a, s.q1.b, s.q2.c, s.q3.d⟩, ⟨s.q1.a, s.q2.b, s.q3.c, s.q0.d⟩,
   ⟨s.q2.a, s.q3.b, s.q0.c, s.q1.d⟩, ⟨s.q3.a, s.q0.b, s.q1.c, s.q2.d⟩⟩

/-- diagonals become columns again -/
def Square.straighten (s : Square) : Square :=
  ⟨⟨s.q0.a, s.q3.b, s.q2.c, s.q1.d⟩, ⟨s.q1.a, s.q0.b, s.q3.c, s.q2.d⟩,
   ⟨s.q2.a, s.q1.b, s.q0.c, s.q3.d⟩, ⟨s.q3.a, s.q2.b, s.q1.c, s.q0.d⟩⟩

/-- one round: the message words in the order `order`, first along the columns, then along the
diagonals -/
def Square.round (m : Array UInt64) (s : Square) (order : Array Nat) : Square :=
  let w := fun i => m.getD (order.getD i 0) 0
  let t : Square :=
    ⟨s.q0.mix (w 0) (w 1), s.q1.mix (w 2) (w 3), s.q2.mix (w 4) (w 5), s.q3.mix (w 6) (w 7)⟩
  let t := t.slant
  Square.straighten
    ⟨t.q0.mix (w 8) (w 9), t.q1.mix (w 10) (w 11), t.q2.mix (w 12) (w 13), t.q3.mix (w 14) (w 15)⟩

/-- the order of the message words in each round -/
def orders : List (Array Nat) := [
  #[0, 1, 2, 3, 4, 5, 6, 7, 8, 9, 10, 11, 12, 13, 14, 15],
  #[14, 10, 4, 8, 9, 15, 13, 6, 1, 12, 0, 2, 11, 7, 5, 3],
  #[11, 8, 12, 0, 5, 2, 15, 13, 10, 14, 3, 6, 7, 1, 9, 4],
  #[7, 9, 3, 1, 13, 12, 11, 14, 2, 6, 5, 10, 4, 0, 15, 8],
  #[9, 0, 5, 7, 2, 4, 10, 15, 14, 1, 11, 12, 6, 8, 3, 13],
  #[2, 12, 6, 10, 0, 11, 8, 3, 4, 13, 7, 5, 15, 14, 1, 9],
  #[12, 5, 1, 15, 14, 13, 4, 10, 0, 7, 6, 3, 9, 2, 8, 11],
  #[13, 11, 7, 14, 12, 1, 3, 9, 5, 0, 15, 4, 8, 6, 2, 10],
  #[6, 15, 14, 9, 11, 3, 0, 8, 12, 2, 13, 7, 1, 4, 10, 5],
  #[10, 2, 8, 4, 7, 6, 1, 5, 15, 11, 9, 14, 3, 12, 13, 0],
  #[0, 1, 2, 3, 4, 5, 6, 7, 8, 9, 10, 11, 12, 13, 14, 15],
  #[14, 10, 4, 8, 9, 15, 13, 6, 1, 12, 0, 2, 11, 7, 5, 3]]

/-- the eight chaining words, two to a column of the square's upper half -/
structure Chain where
  h0 : UInt64
  h1 : UInt64
  h2 : UInt64
  h3 : UInt64
  h4 : UInt64
  h5 : UInt64
  h6 : UInt64
  h7 : UInt64

/-- the fractional parts of the square roots of the first eight primes -/
def seed : Chain :=
  ⟨0x6a09e667f3bcc908, 0xbb67ae8584caa73b, 0x3c6ef372fe94f82b, 0xa54ff53a5f1d36f1,
   0x510e527fade682d1, 0x9b05688c2b3e6c1f, 0x1f83d9abfb41bd6b, 0x5be0cd19137e2179⟩

/-- the seed marked for 32 bytes of output without a key -/
def start : Chain := { seed with h0 := seed.h0 ^^^ 0x01010020 }

/-- the number written by up to eight bytes, least significant first -/
def word (b : Bytes) : UInt64 := b.foldr (fun x w => (w <<< 8) ||| x.toUInt64) 0

/-- absorb one block, `total` being the count of message bytes up to and with it -/
def absorb (h : Chain) (block : Bytes) (total : Nat) (last : Bool) : Chain :=
  let m := ((Bytes.segments 8 (block.fit 128)).map word).toArray
  let s : Square :=
    ⟨⟨h.h0, h.h4, seed.h0, seed.h4 ^^^ UInt64.ofNat total⟩, ⟨h.h1, h.h5, seed.h1, seed.h5⟩,
     ⟨h.h2, h.h6, seed.h2, if last then ~~~ seed.h6 else seed.h6⟩, ⟨h.h3, h.h7, seed.h3, seed.h7⟩⟩
  let s := orders.foldl (Square.round m) s
  ⟨h.h0 ^^^ s.q0.a ^^^ s.q0.c, h.h1 ^^^ s.q1.a ^^^ s.q1.c, h.h2 ^^^ s.q2.a ^^^ s.q2.c,
   h.h3 ^^^ s.q3.a ^^^ s.q3.c, h.h4 ^^^ s.q0.b ^^^ s.q0.d, h.h5 ^^^ s.q1.b ^^^ s.q1.d,
   h.h6 ^^^ s.q2.b ^^^ s.q2.d, h.h7 ^^^ s.q3.b ^^^ s.q3.d⟩

/-- absorb the blocks of a message in turn; a message without bytes has one empty block -/
def absorbAll (h : Chain) (total : Nat) : List Bytes → Chain
  | [] => absorb h [] total true
  | [b] => absorb h b (total + b.length) true
  | b :: r => absorbAll (absorb h b (total + b.length) false) (total + b.length) r

def hash (message : Bytes) : Hash256 :=
  let h := absorbAll start 0 (Bytes.segments 128 message)
  Hash256.ofBytes ([h.h0, h.h1, h.h2, h.h3].flatMap fun w => Bytes.le 8 w.toNat)

end Reclaim.Blake2b

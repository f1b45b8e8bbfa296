import Reclaim.Bytes

/-!
# The XChaCha20 key stream

A key of 32 bytes and a nonce of 24 bytes give an endless stream of bytes, 64 to a block; block
numbers are 32-bit words.  The first 16 bytes of the nonce are stirred into the key, the other 8
go with every block.

* `stream key nonce n` the first `n` bytes of the stream;
* `crypt key nonce buf` the bytes of `buf` combined with the stream, which both encrypts and
  decrypts.
-/

namespace Reclaim.XChaCha

def rotl (x : UInt32) (n : UInt32) : UInt32 := (x <<< n) ||| (x >>> (32 - n))

/-- a column (or diagonal) of the square of sixteen words -/
structure Column where
  a : UInt32
  b : UInt32
  c : UInt32
  d : UInt32

def Column.mix (q : Column) : Column :=
  let a := q.a + q.b
  let d := rotl (q.d ^^^ a) 16
  let c := q.c + d
  let b := rotl (q.b ^^^ c) 12
  let a := a + b
  let d := rotl (d ^^^ a) 8
  let c := c + d
  let b := rotl (b ^^^ c) 7
  ⟨a, b, c, d⟩

def Column.add (p q : Column) : Column := ⟨p.a + q.a, p.b + q.b, p.c + q.c, p.d + q.d⟩

structure Square where
  q0 : Column
  q1 : Column
  q2 : Column
  q3 : Column

/-- a round along the columns and one along the diagonals -/
def Square.round (s : Square) : Square :=
  let a := s.q0.mix
  let b := s.q1.mix
  let c := s.q2.mix
  let d := s.q3.mix
  let p := Column.mix ⟨a.a, b.b, c.c, d.d⟩
  let q := Column.mix ⟨b.a, c.b, d.c, a.d⟩
  let r := Column.mix ⟨c.a, d.b, a.c, b.d⟩
  let t := Column.mix ⟨d.a, a.b, b.c, c.d⟩
  ⟨⟨p.a, t.b, r.c, q.d⟩, ⟨q.a, p.b, t.c, r.d⟩, ⟨r.a, q.b, p.c, t.d⟩, ⟨t.a, r.b, q.c, p.d⟩⟩

def Square.stir (s : Square) : Square := Nat.repeat Square.round 10 s

/-- the number written by four bytes, least significant first -/
def word (b : Bytes) : UInt32 := b.foldr (fun x w => (w <<< 8) ||| x.toUInt32) 0

def wordAt (b : Bytes) (i : Nat) : UInt32 := word ((b.drop (4 * i)).take 4)

/-- the square of a key and of the sixteen bytes `tail` in its last row -/
def square (key tail : Bytes) : Square :=
  ⟨⟨0x61707865, wordAt key 0, wordAt key 4, wordAt tail 0⟩,
   ⟨0x3320646e, wordAt key 1, wordAt key 5, wordAt tail 1⟩,
   ⟨0x79622d32, wordAt key 2, wordAt key 6, wordAt tail 2⟩,
   ⟨0x6b206574, wordAt key 3, wordAt key 7, wordAt tail 3⟩⟩

/-- words as bytes, each least significant byte first -/
def wordBytes (ws : List UInt32) : Bytes := ws.flatMap fun w => Bytes.le 4 w.toNat

/-- the key with the first sixteen bytes of the nonce stirred in -/
def innerKey (key nonce : Bytes) : Bytes :=
  let s := (square key (nonce.take 16)).stir
  wordBytes [s.q0.a, s.q1.a, s.q2.a, s.q3.a, s.q0.d, s.q1.d, s.q2.d, s.q3.d]

/-- block `i` under an inner key: 64 bytes -/
def block (inner nonce : Bytes) (i : Nat) : Bytes :=
  let s := square inner (Bytes.le 4 i ++ [0, 0, 0, 0] ++ nonce.drop 16)
  let t := s.stir
  let p := s.q0.add t.q0
  let q := s.q1.add t.q1
  let r := s.q2.add t.q2
  let v := s.q3.add t.q3
  wordBytes [p.a, q.a, r.a, v.a, p.b, q.b, r.b, v.b, p.c, q.c, r.c, v.c, p.d, q.d, r.d, v.d]

/-- the first `n` bytes of the key stream -/
def stream (key nonce : Bytes) (n : Nat) : Bytes :=
  let inner := innerKey key nonce
  ((List.range (n / 64 + 1)).flatMap (block inner nonce)).take n

/-- a byte string combined with the key stream -/
def crypt (key nonce buf : Bytes) : Bytes :=
  List.zipWith (· ^^^ ·) buf (stream key nonce buf.length)

theorem length_wordBytes (ws : List UInt32) : (wordBytes ws).length = 4 * ws.length := by
  induction ws with
  | nil => rfl
  | cons w ws ih =>
    have h : wordBytes (w :: ws) = Bytes.le 4 w.toNat ++ wordBytes ws := rfl
    rw [h, List.length_append, ih, Bytes.length_le, List.length_cons]
    omega

theorem length_block (inner nonce : Bytes) (i : Nat) : (block inner nonce i).length = 64 :=
  length_wordBytes _

end Reclaim.XChaCha

import Reclaim.Cipher.MasterKey

/-!
# A cipher at work

A text is combined with the key stream one block after the other, the last block being cut short
where the text ends.  All that goes on from block to block is the number of the next one, a word of
32 bits; a text for which the numbers would run out is refused before anything is done.

* `Cursor.step`     one block of a text;
* `Cursor.run`      one block after the other;
* `Cursor.mask?`, `PieceKey.mask?`   a whole text, if there are numbers enough.
-/

namespace Reclaim

namespace XChaCha

/-- a place in a key stream: `next` is the number of the block that comes next -/
structure Cursor where
  inner : Bytes
  nonce : Bytes
  next : UInt32

namespace Cursor

def start (key nonce : Bytes) : Cursor := ⟨innerKey key nonce, nonce, 0⟩

/-- combine at most 64 bytes with the next block -/
def step (c : Cursor) (part : Bytes) : Bytes × Cursor :=
  (List.zipWith (· ^^^ ·) part (block c.inner c.nonce c.next.toNat), { c with next := c.next + 1 })

def run (c : Cursor) : List Bytes → Bytes
  | [] => []
  | part :: rest => (c.step part).1 ++ run (c.step part).2 rest

/-- how many blocks can still be used; the last number is kept back -/
def left (c : Cursor) : Nat := 4294967295 - c.next.toNat

def mask? (c : Cursor) (buf : Bytes) : Option Bytes :=
  let parts := Bytes.segments 64 buf
  if parts.length ≤ c.left then some (c.run parts) else none

end Cursor

end XChaCha

/-- encrypt or decrypt a text block by block, if the cipher takes texts of its length -/
def PieceKey.mask? (k : PieceKey) (buf : Bytes) : Option Bytes :=
  match k with
  | .plaintext => some buf
  | .xchacha20 key nonce => (XChaCha.Cursor.start key nonce).mask? buf

end Reclaim

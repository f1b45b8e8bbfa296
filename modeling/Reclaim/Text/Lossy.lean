import Reclaim.Bytes

/-!
# Reading bytes as text

`text?` accepts exactly well-formed UTF-8.  `lossy` reads any bytes: each longest beginning of a
character that is then broken off stands for one replacement character, and so does each byte
that begins nothing.
-/

namespace Reclaim.Text

/-- the text written by well-formed UTF-8 -/
def text? (b : Bytes) : Option String := String.fromUTF8? b.toByteArray

/-- what stands for bytes that are no character -/
def replacement : Char := '\uFFFD'

def isContinuation (b : UInt8) : Bool := 0x80 ≤ b && b ≤ 0xbf

/-- how many bytes follow the first byte of a character (none for a byte that begins nothing), and
the bounds of the first of them -/
def following (a : UInt8) : Option (Nat × UInt8 × UInt8) :=
  if a < 0x80 then some (0, 0, 0)
  else if 0xc2 ≤ a && a ≤ 0xdf then some (1, 0x80, 0xbf)
  else if a = 0xe0 then some (2, 0xa0, 0xbf)
  else if a = 0xed then some (2, 0x80, 0x9f)
  else if 0xe1 ≤ a && a ≤ 0xef then some (2, 0x80, 0xbf)
  else if a = 0xf0 then some (3, 0x90, 0xbf)
  else if 0xf1 ≤ a && a ≤ 0xf3 then some (3, 0x80, 0xbf)
  else if a = 0xf4 then some (3, 0x80, 0x8f)
  else none

/-- the value bits of the first byte of a character with `n` further bytes -/
def leadBits (n : Nat) (a : UInt8) : Nat :=
  match n with
  | 0 => a.toNat
  | 1 => a.toNat % 32
  | 2 => a.toNat % 16
  | _ => a.toNat % 8

/-- how many of the first `n` bytes of `r` continue a character, the first within `lo` and `hi` -/
def continuing (n : Nat) (lo hi : UInt8) (r : Bytes) : Nat :=
  match r with
  | [] => 0
  | b :: r' =>
    if n = 0 || b < lo || hi < b then 0 else 1 + ((r'.take (n - 1)).takeWhile isContinuation).length

/-- the character begun by `a` and how many bytes of `r` belong to it -/
def charAt (a : UInt8) (r : Bytes) : Char × Nat :=
  match following a with
  | none => (replacement, 0)
  | some (n, lo, hi) =>
    let k := continuing n lo hi r
    if k = n then
      (Char.ofNat ((r.take n).foldl (fun v b => v * 64 + b.toNat % 64) (leadBits n a)), n)
    else (replacement, k)

def lossyChars : Bytes → List Char
  | [] => []
  | a :: r =>
    let c := charAt a r
    c.1 :: lossyChars (r.drop c.2)
termination_by b => b.length
decreasing_by
  rw [List.length_drop, List.length_cons]
  omega

def lossy (b : Bytes) : String := String.ofList (lossyChars b)

end Reclaim.Text

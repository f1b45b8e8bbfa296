import Reclaim.Bytes

/-!
# Base 64

Three bytes are written as four letters of the standard alphabet; one or two bytes at the end are
filled up with the padding sign.  Reading is strict: the padding must be there, the bits it leaves
over must be zero, and nothing else may stand between the letters.
-/

namespace Reclaim.Base64

def letter (n : Nat) : UInt8 :=
  if n < 26 then UInt8.ofNat (65 + n)
  else if n < 52 then UInt8.ofNat (71 + n)
  else if n < 62 then UInt8.ofNat (n - 4)
  else if n = 62 then 43
  else 47

def letterValue? (c : UInt8) : Option Nat :=
  if 65 ≤ c ∧ c ≤ 90 then some (c.toNat - 65)
  else if 97 ≤ c ∧ c ≤ 122 then some (c.toNat - 71)
  else if 48 ≤ c ∧ c ≤ 57 then some (c.toNat + 4)
  else if c = 43 then some 62
  else if c = 47 then some 63
  else none

def pad : UInt8 := 61

def encode : Bytes → Bytes
  | [] => []
  | [a] => [letter (a.toNat / 4), letter (a.toNat % 4 * 16), pad, pad]
  | [a, b] =>
    [letter (a.toNat / 4), letter (a.toNat % 4 * 16 + b.toNat / 16), letter (b.toNat % 16 * 4), pad]
  | a :: b :: c :: r =>
    letter (a.toNat / 4) :: letter (a.toNat % 4 * 16 + b.toNat / 16)
      :: letter (b.toNat % 16 * 4 + c.toNat / 64) :: letter (c.toNat % 64) :: encode r

/-- the bytes of the last four letters -/
def decodeLast (w x y z : UInt8) : Option Bytes :=
  match letterValue? w, letterValue? x with
  | some i, some j =>
    if z = pad then
      if y = pad then
        if j % 16 = 0 then some [UInt8.ofNat (i * 4 + j / 16)] else none
      else
        match letterValue? y with
        | some k =>
          if k % 4 = 0 then some [UInt8.ofNat (i * 4 + j / 16), UInt8.ofNat (j % 16 * 16 + k / 4)]
          else none
        | none => none
    else
      match letterValue? y, letterValue? z with
      | some k, some l =>
        some [UInt8.ofNat (i * 4 + j / 16), UInt8.ofNat (j % 16 * 16 + k / 4),
          UInt8.ofNat (k % 4 * 64 + l)]
      | _, _ => none
  | _, _ => none

def decode : Bytes → Option Bytes
  | [] => some []
  | [w, x, y, z] => decodeLast w x y z
  | w :: x :: y :: z :: r =>
    match letterValue? w, letterValue? x, letterValue? y, letterValue? z, decode r with
    | some i, some j, some k, some l, some b =>
      some (UInt8.ofNat (i * 4 + j / 16) :: UInt8.ofNat (j % 16 * 16 + k / 4)
        :: UInt8.ofNat (k % 4 * 64 + l) :: b)
    | _, _, _, _, _ => none
  | _ => none

theorem letterValue_letter (n : Nat) (h : n < 64) : letterValue? (letter n) = some n := by
  have all : ∀ m : Fin 64, letterValue? (letter m.val) = some m.val := by decide
  exact all ⟨n, h⟩

theorem letter_ne_pad (n : Nat) (h : n < 64) : letter n ≠ pad := by
  have all : ∀ m : Fin 64, letter m.val ≠ pad := by decide
  exact all ⟨n, h⟩

end Reclaim.Base64

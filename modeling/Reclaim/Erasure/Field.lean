/-!
# The field of 256 elements

Bytes as polynomials over two elements, reduced by `x^8 + x^4 + x^3 + x^2 + 1`.  The sum of two
elements is their exclusive or; here are product, power, inverse and quotient.

`mul` runs through the bits of its first factor, so it is additive in both of them by
construction.
-/

namespace Reclaim.Field256

/-- `b` times the element `x` -/
def twice (b : UInt8) : UInt8 := if b &&& 0x80 = 0 then b <<< 1 else (b <<< 1) ^^^ 0x1d

/-- the product of the lowest `n` bits of `a` and `b` -/
def mulBits : Nat → UInt8 → UInt8 → UInt8
  | 0, _, _ => 0
  | n + 1, a, b => (if a &&& 1 = 0 then 0 else b) ^^^ mulBits n (a >>> 1) (twice b)

def mul (a b : UInt8) : UInt8 := mulBits 8 a b

def square (a : UInt8) : UInt8 := mul a a

/-- the inverse, as the 254th power; zero for zero -/
def inv (a : UInt8) : UInt8 :=
  let a2 := square a
  let a4 := square a2
  let a8 := square a4
  let a16 := square a8
  let a32 := square a16
  let a64 := square a32
  mul a2 (mul a4 (mul a8 (mul a16 (mul a32 (mul a64 (square a64))))))

def product (l : List UInt8) : UInt8 := l.foldr mul 1

example : mul 0x80 2 = 0x1d := by decide

end Reclaim.Field256

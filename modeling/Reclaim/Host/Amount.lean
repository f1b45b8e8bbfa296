import Reclaim.Host.Session

/-!
# Amounts in 128 bits

Prices and costs are held in 128 bits.  A sum or a product of amounts that does not fit comes to the
largest amount.  The lengths of sections are added up without such care: their sum wraps around.

* `Amount.plus`, `Amount.times`   sums and products that stop at the largest amount;
* `Amount.total`                  sums that wrap around;
* `Amount.readCost`               what a host charges for reading sections, step by step.
-/

namespace Reclaim

/-- an amount as it is held -/
abbrev Amount := BitVec 128

namespace Amount

def largest : Amount := BitVec.allOnes 128

def plus (a b : Amount) : Amount := if a.uaddOverflow b then largest else a + b

def times (a b : Amount) : Amount := if a.umulOverflow b then largest else a * b

def total (l : List Amount) : Amount := l.foldl (· + ·) 0

/-- the bytes that sections have together -/
def bytes (sections : List ReadSection) : Amount :=
  total (sections.map fun p => BitVec.ofNat 128 p.length)

def readCost (s : HostSettings) (sections : List ReadSection) : Amount :=
  plus (plus (.ofNat 128 s.base) (times (.ofNat 128 s.access) (.ofNat 128 sections.length)))
    (times (.ofNat 128 s.bandwidth) (bytes sections))

end Amount

end Reclaim

import Reclaim.Key

/-!
# Sessions with hosts

A session is opened with one host, asks for its prices, and pays for reading sectors.  What can go
wrong is told apart here once and for all: the host does not have the sector, the host has no
record of the contract, or anything else.

* `readCost` the price of a read, never more than the largest amount;
* `classify` the three kinds of failure from what a host or the line to it reports.
-/

namespace Reclaim

/-! ## prices -/

def maxAmount : Nat := 340282366920938463463374607431768211455

/-- a sum of amounts, at most the largest -/
def addAmount (a b : Nat) : Nat := min (a + b) maxAmount

/-- a multiple of an amount, at most the largest -/
def mulAmount (a b : Nat) : Nat := min (a * b) maxAmount

/-- the prices a host asks for reading, in its smallest unit -/
structure HostSettings where
  base : Nat
  access : Nat
  bandwidth : Nat
deriving DecidableEq, Inhabited

structure ReadSection where
  root : Hash256
  offset : Nat
  length : Nat
deriving DecidableEq

/-- what a host charges for reading sections -/
def readCost (s : HostSettings) (sections : List ReadSection) : Nat :=
  addAmount (addAmount s.base (mulAmount s.access sections.length))
    (mulAmount s.bandwidth (sections.foldr (fun s n => s.length + n) 0))

/-! ## failures -/

/-- what a host or the line to it reports -/
inductive SessionError where
  | rpc (message : String)
  | transport (message : String)
deriving DecidableEq, Repr

def SessionError.message : SessionError → String
  | .rpc m => "host error: " ++ m
  | .transport m => m

/-- the kinds of failure of an exchange with one host -/
inductive SectorError where
  | notFound
  | contractMissing
  /-- anything else: no connection, a limit reached, a payload that is not what was asked for -/
  | transport (message : String)
deriving DecidableEq, Repr

def SectorError.message : SectorError → String
  | .notFound => "host does not have the sector"
  | .contractMissing => "host has no record of the contract"
  | .transport m => "transport: " ++ m

/-- what hosts say when they lack a sector -/
def sectorMissingText : String := "could not find the desired sector"

/-- what hosts say when they know no contract -/
def contractMissingText : String := "no record of that contract"

/-- whether `needle` stands somewhere in a byte string -/
def holds (needle : Bytes) : Bytes → Bool
  | [] => needle.isEmpty
  | c :: r => needle.isPrefixOf (c :: r) || holds needle r

/-- the kind of a failure; only an answer of the host itself tells of sectors and contracts -/
def classify : SessionError → SectorError
  | .rpc m =>
    if holds (utf8 sectorMissingText) (utf8 m) then .notFound
    else if holds (utf8 contractMissingText) (utf8 m) then .contractMissing
    else .transport ("host error: " ++ m)
  | .transport m => .transport m

end Reclaim

import Reclaim.Host.Network

/-!
# Hosts in memory

A network whose hosts keep their sectors in a list and behave in one of a few ways.  It counts what
is asked of it, and answers everything at once or never.
-/

namespace Reclaim

/-- an association list with one entry for each key, in order of first insertion -/
abbrev Table (α : Type) := List (HostKey × α)

namespace Table

variable {α : Type}

/-- replace the entry of a key, or add one at the end -/
def put (t : Table α) (k : HostKey) (a : α) : Table α :=
  match t with
  | [] => [(k, a)]
  | e :: r => if e.1 = k then (k, a) :: r else e :: put r k a

/-- the entry of a key, or `default` -/
def getOr (t : Table α) (k : HostKey) (default : α) : α := (t.lookup k).getD default

end Table

namespace Memory

inductive Behavior where
  /-- serves whatever it stores -/
  | serve
  /-- denies to hold any sector -/
  | notFound
  /-- denies every read for want of a contract -/
  | contractMissing
  /-- serves what it stores with the first byte changed -/
  | corrupt
  /-- refuses connections -/
  | offline
  /-- accepts reads and never answers -/
  | stall
deriving DecidableEq, Repr

/-- hosts in memory and what was asked of them -/
structure Hosts where
  sectors : Table (List (Hash256 × Bytes))
  behavior : Table Behavior
  /-- the hosts with a contract, in increasing order -/
  contracts : List HostKey
  /-- the hosts whose contract was given up, in order -/
  removed : List HostKey
  reads : Table Nat
  sessions : Nat

namespace Hosts

def empty : Hosts := ⟨[], [], [], [], [], 0⟩

def addHost (h : Hosts) (k : HostKey) : Hosts :=
  { h with contracts := HostKey.insert k h.contracts }

/-- store a sector under a root, in place of one that is there -/
def putSector (h : Hosts) (k : HostKey) (root : Hash256) (sector : Bytes) : Hosts :=
  { h with sectors := h.sectors.put k ((root, sector) :: h.sectors.getOr k []) }

def setBehavior (h : Hosts) (k : HostKey) (b : Behavior) : Hosts :=
  { h with behavior := h.behavior.put k b }

/-- forget a contract without telling anyone -/
def dropContract (h : Hosts) (k : HostKey) : Hosts :=
  { h with contracts := h.contracts.filter (· ≠ k) }

def behaviorOf (h : Hosts) (k : HostKey) : Behavior := h.behavior.getOr k .serve

def readsOf (h : Hosts) (k : HostKey) : Nat := h.reads.getOr k 0

def totalReads (h : Hosts) : Nat := h.reads.foldr (fun t n => t.2 + n) 0

end Hosts

/-- the parts of stored sectors that sections ask for, if all of them are there -/
def payload (stored : List (Hash256 × Bytes)) : List ReadSection → Option Bytes
  | [] => some []
  | s :: r =>
    match stored.lookup s.root, payload stored r with
    | some b, some rest => some ((b.drop s.offset).take s.length ++ rest)
    | _, _ => none

/-- a payload with its first byte changed -/
def spoil : Bytes → Bytes
  | [] => []
  | x :: b => (x ^^^ 0xff) :: b

def dial (k : HostKey) (h : Hosts) : Reply Unit × Hosts :=
  let answer : Reply Unit :=
    if !h.contracts.contains k then .now (.error (.transport s!"no contract with host {k}"))
    else if h.behaviorOf k = .offline then
      .now (.error (.transport s!"dial {k}: connection refused"))
    else .now (.ok ())
  (answer, { h with sessions := h.sessions + 1 })

/-- what a host that serves answers to a read -/
def served (k : HostKey) (sections : List ReadSection) (change : Bytes → Bytes) (h : Hosts) :
    Reply Bytes :=
  match payload (h.sectors.getOr k []) sections with
  | none => .now (.error (.rpc sectorMissingText))
  | some b => .now (.ok (change b))

def read (k : HostKey) (sections : List ReadSection) (_cost : Nat) (h : Hosts) :
    Reply Bytes × Hosts :=
  let answer :=
    match h.behaviorOf k with
    | .notFound => .now (.error (.rpc sectorMissingText))
    | .contractMissing => .now (.error (.rpc contractMissingText))
    | .stall => .never
    | .corrupt => served k sections spoil h
    | _ => served k sections id h
  (answer, { h with reads := h.reads.put k (h.readsOf k + 1) })

/-- the contract with a host in memory: it does not expire -/
def contract? (h : Hosts) (k : HostKey) : Option Contract :=
  if h.contracts.contains k then some ⟨Hash256.ofBytes k.bytes, k, 18446744073709551615⟩ else none

def removeContract (k : HostKey) (h : Hosts) : Bool × Hosts :=
  (true, { h.dropContract k with removed := h.removed ++ [k] })

def network : Network Hosts where
  hosts h := h.contracts
  contract? := contract?
  dial := dial
  settings _ h := (.now (.ok ⟨1, 1, 1⟩), h)
  read := read
  removeContract := removeContract

end Memory

end Reclaim

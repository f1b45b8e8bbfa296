import Reclaim.Host.Memory

/-!
# Hosts that follow a script

A network whose hosts answer each kind of request as a script says: after how long, with which
failure, or with what.  Without a script hosts open sessions, ask nothing for reading, and serve
the sectors they store.
-/

namespace Reclaim.Script

/-- what a host does on a request -/
structure Action (α : Type) where
  delay : Nat
  /-- a failure of the host, a failure of the line, or no answer at all -/
  failure : Option (Option SessionError)
  value : Option α

/-- succeed at once and say nothing in particular -/
def Action.plain {α : Type} : Action α := ⟨0, none, none⟩

/-- the answer of an action, `otherwise` being what is said when nothing in particular is -/
def Action.reply {α : Type} (a : Action α) (otherwise : Except SessionError α) : Reply α :=
  match a.failure with
  | some none => .never
  | some (some e) => ⟨some a.delay, .error e⟩
  | none =>
    match a.value with
    | some v => ⟨some a.delay, .ok v⟩
    | none => ⟨some a.delay, otherwise⟩

structure Host where
  sectors : List (Hash256 × Bytes)
  dial : Action Unit
  settings : Action HostSettings
  /-- what it does on its first, second, … read; the last action repeats -/
  reads : List (Action Bytes)
  /-- why giving up the contract fails, if it does -/
  keepsContract : Bool
  /-- the reads asked of it so far -/
  count : Nat

def Host.plain : Host := ⟨[], .plain, .plain, [], false, 0⟩

def Host.readAction (h : Host) (i : Nat) : Action Bytes :=
  match h.reads.getLast? with
  | none => .plain
  | some last => h.reads.getD i last

structure Hosts where
  table : Table Host
  /-- the hosts with a contract, in increasing order -/
  contracts : List HostKey
  /-- the hosts whose contract was given up, in order -/
  removed : List HostKey

namespace Hosts

def empty : Hosts := ⟨[], [], []⟩

def host (h : Hosts) (k : HostKey) : Host := h.table.getOr k .plain

def set (h : Hosts) (k : HostKey) (host : Host) : Hosts := { h with table := h.table.put k host }

def setContract (h : Hosts) (k : HostKey) (has : Bool) : Hosts :=
  { h with
    contracts := if has then HostKey.insert k h.contracts else h.contracts.filter (· ≠ k) }

/-- store a sector under its root -/
def store (h : Hosts) (k : HostKey) (root : Hash256) (sector : Bytes) : Hosts :=
  let host := h.host k
  h.set k { host with sectors := (root, sector) :: host.sectors }

end Hosts

def dial (k : HostKey) (h : Hosts) : Reply Unit × Hosts := ((h.host k).dial.reply (.ok ()), h)

def settings (k : HostKey) (h : Hosts) : Reply HostSettings × Hosts :=
  ((h.host k).settings.reply (.ok ⟨0, 0, 0⟩), h)

/-- the whole stored sector for the first section -/
def stored (host : Host) (sections : List ReadSection) : Except SessionError Bytes :=
  match sections with
  | [] => .ok []
  | s :: _ =>
    match host.sectors.lookup s.root with
    | none => .error (.rpc sectorMissingText)
    | some b => .ok b

def read (k : HostKey) (sections : List ReadSection) (_cost : Nat) (h : Hosts) :
    Reply Bytes × Hosts :=
  let host := h.host k
  ((host.readAction host.count).reply (stored host sections),
    h.set k { host with count := host.count + 1 })

def contract? (h : Hosts) (k : HostKey) : Option Contract :=
  if h.contracts.contains k then some ⟨Hash256.ofBytes k.bytes, k, 1⟩ else none

def removeContract (k : HostKey) (h : Hosts) : Bool × Hosts :=
  if (h.host k).keepsContract then (false, h)
  else (true, { h.setContract k false with removed := h.removed ++ [k] })

def network : Network Hosts where
  hosts h := h.contracts
  contract? := contract?
  dial := dial
  settings := settings
  read := read
  removeContract := removeContract

end Reclaim.Script

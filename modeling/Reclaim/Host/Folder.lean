import Reclaim.Contract.Store
import Reclaim.Hash.Blake3
import Reclaim.Merkle.Frontier

/-!
# Hosts in a folder

A network whose hosts are folders of files in one folder: each is named by the digits of its key,
and each of its files holds a sector and is named by the digits of the sector's root.  A host with
an entry named `NO_CONTRACT` denies every read.  The contracts are those of a store.

* `Folder.openHosts` the hosts of a folder; if the store is empty, each of them gets a contract;
* `Folder.network` the hosts as a network.
-/

namespace Reclaim

namespace Folder

inductive Error where
  | scan (p : Path)
  | store (e : StoreError)
  | create (p : Path)
  | write (p : Path)
  | fault (e : DiskError)
deriving DecidableEq

def Error.message : Error → String
  | .scan p => s!"scan {p}"
  | .store e => e.message
  | .create p => s!"create {p}"
  | .write p => s!"write {p}"
  | .fault e => e.message

structure Hosts where
  root : Path
  store : ContractStore
  disk : Disk

/-- the name of the entry that makes a host deny every read -/
def denial : String := "NO_CONTRACT"

def hostPath (root : Path) (k : HostKey) : Path := root.join k.hex

/-! ## contracts for hosts that are found -/

/-- the hosts that have folders -/
def scan (root : Path) (d : Disk) : Except Error (List HostKey) :=
  match d.locate root with
  | .error _ => .error (.scan root)
  | .ok here =>
    match d.node? here with
    | none => .error (.scan root)
    | some (.file _) => .ok []
    | some .folder =>
      .ok ((d.inside here).filterMap fun e =>
        match e.2 with
        | .file _ => none
        | .folder => (HostKey.parse e.1).toOption)

/-- a contract that never expires -/
def seed (k : HostKey) : Contract :=
  ⟨Blake3.hash k.bytes, k, 18446744073709551615⟩

/-- the hosts of a folder with the contracts of a store; an empty store gets a contract with each
host that is found -/
def openHosts (root : Path) (s : ContractStore) (d : Disk) : Except Error Hosts × Disk :=
  if s.list.isEmpty then
    match scan root d with
    | .error e => (.error e, d)
    | .ok ks =>
      match s.insertAll (ks.map seed) d with
      | (.error e, _, d) => (.error (.store e), d)
      | (.ok _, s, d) => (.ok ⟨root, s, d⟩, d)
  else (.ok ⟨root, s, d⟩, d)

/-! ## putting things there -/

def putSector (root : Path) (k : HostKey) (sector : Bytes) (d : Disk) :
    Except Error Hash256 × Disk :=
  let dir := hostPath root k
  match Disk.makeFolders dir d with
  | (.error _, d) => (.error (.create dir), d)
  | (.ok _, d) =>
    let h := sectorRoot sector
    let path := dir.join h.text
    match Disk.write path sector d with
    | (.error _, d) => (.error (.write path), d)
    | (.ok _, d) => (.ok h, d)

/-- make a host deny every read -/
def deny (root : Path) (k : HostKey) (d : Disk) : Except Error Unit × Disk :=
  let dir := hostPath root k
  match Disk.makeFolders dir d with
  | (.error _, d) => (.error (.create dir), d)
  | (.ok _, d) =>
    match Disk.write (dir.join denial) [] d with
    | (.error e, d) => (.error (.fault e), d)
    | (.ok _, d) => (.ok (), d)

/-! ## the network -/

def dial (k : HostKey) (h : Hosts) : Reply Unit × Hosts :=
  let answer : Reply Unit :=
    match h.store.contract? k with
    | none => .now (.error (.transport s!"no contract with host {k}"))
    | some _ =>
      if h.disk.holds (hostPath h.root k) then .now (.ok ())
      else .now (.error (.transport s!"host {k} is unreachable"))
  (answer, h)

/-- the parts of a host's files that sections ask for -/
def payload (dir : Path) (d : Disk) : List ReadSection → Except SessionError Bytes
  | [] => .ok []
  | s :: r =>
    let path := dir.join s.root.text
    match d.read path with
    | .error .missing => .error (.rpc sectorMissingText)
    | .error e => .error (.transport s!"read {path}: {e.message}")
    | .ok b =>
      match payload dir d r with
      | .error e => .error e
      | .ok rest => .ok ((b.drop s.offset).take s.length ++ rest)

def read (k : HostKey) (sections : List ReadSection) (_cost : Nat) (h : Hosts) :
    Reply Bytes × Hosts :=
  let dir := hostPath h.root k
  let answer : Reply Bytes :=
    if h.disk.holds (dir.join denial) then .now (.error (.rpc contractMissingText))
    else .now (payload dir h.disk sections)
  (answer, h)

def removeContract (k : HostKey) (h : Hosts) : Bool × Hosts :=
  match h.store.remove k h.disk with
  | (r, s, d) => (r.isOk, ⟨h.root, s, d⟩)

/-- hosts in a folder as a network; they ask for nothing -/
def network : Network Hosts where
  hosts h := h.store.hosts
  contract? h k := h.store.contract? k
  dial := dial
  settings _ h := (.now (.ok ⟨0, 0, 0⟩), h)
  read := read
  removeContract := removeContract

end Folder

end Reclaim

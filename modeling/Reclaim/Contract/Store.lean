import Reclaim.Contract.Document
import Reclaim.Disk.Basic

/-!
# The contract store

The contracts that are held, one for each host, are kept in memory and in a document in a folder.
Every change is written through: to a new file beside the document, which then takes its place.
A change that cannot be written is kept in memory all the same.

* `ContractStore.openIn` the store in a folder, without contracts that have expired;
* `insert`, `insertAll`, `remove` the changes.
-/

namespace Reclaim

/-- why a store cannot be opened or changed -/
inductive StoreError where
  | folder (p : Path)
  | read (p : Path)
  | parse (p : Path)
  /-- the file that keeps others from writing at the same time -/
  | lock (p : Path)
  | create (p : Path)
  /-- writing the new file, or waiting for it to be safe -/
  | fill (e : DiskError)
  /-- putting the new file in its place -/
  | place (p : Path)
deriving DecidableEq

def StoreError.message : StoreError → String
  | .folder p => s!"create {p}"
  | .read p => s!"read {p}"
  | .parse p => s!"parse {p}"
  | .lock p => s!"open {p}"
  | .create p => s!"create {p}"
  | .fill e => e.message
  | .place p => s!"rename {p} into place"

namespace Contracts

/-- put a contract in its place among contracts in order of their hosts, instead of one with the
same host -/
def insertSorted (c : Contract) : List Contract → List Contract
  | [] => [c]
  | a :: r =>
    if c.host < a.host then c :: a :: r
    else if c.host = a.host then c :: r
    else a :: insertSorted c r

/-- the last contract with each host, in order of the hosts -/
def sorted (cs : List Contract) : List Contract := cs.foldl (fun r c => insertSorted c r) []

/-- the contracts that are still good after a height -/
def unexpired (height : UInt64) (cs : List Contract) : List Contract :=
  cs.filter fun c => height < c.expirationHeight

def with? (cs : List Contract) (k : HostKey) : Option Contract := cs.find? fun c => c.host = k

/-- the contracts with all other hosts -/
def without (cs : List Contract) (k : HostKey) : List Contract := cs.filter fun c => c.host ≠ k

theorem with?_insertSorted_self (c : Contract) (cs : List Contract) :
    with? (insertSorted c cs) c.host = some c := by
  induction cs with
  | nil => simp [insertSorted, with?]
  | cons a r ih =>
    rw [insertSorted]
    split
    · simp [with?]
    · split
      · simp [with?]
      · next hne =>
        rw [with?, List.find?_cons_of_neg (by simpa using fun h : a.host = c.host => hne h.symm)]
        exact ih

theorem with?_insertSorted_ne (c : Contract) (cs : List Contract) (k : HostKey) (h : k ≠ c.host) :
    with? (insertSorted c cs) k = with? cs k := by
  have hc : ¬ c.host = k := fun e => h e.symm
  induction cs with
  | nil => simp [insertSorted, with?, hc]
  | cons a r ih =>
    rw [insertSorted]
    split
    · rw [with?, List.find?_cons_of_neg (by simpa using hc)]
      rfl
    · split
      · next he =>
        have ha : ¬ a.host = k := he ▸ hc
        rw [with?, with?, List.find?_cons_of_neg (by simpa using hc),
          List.find?_cons_of_neg (by simpa using ha)]
      · rw [with?, with?, List.find?_cons, List.find?_cons]
        split
        · rfl
        · exact ih

theorem with?_without_self (cs : List Contract) (k : HostKey) : with? (without cs k) k = none := by
  rw [with?, List.find?_eq_none]
  intro c hc
  simpa using (List.mem_filter.1 hc).2

theorem with?_without_ne (cs : List Contract) (k j : HostKey) (h : j ≠ k) :
    with? (without cs k) j = with? cs j := by
  induction cs with
  | nil => rfl
  | cons a r ih =>
    by_cases ha : a.host = k
    · have hj : ¬ a.host = j := fun e => h (e.symm.trans ha)
      rw [without, List.filter_cons_of_neg (by simpa using ha), with?, with?,
        List.find?_cons_of_neg (by simpa using hj)]
      exact ih
    · rw [without, List.filter_cons_of_pos (by simpa using ha), with?, with?, List.find?_cons,
        List.find?_cons]
      split
      · rfl
      · exact ih

end Contracts

structure ContractStore where
  path : Path
  /-- contracts up to which height were dropped when the store was opened -/
  height : UInt64
  /-- what is held, in increasing order of the hosts -/
  contents : Contracts
deriving DecidableEq

namespace ContractStore

def fileName : String := "contracts.json"

def list (s : ContractStore) : List Contract := s.contents.list

/-- the hosts with a contract, in increasing order -/
def hosts (s : ContractStore) : List HostKey := s.list.map Contract.host

def contract? (s : ContractStore) (k : HostKey) : Option Contract := Contracts.with? s.list k

def withList (s : ContractStore) (l : List Contract) : ContractStore :=
  { s with contents := { s.contents with list := l } }

def lockPath (s : ContractStore) : Path := s.path.append ".lock"

def newPath (s : ContractStore) : Path := s.path.append ".tmp"

def save (s : ContractStore) (d : Disk) : Except StoreError Unit × Disk :=
  match Disk.touch s.lockPath d with
  | (.error _, d) => (.error (.lock s.lockPath), d)
  | (.ok _, d) =>
    match Disk.create s.newPath d with
    | (.error _, d) => (.error (.create s.newPath), d)
    | (.ok file, d) =>
      match Disk.fill file s.contents.toDocument d with
      | (.error e, d) => (.error (.fill e), d)
      | (.ok _, d) =>
        match Disk.sync d with
        | (.error e, d) => (.error (.fill e), d)
        | (.ok _, d) =>
          match Disk.rename s.newPath s.path d with
          | (.error _, d) => (.error (.place s.newPath), d)
          | (.ok _, d) => (.ok (), d)

/-- what a document lists as it is held after a height -/
def ofContracts (path : Path) (height : UInt64) (cs : Contracts) : ContractStore :=
  ⟨path, height, ⟨cs.renterKey, Contracts.sorted (Contracts.unexpired height cs.list)⟩⟩

/-- the contracts that a document lists; none if there is no document -/
def load (path : Path) (d : Disk) : Except StoreError Contracts :=
  match d.read path with
  | .error .missing => .ok Contracts.empty
  | .error _ => .error (.read path)
  | .ok b =>
    match Contracts.ofDocument? b with
    | none => .error (.parse path)
    | some cs => .ok cs

/-- the store in a folder, which is made if it is not there; if anything listed is not held, the
document is written anew -/
def openIn (dir : Path) (height : UInt64) (d : Disk) : Except StoreError ContractStore × Disk :=
  match Disk.makeFolders dir d with
  | (.error _, d) => (.error (.folder dir), d)
  | (.ok _, d) =>
    let path := dir.join fileName
    match load path d with
    | .error e => (.error e, d)
    | .ok cs =>
      let s := ofContracts path height cs
      if s.list.length < cs.list.length then
        match s.save d with
        | (.error e, d) => (.error e, d)
        | (.ok _, d) => (.ok s, d)
      else (.ok s, d)

/-- hold more contracts, each instead of an earlier one with the same host -/
def insertAll (cs : List Contract) (s : ContractStore) (d : Disk) :
    Except StoreError Unit × ContractStore × Disk :=
  let s := s.withList (cs.foldl (fun r c => Contracts.insertSorted c r) s.list)
  let r := s.save d
  (r.1, s, r.2)

/-- hold one more contract, instead of an earlier one with the same host -/
def insert (c : Contract) (s : ContractStore) (d : Disk) :
    Except StoreError Unit × ContractStore × Disk :=
  insertAll [c] s d

/-- hold no contract with a host; tells whether there was one -/
def remove (k : HostKey) (s : ContractStore) (d : Disk) :
    Except StoreError Bool × ContractStore × Disk :=
  match s.contract? k with
  | none => (.ok false, s, d)
  | some _ =>
    let s := s.withList (Contracts.without s.list k)
    match s.save d with
    | (.error e, d) => (.error e, s, d)
    | (.ok _, d) => (.ok true, s, d)

end ContractStore

end Reclaim

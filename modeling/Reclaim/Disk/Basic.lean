import Reclaim.Bytes
import Reclaim.Disk.Path

/-!
# Disks

A disk holds files and folders under their places.  Paths are followed name by name, and every
name on the way must be a folder's.

A disk also has luck: it says of each coming change whether it works or fails of itself, and how
many bytes a failing write still leaves behind.  A disk without luck left changes as it is told.

* `locate` the place that a path leads to;
* `read`, `holds` what is there;
* `touch`, `create`, `fill`, `sync`, `rename`, `remove`, `makeFolders` the changes.
-/

namespace Reclaim

/-- where something is on a disk: the names that lead to it, the innermost first -/
abbrev Place := List String

inductive Node where
  | folder
  | file (b : Bytes)
deriving DecidableEq, Inhabited

inductive DiskError where
  | missing
  | notFolder
  | isFolder
  /-- bad luck -/
  | fault
deriving DecidableEq

def DiskError.message : DiskError → String
  | .missing => "No such file or directory (os error 2)"
  | .notFolder => "Not a directory (os error 20)"
  | .isFolder => "Is a directory (os error 21)"
  | .fault => "Input/output error (os error 5)"

structure Disk where
  /-- what is where, apart from the folder that holds everything -/
  entries : List (Place × Node)
  /-- the folder in which paths begin that do not begin with a slash -/
  base : Place
  /-- what becomes of the coming changes: `none` lets one work, a number lets it fail after so many
  bytes -/
  luck : List (Option Nat)
deriving DecidableEq

namespace Disk

def empty : Disk := ⟨[], [], []⟩

/-! ## looking -/

def node? (d : Disk) (p : Place) : Option Node :=
  match p with
  | [] => some .folder
  | _ => d.entries.lookup p

/-- follow the parts of a path from a place; all but the last must be folders -/
def walk (d : Disk) (here : Place) : List String → Except DiskError Place
  | [] => .ok here
  | s :: r =>
    match d.node? here with
    | none => .error .missing
    | some (.file _) => .error .notFolder
    | some .folder =>
      if Path.leadsNowhere s then walk d here r
      else if s = ".." then walk d here.tail r
      else walk d (s :: here) r

/-- the place that a path leads to, whether something is there or not -/
def locate (d : Disk) (p : Path) : Except DiskError Place :=
  match p.parts with
  | [] => .error .missing
  | [""] => .error .missing
  | "" :: r => walk d [] r
  | parts => walk d d.base parts

def look (d : Disk) (p : Path) : Except DiskError Node :=
  match d.locate p with
  | .error e => .error e
  | .ok here =>
    match d.node? here with
    | none => .error .missing
    | some n => .ok n

def holds (d : Disk) (p : Path) : Bool := (d.look p).isOk

def read (d : Disk) (p : Path) : Except DiskError Bytes :=
  match d.look p with
  | .error e => .error e
  | .ok .folder => .error .isFolder
  | .ok (.file b) => .ok b

/-- the names in a folder, with what they name -/
def inside (d : Disk) (here : Place) : List (String × Node) :=
  d.entries.filterMap fun e =>
    match e.1 with
    | [] => none
    | name :: place => if place = here then some (name, e.2) else none

/-- everything below a folder with the names that lead there from it, the outermost first -/
def below (d : Disk) (here : Place) : List (List String × Node) :=
  d.entries.filterMap fun e =>
    if here.isSuffixOf e.1 && here.length < e.1.length then
      some ((e.1.take (e.1.length - here.length)).reverse, e.2)
    else none

/-! ## changing -/

/-- let a place hold something, whatever was there -/
def put (d : Disk) (p : Place) (n : Node) : Disk :=
  { d with entries := (p, n) :: d.entries.filter fun e => e.1 ≠ p }

def drop (d : Disk) (p : Place) : Disk := { d with entries := d.entries.filter fun e => e.1 ≠ p }

/-- the luck of the next change -/
def draw (d : Disk) : Option Nat × Disk :=
  match d.luck with
  | [] => (none, d)
  | l :: r => (l, { d with luck := r })

/-- open a file for writing, as it is or new -/
def touch (p : Path) (d : Disk) : Except DiskError Place × Disk :=
  match d.draw with
  | (some _, d) => (.error .fault, d)
  | (none, d) =>
    match d.locate p with
    | .error e => (.error e, d)
    | .ok here =>
      match d.node? here with
      | some .folder => (.error .isFolder, d)
      | some (.file _) => (.ok here, d)
      | none => (.ok here, d.put here (.file []))

/-- open a file for writing and empty it -/
def create (p : Path) (d : Disk) : Except DiskError Place × Disk :=
  match touch p d with
  | (.error e, d) => (.error e, d)
  | (.ok here, d) => (.ok here, d.put here (.file []))

/-- write all bytes of an open file -/
def fill (here : Place) (b : Bytes) (d : Disk) : Except DiskError Unit × Disk :=
  match d.draw with
  | (some k, d) => (.error .fault, d.put here (.file (b.take k)))
  | (none, d) => (.ok (), d.put here (.file b))

/-- wait until what was written is safe -/
def sync (d : Disk) : Except DiskError Unit × Disk :=
  match d.draw with
  | (some _, d) => (.error .fault, d)
  | (none, d) => (.ok (), d)

/-- let a file have the given bytes and no others -/
def write (p : Path) (b : Bytes) (d : Disk) : Except DiskError Unit × Disk :=
  match create p d with
  | (.error e, d) => (.error e, d)
  | (.ok here, d) => fill here b d

/-- move a file, in place of a file that is there -/
def rename (source target : Path) (d : Disk) : Except DiskError Unit × Disk :=
  match d.draw with
  | (some _, d) => (.error .fault, d)
  | (none, d) =>
    match d.locate source, d.locate target with
    | .ok a, .ok z =>
      match d.node? a, d.node? z with
      | some (.file _), some .folder => (.error .isFolder, d)
      | some (.file b), _ => (.ok (), (d.drop a).put z (.file b))
      | some .folder, _ => (.error .isFolder, d)
      | none, _ => (.error .missing, d)
    | .error e, _ => (.error e, d)
    | _, .error e => (.error e, d)

def remove (p : Path) (d : Disk) : Except DiskError Unit × Disk :=
  match d.draw with
  | (some _, d) => (.error .fault, d)
  | (none, d) =>
    match d.locate p with
    | .error e => (.error e, d)
    | .ok here =>
      match d.node? here with
      | some (.file _) => (.ok (), d.drop here)
      | some .folder => (.error .isFolder, d)
      | none => (.error .missing, d)

/-- follow the parts of a path from a folder, making the folders that are not there -/
def grow (d : Disk) (here : Place) : List String → Except DiskError Unit × Disk
  | [] => (.ok (), d)
  | s :: r =>
    if Path.leadsNowhere s then grow d here r
    else if s = ".." then grow d here.tail r
    else
      match d.node? (s :: here) with
      | some .folder => grow d (s :: here) r
      | some (.file _) => (.error .notFolder, d)
      | none => grow (d.put (s :: here) .folder) (s :: here) r

/-- make a folder and those it is in, as far as they are not there -/
def makeFolders (p : Path) (d : Disk) : Except DiskError Unit × Disk :=
  match d.look p with
  | .ok .folder => (.ok (), d.draw.2)
  | _ =>
    match d.draw with
    | (some _, d) => (.error .fault, d)
    | (none, d) =>
      match p.parts with
      | "" :: r => grow d [] r
      | parts => grow d d.base parts

/-- take away whatever a path leads to, with everything below it -/
def prune (p : Path) (d : Disk) : Disk :=
  match d.locate p with
  | .error _ => d
  | .ok here => { d with entries := d.entries.filter fun e => !here.isSuffixOf e.1 }

/-! ## what changes leave alone -/

theorem lookup_filter_ne (p q : Place) (h : q ≠ p) (l : List (Place × Node)) :
    (l.filter fun e => e.1 ≠ p).lookup q = l.lookup q := by
  induction l with
  | nil => rfl
  | cons e r ih =>
    obtain ⟨k, n⟩ := e
    by_cases hk : k = p
    · have hq : (q == k) = false := by
        rw [hk]
        exact beq_false_of_ne h
      rw [List.filter_cons_of_neg (by simpa using hk), ih, List.lookup_cons, hq]
    · rw [List.filter_cons_of_pos (by simpa using hk), List.lookup_cons, List.lookup_cons, ih]

theorem lookup_filter_self (p : Place) (l : List (Place × Node)) :
    (l.filter fun e => e.1 ≠ p).lookup p = none := by
  induction l with
  | nil => rfl
  | cons e r ih =>
    obtain ⟨k, n⟩ := e
    by_cases hk : k = p
    · rw [List.filter_cons_of_neg (by simpa using hk), ih]
    · have hp : (p == k) = false := beq_false_of_ne fun h => hk h.symm
      rw [List.filter_cons_of_pos (by simpa using hk), List.lookup_cons, hp, ih]

theorem node?_put_self (d : Disk) (p : Place) (n : Node) (hp : p ≠ []) :
    (d.put p n).node? p = some n := by
  cases p with
  | nil => exact absurd rfl hp
  | cons s r =>
    rw [node?, put, List.lookup_cons, beq_self_eq_true]
    · exact List.cons_ne_nil s r

theorem node?_put_ne (d : Disk) (p q : Place) (n : Node) (h : q ≠ p) :
    (d.put p n).node? q = d.node? q := by
  cases q with
  | nil => rfl
  | cons s r =>
    have hq : (s :: r == p) = false := beq_false_of_ne h
    simp only [node?, put, List.lookup_cons, hq]
    exact lookup_filter_ne p (s :: r) h d.entries

theorem node?_drop_self (d : Disk) (p : Place) (hp : p ≠ []) : (d.drop p).node? p = none := by
  cases p with
  | nil => exact absurd rfl hp
  | cons s r => exact lookup_filter_self (s :: r) d.entries

theorem node?_drop_ne (d : Disk) (p q : Place) (h : q ≠ p) : (d.drop p).node? q = d.node? q := by
  cases q with
  | nil => rfl
  | cons s r => exact lookup_filter_ne p (s :: r) h d.entries

end Disk

end Reclaim

import Reclaim.Json.Printer
import Reclaim.Json.Record
import Reclaim.Recovery.Recover

/-!
# The health of a file

Every sector a descriptor names is checked with every host.  The report lists for each claimed copy
the hosts that serve its sector, and tells whether each chunk still has enough pieces.

A host that turns out to have no record of its contract is asked for nothing more, and loses the
contract when all checks are over.

* `Health.check` the report;
* `FileHealth.toDocument` the report as a JSON document, with the time of the check.
-/

namespace Reclaim

/-- one claimed sector and the hosts that serve it -/
structure PieceHealth where
  root : Hash256
  hosts : List HostKey
deriving DecidableEq

structure ChunkHealth where
  minPieces : Nat
  availablePieces : Nat
  pieces : List (List PieceHealth)
deriving DecidableEq

structure FileHealth where
  chunks : List ChunkHealth
  recoverable : Bool
deriving DecidableEq

namespace Health

variable {σ : Type}

structure Survey (σ : Type) where
  wire : Wire σ
  /-- who serves what, the latest first -/
  held : List (Hash256 × HostKey)
  /-- hosts that have no record of their contract -/
  stale : List HostKey

/-- the outcome of one check; nothing if it was left out -/
structure Finding where
  host : HostKey
  root : Hash256
  result : Option (Except SectorError Bool)

section
variable (n : Network σ) (c : Settings)

/-- checking one sector with one host -/
def work : Work (Survey σ) (HostKey × Hash256) Exchange.Task Finding :=
  let w := Exchange.work n c
  let told (t : Burst Exchange.Task Answer) (host : HostKey) (root : Hash256) :
      Burst Exchange.Task Finding :=
    match t with
    | .done a => .done ⟨host, root, some (a.serves root)⟩
    | .wait ms next => .wait ms next
  { start := fun item s =>
      if s.stale.contains item.1 || (n.contract? s.wire.net item.1).isNone then
        (.done ⟨item.1, item.2, none⟩, s)
      else
        let b := w.start ⟨item.1, item.2, true⟩ s.wire
        (told b.1 item.1 item.2, { s with wire := b.2 })
    resume := fun t s =>
      let b := w.resume t s.wire
      (told b.1 t.goal.host t.goal.root, { s with wire := b.2 })
    rank := w.rank
    rank_resume := by
      intro t s ms t' h
      cases hb : (w.resume t s.wire).1 with
      | done a =>
        simp only [told, hb] at h
        cases h
      | wait ms' next =>
        simp only [told, hb] at h
        cases h
        exact w.rank_resume t s.wire _ _ hb }

/-- write down a finding; no finding ends the survey -/
def deliver (f : Finding) (s : Survey σ) : Bool × Survey σ :=
  match f.result with
  | some (.ok true) => (false, { s with held := (f.root, f.host) :: s.held })
  | some (.error .contractMissing) =>
    (false, { s with stale := if s.stale.contains f.host then s.stale else s.stale ++ [f.host] })
  | _ => (false, s)

def plan (schedule : Schedule) :
    Pool.Plan (Survey σ) (HostKey × Hash256) Exchange.Task Finding where
  work := work n c
  width := c.workers
  schedule := schedule
  deliver := deliver

end

/-- the hosts that serve a sector, in increasing order -/
def holders (held : List (Hash256 × HostKey)) (root : Hash256) : List HostKey :=
  HostKey.sort ((held.filter fun t => t.1 = root).map Prod.snd)

def ofChunk (held : List (Hash256 × HostKey)) (minPieces : Nat) (k : Chunk) : ChunkHealth :=
  let pieces := k.slots.map fun slot => slot.map fun s => (⟨s.root, holders held s.root⟩ : PieceHealth)
  ⟨minPieces, pieces.countP fun slot => slot.any fun p => !p.hosts.isEmpty, pieces⟩

def report (held : List (Hash256 × HostKey)) (d : Descriptor) : FileHealth :=
  let chunks := d.chunks.map (ofChunk held d.minPieces)
  ⟨chunks, chunks.all fun k => k.minPieces ≤ k.availablePieces⟩

/-- check every sector of a file with every host -/
def check (n : Network σ) (c : Settings) (schedule : Schedule) (d : Descriptor) (w : Wire σ) :
    Except RecoveryError FileHealth × Wire σ :=
  match d.validate with
  | .error e => (.error (.descriptor e), w)
  | .ok _ =>
    let hosts := n.hosts w.net
    if hosts.isEmpty then (.error .noHosts, w)
    else
      let sectors := d.distinctSectors
      let items := hosts.flatMap fun host => sectors.map fun root => (host, root)
      let s := (Pool.run (plan n c schedule) false items ⟨w, [], []⟩).2
      let w := s.stale.foldl (fun w host => (w.prune n host).2) s.wire
      (.ok (report s.held d), w)

/-! ## the document -/

def ofPiece (p : PieceHealth) : Json :=
  Json.ofMembers [("merkleRoot", Json.ofHash p.root), ("hosts", .array (p.hosts.map Json.ofHost))]

def ofChunkHealth (c : ChunkHealth) : Json :=
  Json.ofMembers [("minPieces", Json.ofNat c.minPieces),
    ("availablePieces", Json.ofNat c.availablePieces),
    ("pieces", .array (c.pieces.map fun slot => .array (slot.map ofPiece)))]

end Health

def FileHealth.toJson (h : FileHealth) (checkedUtc : String) : Json :=
  Json.ofMembers [("checkedUtc", Json.ofText checkedUtc),
    ("chunks", .array (h.chunks.map Health.ofChunkHealth)), ("recoverable", .bool h.recoverable)]

def FileHealth.toDocument (h : FileHealth) (checkedUtc : String) : Bytes := (h.toJson checkedUtc).pretty

end Reclaim

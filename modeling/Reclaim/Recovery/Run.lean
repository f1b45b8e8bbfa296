import Reclaim.Descriptor.Basic
import Reclaim.Host.Exchange
import Reclaim.Recovery.Cache
import Reclaim.Recovery.Progress

/-!
# Fetching sectors

A `Run` is everything that lasts from one recovered file to the next: the hosts with the record of
what happened, the sectors fetched so far, and the counters.  A sector is fetched from the cache if
it is there, from one host, or from whichever of all hosts serves it first.

A host that has no record of its contract loses it; in a race that happens when the race is over.
-/

namespace Reclaim

/-- the state of a recovery -/
structure Run (σ : Type) where
  wire : Wire σ
  cache : Cache
  tally : Tally
  /-- counters for whoever watches -/
  progress : Option Progress

namespace Run

variable {σ : Type}

def fresh (net : σ) (progress : Option Progress) : Run σ :=
  ⟨Wire.fresh net, Cache.empty, Tally.zero, progress⟩

def notice (r : Run σ) (host : HostKey) (root : Hash256) (e : SectorError) : Run σ :=
  { r with wire := r.wire.note (.failed host root e) }

/-- keep a sector that was just fetched -/
def remember (r : Run σ) (root : Hash256) (sector : Bytes) : Run σ :=
  { r with cache := r.cache.insert root sector, progress := r.progress.map Progress.addSector }

section
variable (n : Network σ) (c : Settings)

/-- give up the contract with a host that has no record of it -/
def prune (host : HostKey) (r : Run σ) : Run σ :=
  let p := r.wire.prune n host
  { r with wire := p.2, tally := if p.1 then r.tally.addPruned else r.tally }

/-! ## one host -/

/-- the sector with the given root, from the cache or from one host -/
def fetch (host : HostKey) (root : Hash256) (r : Run σ) : Except SectorError Bytes × Run σ :=
  match r.cache.get? root with
  | some sector => (.ok sector, { r with tally := r.tally.addHit })
  | none =>
    let d := download n c host root r.wire
    let r := { r with wire := d.2, tally := r.tally.addFetch }
    match d.1 with
    | .ok sector => (.ok sector, r.remember root sector)
    | .error e => (.error e, r)

/-- try the claimed copies of a piece in turn; a host without a contract is asked for nothing -/
def fetchAny : List SectorRef → Run σ → Option Bytes × Run σ
  | [], r => (none, r)
  | s :: rest, r =>
    if !r.cache.contains s.root && (n.contract? r.wire.net s.host).isNone then fetchAny rest r
    else
      let f := fetch n c s.host s.root r
      match f.1 with
      | .ok sector => (some sector, f.2)
      | .error e =>
        let r := f.2.notice s.host s.root e
        fetchAny rest (if e = .contractMissing then prune n s.host r else r)

/-! ## all hosts -/

/-- a search of all hosts for one sector -/
structure Race (σ : Type) where
  wire : Wire σ
  tally : Tally
  winner : Option Bytes
  /-- hosts that have no record of their contract -/
  stale : List HostKey

/-- a burst of an exchange as part of a race: its host goes with the result -/
def told (root : Hash256) (host : HostKey) :
    Burst Exchange.Task Answer → Burst Exchange.Task (HostKey × Except SectorError Bytes)
  | .done a => .done (host, a.sector root)
  | .wait ms next => .wait ms next

theorem eq_wait_of_told {root : Hash256} {host : HostKey} {b : Burst Exchange.Task Answer} {ms : Nat}
    {t : Exchange.Task} (h : told root host b = .wait ms t) : b = .wait ms t := by
  cases b with
  | done a => cases h
  | wait ms' next =>
    cases h
    rfl

def raceWork (root : Hash256) :
    Work (Race σ) HostKey Exchange.Task (HostKey × Except SectorError Bytes) :=
  let w := Exchange.work n c
  { start := fun host s =>
      let b := w.start ⟨host, root, false⟩ s.wire
      (told root host b.1, { s with wire := b.2, tally := s.tally.addFetch })
    resume := fun t s =>
      let b := w.resume t s.wire
      (told root t.goal.host b.1, { s with wire := b.2 })
    rank := w.rank
    rank_resume := fun t s ms t' h => w.rank_resume t s.wire ms t' (eq_wait_of_told h) }

/-- the first sector ends a race -/
def raceDeliver (root : Hash256) (a : HostKey × Except SectorError Bytes) (s : Race σ) :
    Bool × Race σ :=
  match a.2 with
  | .ok sector => (true, { s with winner := some sector })
  | .error e =>
    (false,
      { s with
        wire := s.wire.note (.failed a.1 root e)
        stale := if e = .contractMissing then s.stale ++ [a.1] else s.stale })

/-- the order in which the jobs of each race go on, a race being known by the number of events that
came before it -/
abbrev Orders := Nat → Schedule

def Orders.byTime : Orders := fun _ => Schedule.byTime

def racePlan (schedule : Schedule) (root : Hash256) :
    Pool.Plan (Race σ) HostKey Exchange.Task (HostKey × Except SectorError Bytes) where
  work := raceWork n c root
  width := c.workers
  schedule := schedule
  deliver := raceDeliver root

/-- the sector with the given root, from the cache or from the first host that serves it -/
def race (orders : Orders) (root : Hash256) (r : Run σ) : Option Bytes × Run σ :=
  match r.cache.get? root with
  | some sector => (some sector, { r with tally := r.tally.addHit })
  | none =>
    let hosts := n.hosts r.wire.net
    if hosts.isEmpty then (none, r)
    else
      let begun : Race σ := ⟨r.wire.note (.raced root), r.tally.addRace, none, []⟩
      let done := (Pool.run (racePlan n c (orders r.wire.trace.length) root) false hosts begun).2
      let r := { r with wire := done.wire, tally := done.tally }
      let r := done.stale.foldl (fun r host => prune n host r) r
      match done.winner with
      | none => (none, r)
      | some sector => (some sector, r.remember root sector)

end

end Run

end Reclaim

/-!
# Counters of a run

All counters are 64-bit words and go round at the end.
-/

namespace Reclaim

/-- what a run has done so far -/
structure Progress where
  chunks : UInt64
  sectors : UInt64
  bytes : UInt64
deriving DecidableEq

namespace Progress

def zero : Progress := ⟨0, 0, 0⟩

def addChunk (p : Progress) : Progress := { p with chunks := p.chunks + 1 }

def addSector (p : Progress) : Progress := { p with sectors := p.sectors + 1 }

def addBytes (p : Progress) (n : UInt64) : Progress := { p with bytes := p.bytes + n }

end Progress

/-- how a run got its sectors -/
structure Tally where
  /-- exchanges begun with hosts -/
  fetches : UInt64
  /-- sectors found in the cache -/
  cacheHits : UInt64
  /-- searches of all hosts -/
  races : UInt64
  /-- contracts given up -/
  pruned : UInt64
deriving DecidableEq

namespace Tally

def zero : Tally := ⟨0, 0, 0, 0⟩

def addFetch (t : Tally) : Tally := { t with fetches := t.fetches + 1 }

def addHit (t : Tally) : Tally := { t with cacheHits := t.cacheHits + 1 }

def addRace (t : Tally) : Tally := { t with races := t.races + 1 }

def addPruned (t : Tally) : Tally := { t with pruned := t.pruned + 1 }

end Tally

end Reclaim

import Reclaim.Recovery.Run

/-!
# Recovering a file

A file is recovered chunk by chunk.  For each chunk the claimed copies of its pieces are tried
first, piece by piece; if that does not give enough pieces, the others are searched for at all
hosts.  As soon as there are enough pieces the chunk is decoded and written; a chunk that lacks
pieces ends the recovery.

* `collect` the pieces of one chunk;
* `recover` the whole file.
-/

namespace Reclaim

inductive RecoveryError where
  | descriptor (e : DecodeError)
  | erasure (e : ErasureError)
  | cipher (e : CipherError)
  | noHosts
  | unrecoverable (chunk recovered required : Nat)
deriving DecidableEq, Repr

def RecoveryError.message : RecoveryError → String
  | .descriptor e => e.message
  | .erasure e => e.message
  | .cipher e => e.message
  | .noHosts => "no hosts available"
  | .unrecoverable chunk recovered required =>
    s!"file not recoverable: chunk {chunk} has {recovered} of {required} required pieces"

structure RecoveryReport where
  chunks : UInt64
  bytesWritten : UInt64
  tally : Tally
deriving DecidableEq

namespace Recovery

variable {σ : Type}

/-- a file and the key to its pieces -/
structure Target where
  descriptor : Descriptor
  coder : Coder
  key : MasterKey

/-- piece `piece` of chunk `chunk` out of the sector that holds it -/
def Target.piece (t : Target) (chunk piece : Nat) (sector : Bytes) : Bytes :=
  (t.key.derive chunk piece).crypt (sector.take t.descriptor.pieceSize.toNat)

/-- the pieces found so far, and the places that were tried in vain -/
structure Collected where
  slots : Slots
  found : Nat
  missing : List Nat

/-- a chunk of which nothing was found yet -/
def Collected.none (numPieces : Nat) : Collected := ⟨List.replicate numPieces Option.none, 0, []⟩

def Collected.add (k : Collected) (piece : Nat) (b : Bytes) : Collected :=
  { k with slots := k.slots.set piece (some b), found := k.found + 1 }

def Collected.miss (k : Collected) (piece : Nat) : Collected :=
  { k with missing := k.missing ++ [piece] }

section
variable (n : Network σ) (c : Settings) (orders : Run.Orders) (t : Target) (chunk : Nat)

/-- try the claimed copies of each piece from number `piece` on, until there are enough pieces -/
def tryClaims (piece : Nat) : List (List SectorRef) → Collected → Run σ → Collected × Run σ
  | [], k, r => (k, r)
  | slot :: rest, k, r =>
    if t.descriptor.minPieces ≤ k.found then (k, r)
    else if slot.isEmpty then tryClaims (piece + 1) rest k r
    else
      let f := Run.fetchAny n c slot r
      match f.1 with
      | some sector => tryClaims (piece + 1) rest (k.add piece (t.piece chunk piece sector)) f.2
      | none => tryClaims (piece + 1) rest (k.miss piece) f.2

/-- the root under which a piece is searched for: that of its first claimed copy -/
def searchRoot (slots : List (List SectorRef)) (piece : Nat) : Hash256 :=
  match slots.getD piece [] with
  | [] => Hash256.zero
  | s :: _ => s.root

/-- search all hosts for one missing piece after the other, until there are enough pieces -/
def search (slots : List (List SectorRef)) : List Nat → Collected → Run σ → Collected × Run σ
  | [], k, r => (k, r)
  | piece :: rest, k, r =>
    if t.descriptor.minPieces ≤ k.found then (k, r)
    else
      let f := Run.race n c orders (searchRoot slots piece) r
      match f.1 with
      | some sector => search slots rest (k.add piece (t.piece chunk piece sector)) f.2
      | none => search slots rest k f.2

def collect (slots : List (List SectorRef)) (r : Run σ) : Except RecoveryError Slots × Run σ :=
  let need := t.descriptor.minPieces
  let a := tryClaims n c t chunk 0 slots (Collected.none t.descriptor.numPieces) r
  let b := if a.1.found < need then search n c orders t chunk slots a.1.missing a.1 a.2 else a
  if b.1.found < need then (.error (.unrecoverable chunk b.1.found need), b.2)
  else (.ok b.1.slots, b.2)

end

section
variable (n : Network σ) (c : Settings) (orders : Run.Orders) (t : Target)

/-- what a recovery comes to and what it leaves behind -/
structure Outcome (σ α : Type) where
  result : Except RecoveryError α
  sink : Sink
  run : Run σ

/-- recover the chunks from number `chunk` on, `written` bytes having been written before -/
def recoverChunks (chunk : Nat) (written : UInt64) :
    List Chunk → Sink → Run σ → Outcome σ UInt64
  | [], sink, r => ⟨.ok written, sink, r⟩
  | k :: rest, sink, r =>
    let p := collect n c orders t chunk k.slots r
    match p.1 with
    | .error e => ⟨.error e, sink, p.2⟩
    | .ok slots =>
      let length := t.descriptor.chunkLen chunk
      let o := t.coder.recover slots length sink
      match o.result with
      | .error e => ⟨.error (.erasure e), o.sink, p.2⟩
      | .ok _ =>
        let count := UInt64.ofNat length
        let r := { p.2 with progress := p.2.progress.map fun g => (g.addChunk).addBytes count }
        recoverChunks (chunk + 1) (written + count) rest o.sink r

end

/-- recover a file, writing it in order -/
def recover (n : Network σ) (c : Settings) (orders : Run.Orders) (d : Descriptor) (sink : Sink)
    (r : Run σ) : Outcome σ RecoveryReport :=
  match d.validate with
  | .error e => ⟨.error (.descriptor e), sink, r⟩
  | .ok _ =>
    match d.coder with
    | .error e => ⟨.error (.erasure e), sink, r⟩
    | .ok coder =>
      match d.key with
      | .error e => ⟨.error (.cipher e), sink, r⟩
      | .ok key =>
        if (n.hosts r.wire.net).isEmpty then ⟨.error .noHosts, sink, r⟩
        else
          let o := recoverChunks n c orders ⟨d, coder, key⟩ 0 0 d.chunks sink r
          match o.result with
          | .error e => ⟨.error e, o.sink, o.run⟩
          | .ok written =>
            ⟨.ok ⟨UInt64.ofNat d.chunks.length, written, o.run.tally⟩, o.sink, o.run⟩

/-- the claimed hosts with which there is no contract -/
def missingContracts (n : Network σ) (d : Descriptor) (net : σ) : List HostKey :=
  d.hosts.filter fun host => (n.contract? net host).isNone

end Recovery

end Reclaim

import Reclaim.Descriptor.Basic

/-!
# Chunk records of a descriptor on disk

Every chunk has a record of 4096 bytes: 17 bytes that are passed over, the count of sectors in two
bytes, and 40 bytes for each: the piece number, the place of the host in the host table, and the
root of the sector.
-/

namespace Reclaim.ChunkRecord

def size : Nat := 4096

/-- the bytes before the count -/
def skip : Nat := 17

def refSize : Nat := 40

def maxRefs : Nat := (size - skip - 2) / refSize

/-! ## writing -/

/-- the copies of a chunk with their piece numbers, the first slot's being `i` -/
def numbered (i : Nat) : List (List SectorRef) → List (Nat × SectorRef)
  | [] => []
  | slot :: r => slot.map (fun s => (i, s)) ++ numbered (i + 1) r

/-- the entry of one sector, `hosts` being the host table -/
def entry (hosts : List HostKey) (t : Nat × SectorRef) : Bytes :=
  Bytes.le 4 t.1 ++ Bytes.le 4 (hosts.idxOf t.2.host) ++ t.2.root.bytes

def render (hosts : List HostKey) (c : Chunk) : Bytes :=
  let refs := numbered 0 c.slots
  Bytes.fit size (List.replicate skip 0 ++ Bytes.le 2 refs.length ++ refs.flatMap (entry hosts))

/-! ## reading -/

/-- the sector of an entry with its piece number, in chunk number `chunk` -/
def readEntry (hosts : List (Option HostKey)) (numPieces chunk : Nat) (e : Bytes) :
    Except DecodeError (Nat × SectorRef) :=
  let piece := Bytes.leNat (e.take 4)
  let host := Bytes.leNat ((e.drop 4).take 4)
  if numPieces ≤ piece then .error (.pieceIndex chunk piece)
  else
    match hosts[host]? with
    | none => .error (.hostIndex chunk host)
    | some none => .error (.hostUnused chunk host)
    | some (some k) => .ok (piece, ⟨Hash256.ofBytes ((e.drop 8).take 32), k⟩)

def readEntries (hosts : List (Option HostKey)) (numPieces chunk : Nat) :
    List Bytes → Except DecodeError (List (Nat × SectorRef))
  | [] => .ok []
  | e :: r =>
    match readEntry hosts numPieces chunk e with
    | .error err => .error err
    | .ok t =>
      match readEntries hosts numPieces chunk r with
      | .error err => .error err
      | .ok ts => .ok (t :: ts)

/-- the slots that hold numbered copies, each in the order of the record -/
def slots (numPieces : Nat) (refs : List (Nat × SectorRef)) : List (List SectorRef) :=
  (List.range numPieces).map fun p => (refs.filter fun t => t.1 = p).map Prod.snd

/-- the chunk of a record of full length -/
def read (hosts : List (Option HostKey)) (numPieces chunk : Nat) (record : Bytes) :
    Except DecodeError Chunk :=
  let count := Bytes.leNat ((record.drop skip).take 2)
  if maxRefs < count then .error (.recordOverflow chunk count)
  else
    let entries := (Bytes.segments refSize (record.drop (skip + 2))).take count
    match readEntries hosts numPieces chunk entries with
    | .error err => .error err
    | .ok refs => .ok ⟨slots numPieces refs⟩

/-- the chunks from number `i` on out of `expected`; the last record may be cut short -/
def readAll (hosts : List (Option HostKey)) (numPieces expected i : Nat) :
    Nat → Bytes → Except DecodeError (List Chunk)
  | 0, _ => .ok []
  | n + 1, table =>
    if table.isEmpty then .error (.tableEnds i expected)
    else
      match read hosts numPieces i (Bytes.fit size (table.take size)) with
      | .error err => .error err
      | .ok c =>
        match readAll hosts numPieces expected (i + 1) n (table.drop size) with
        | .error err => .error err
        | .ok cs => .ok (c :: cs)

end Reclaim.ChunkRecord

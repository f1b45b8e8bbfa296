import Reclaim.Cipher.MasterKey
import Reclaim.Erasure.Coder
import Reclaim.Key

/-!
# File descriptors

A descriptor says how a file was cut into chunks, how each chunk was coded into pieces, and for
every piece which sectors hold a copy of it and which host was last known to keep each of them.

* `Descriptor.chunkLen` the bytes of the file in each chunk;
* `Descriptor.validate` what a descriptor must satisfy to be used;
* `Descriptor.refs`, `hosts`, `distinctSectors` everything it claims about sectors and hosts.
-/

namespace Reclaim

/-- one claimed copy of a piece: the sector that holds it and the host that keeps the sector -/
structure SectorRef where
  root : Hash256
  host : HostKey
deriving DecidableEq, Inhabited

/-- the claimed copies of each piece of a chunk; a slot without any is empty -/
structure Chunk where
  slots : List (List SectorRef)
deriving DecidableEq, Inhabited

/-- all claimed copies of a chunk's pieces, slot by slot -/
def Chunk.refs (c : Chunk) : List SectorRef := c.slots.flatten

/-- a file and where its pieces are said to be -/
structure Descriptor where
  fileSize : UInt64
  pieceSize : UInt64
  encoderType : UInt32
  dataPieces : UInt32
  parityPieces : UInt32
  masterKey : Bytes
  masterKeyType : String
  skylinks : List String
  chunks : List Chunk
deriving DecidableEq, Inhabited

inductive DecodeError where
  | emptyDescriptor
  | header
  | noDataPieces
  | emptyPieces
  | offsetOutside (what : String) (offset : Int) (length : Nat)
  | tablesReversed
  | keyAlgorithm (host : Nat) (name : String)
  | keyLength (host length : Nat)
  | masterKey
  | cipherSpecifier (spec : Bytes)
  | erasureParameters (e : ErasureError)
  | chunkSizeOverflow (pieceSize dataPieces : Nat)
  | chunkCount (expected fileSize found : Nat)
  | slotCount (chunk found expected : Nat)
  | tableEnds (chunk expected : Nat)
  | recordOverflow (chunk count : Nat)
  | pieceIndex (chunk piece : Nat)
  | hostUnused (chunk host : Nat)
  | hostIndex (chunk host : Nat)
  | unsupportedErasureType (tag : Nat)
  | json
deriving DecidableEq, Repr

namespace DecodeError

def listed (b : Bytes) : String := "[" ++ ", ".intercalate (b.map fun x => toString x.toNat) ++ "]"

def detail : DecodeError → String
  | .emptyDescriptor => "empty descriptor"
  | .header => "header:"
  | .noDataPieces => "dataPieces must be positive"
  | .emptyPieces => "pieceSize must be positive"
  | .offsetOutside what offset length => s!"{what} {offset} outside descriptor of {length} bytes"
  | .tablesReversed => "chunk table precedes host table"
  | .keyAlgorithm host name => s!"host {host}: unsupported key algorithm {Quoted.string name}"
  | .keyLength host length => s!"host {host}: key length {length}"
  | .masterKey => "master key:"
  | .cipherSpecifier spec => s!"unknown cipher specifier {listed spec}"
  | .erasureParameters e => s!"erasure parameters: {e.message}"
  | .chunkSizeOverflow pieceSize dataPieces =>
    s!"chunk size overflows: {pieceSize} byte pieces x {dataPieces} data pieces"
  | .chunkCount expected fileSize found =>
    s!"expected {expected} chunks for {fileSize} bytes, found {found}"
  | .slotCount chunk found expected => s!"chunk {chunk} has {found} piece slots, expected {expected}"
  | .tableEnds chunk expected => s!"chunk table ends after {chunk} of {expected} chunks"
  | .recordOverflow chunk count => s!"chunk {chunk}: {count} sectors overflow the record"
  | .pieceIndex chunk piece => s!"chunk {chunk}: piece index {piece} out of range"
  | .hostUnused chunk host => s!"chunk {chunk}: host index {host} is unused"
  | .hostIndex chunk host => s!"chunk {chunk}: host index {host} out of range"
  | .unsupportedErasureType tag => s!"unsupported erasure code type {tag}"
  | .json => "topology json:"

def message (e : DecodeError) : String :=
  match e with
  | .unsupportedErasureType _ => e.detail
  | .json => e.detail
  | _ => "malformed descriptor: " ++ e.detail

end DecodeError

/-- the first number that 64 bits do not hold -/
def bound64 : Nat := 18446744073709551616

namespace Descriptor

/-! ## sizes -/

def numPieces (d : Descriptor) : Nat := d.dataPieces.toNat + d.parityPieces.toNat

def minPieces (d : Descriptor) : Nat := d.dataPieces.toNat

/-- the bytes of the file in a full chunk, at most what 64 bits hold -/
def chunkSize (d : Descriptor) : Nat :=
  min (d.pieceSize.toNat * d.dataPieces.toNat) (bound64 - 1)

/-- the bytes of the file in a full chunk, if 64 bits hold their number -/
def checkedChunkSize (d : Descriptor) : Except DecodeError Nat :=
  if d.pieceSize.toNat * d.dataPieces.toNat < bound64 then
    .ok (d.pieceSize.toNat * d.dataPieces.toNat)
  else .error (.chunkSizeOverflow d.pieceSize.toNat d.dataPieces.toNat)

/-- the number of chunks of a file of this size; an empty file still has one -/
def expectedChunks (d : Descriptor) : Nat :=
  if d.chunkSize = 0 then 0 else max 1 ((d.fileSize.toNat + d.chunkSize - 1) / d.chunkSize)

/-- the bytes of the file in chunk `index`; the last chunk holds what is left -/
def chunkLen (d : Descriptor) (index : Nat) : Nat :=
  min (d.fileSize.toNat - min (index * d.chunkSize) (bound64 - 1)) d.chunkSize

/-! ## coder and key -/

def coder (d : Descriptor) : Except ErasureError Coder :=
  Coder.ofTag d.encoderType.toNat d.dataPieces.toNat d.parityPieces.toNat

def key (d : Descriptor) : Except CipherError MasterKey :=
  MasterKey.ofName d.masterKeyType d.masterKey

/-! ## what must hold -/

/-- the erasure parameters must make a coder -/
def checkErasure (d : Descriptor) : Except DecodeError Unit :=
  match d.coder with
  | .ok _ => .ok ()
  | .error (.unsupportedType tag) => .error (.unsupportedErasureType tag)
  | .error e => .error (.erasureParameters e)

/-- every chunk from number `i` on must have a slot for each piece -/
def checkSlots (expected i : Nat) : List Chunk → Except DecodeError Unit
  | [] => .ok ()
  | c :: r =>
    if c.slots.length ≠ expected then .error (.slotCount i c.slots.length expected)
    else checkSlots expected (i + 1) r

/-- the conditions on a descriptor that can be used, the first that fails being reported -/
def validate (d : Descriptor) : Except DecodeError Unit :=
  if d.dataPieces = 0 then .error .noDataPieces
  else if d.pieceSize = 0 then .error .emptyPieces
  else
    match d.checkErasure with
    | .error e => .error e
    | .ok _ =>
      match d.checkedChunkSize with
      | .error e => .error e
      | .ok _ =>
        if d.chunks.length ≠ d.expectedChunks then
          .error (.chunkCount d.expectedChunks d.fileSize.toNat d.chunks.length)
        else checkSlots d.numPieces 0 d.chunks

/-! ## claims -/

/-- all claimed copies in order -/
def refs (d : Descriptor) : List SectorRef := d.chunks.flatMap Chunk.refs

/-- the elements of a list without repetitions, in the order of their first places -/
def firstSeen {α : Type} [DecidableEq α] (l : List α) : List α :=
  (l.foldl (fun seen a => if a ∈ seen then seen else a :: seen) []).reverse

/-- every sector once, in the order of first mention -/
def distinctSectors (d : Descriptor) : List Hash256 := firstSeen (d.refs.map SectorRef.root)

/-- every claimed host once, in the order of first mention -/
def hosts (d : Descriptor) : List HostKey := firstSeen (d.refs.map SectorRef.host)

end Descriptor

end Reclaim

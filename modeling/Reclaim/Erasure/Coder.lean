import Reclaim.Erasure.Interpolation
import Reclaim.Erasure.Sink

/-!
# Erasure coding of chunks

A chunk of `data * pieceSize` bytes becomes `data + parity` pieces, any `data` of which give it
back.  A *whole-piece* code takes each piece as one shard; a *striped* code takes every run of 64
bytes across the pieces as a codeword of its own, so that the data of a stripe stay together.

* `Coder.encode`  the pieces of a chunk;
* `Coder.recover` the first bytes of a chunk from enough of its pieces.
-/

namespace Reclaim

/-- the two ways of laying codewords over pieces -/
inductive ErasureKind where
  | whole
  | striped
deriving DecidableEq, Repr

inductive ErasureError where
  | unsupportedType (tag : Nat)
  | invalidParameters (data parity : Nat)
  | wrongPieceCount (expected got : Nat)
  | tooFewPieces (got need : Nat)
  | inconsistentLength
  | misalignedLength (length : Nat)
  | outputTooLarge (requested available : Nat)
  | emptyShard
  | sinkFull
deriving DecidableEq, Repr

/-- the width of a stripe in each piece -/
def stripeWidth : Nat := 64

def ErasureError.message : ErasureError → String
  | .unsupportedType tag => s!"unsupported erasure code type {tag}"
  | .invalidParameters data parity =>
    s!"invalid erasure parameters: {data} data / {parity} parity pieces"
  | .wrongPieceCount expected got => s!"expected {expected} piece slots, got {got}"
  | .tooFewPieces got need => s!"need at least {need} pieces to recover, have {got}"
  | .inconsistentLength => "pieces are not all the same length"
  | .misalignedLength length =>
    s!"piece length {length} is not a multiple of the {stripeWidth}-byte segment size"
  | .outputTooLarge requested available =>
    s!"cannot write {requested} bytes from pieces holding {available}"
  | .emptyShard => "reed-solomon: EmptyShard"
  | .sinkFull => "writing recovered data: sink full"

namespace ErasureKind

/-- the number that stands for a kind in descriptors -/
def tag : ErasureKind → Nat
  | .whole => 1
  | .striped => 2

/-- how a kind shows up inside a description of a larger value -/
def describe : ErasureKind → String
  | .whole => "ReedSolomon"
  | .striped => "ReedSolomonSubPiece"

def ofTag (tag : Nat) : Except ErasureError ErasureKind :=
  if tag = 1 then .ok .whole else if tag = 2 then .ok .striped else .error (.unsupportedType tag)

theorem ofTag_tag (k : ErasureKind) : ofTag k.tag = .ok k := by
  cases k <;> rfl

end ErasureKind

/-- a code with at least one data piece and at most 256 pieces -/
structure Coder where
  kind : ErasureKind
  data : Nat
  parity : Nat
  data_pos : 0 < data
  pieces_le : data + parity ≤ 256

/-- one place for each piece of a chunk -/
abbrev Slots := List (Option Bytes)

namespace Coder

def make (kind : ErasureKind) (data parity : Nat) : Except ErasureError Coder :=
  if h : 0 < data ∧ data + parity ≤ 256 then .ok ⟨kind, data, parity, h.1, h.2⟩
  else .error (.invalidParameters data parity)

def ofTag (tag data parity : Nat) : Except ErasureError Coder :=
  match ErasureKind.ofTag tag with
  | .error e => .error e
  | .ok kind => make kind data parity

def minPieces (c : Coder) : Nat := c.data

def numPieces (c : Coder) : Nat := c.data + c.parity

/-! ## encoding -/

/-- the data cut into `count` shards of `width` bytes -/
def split (count width : Nat) (data : Bytes) : List Bytes :=
  (List.range count).map fun i => (data.drop (i * width)).take width

/-- piece by piece, the shards of consecutive codewords -/
def gather (count : Nat) (codewords : List (List Bytes)) : List Bytes :=
  (List.range count).map fun j => codewords.flatMap fun shards => shards.getD j []

/-- the pieces of a chunk, `data` being filled with zeros to full size -/
def encode (c : Coder) (data : Bytes) (pieceSize : Nat) : Except ErasureError (List Bytes) :=
  let chunkSize := pieceSize * c.data
  if chunkSize < data.length then .error (.outputTooLarge data.length chunkSize)
  else
    let padded := data.fit chunkSize
    let rows := Erasure.parityRows c.data c.parity
    match c.kind with
    | .whole =>
      if pieceSize = 0 ∧ 0 < c.parity then .error .emptyShard
      else .ok (Erasure.extend rows pieceSize (split c.data pieceSize padded))
    | .striped =>
      if pieceSize % stripeWidth ≠ 0 then .error (.misalignedLength pieceSize)
      else
        let stripes := Bytes.segments (stripeWidth * c.data) padded
        .ok (gather c.numPieces
          (stripes.map fun s => Erasure.extend rows stripeWidth (split c.data stripeWidth s)))

/-! ## recovering -/

structure Outcome where
  result : Except ErasureError Unit
  slots : Slots
  sink : Sink

/-- the length of the first piece that is there -/
def pieceLength (slots : Slots) : Nat := ((slots.filterMap id).map List.length).headD 0

def present (slots : Slots) : List Bool := slots.map Option.isSome

def hasGap (c : Coder) (slots : Slots) : Bool := (slots.take c.data).any Option.isNone

/-- the data of the first `count` stripes, one stripe after the other -/
def repairStripes (rows : List (Option (List UInt8))) : Nat → Slots → List Bytes
  | 0, _ => []
  | count + 1, slots =>
    (Erasure.repair rows stripeWidth (slots.map fun p => p.map (List.take stripeWidth))).flatten
      :: repairStripes rows count (slots.map fun p => p.map (List.drop stripeWidth))

/-- the result of writing blocks to the sink -/
def written (slots : Slots) (sink : Sink) (n : Nat) (blocks : List Bytes) : Outcome :=
  let w := sink.writeBlocks n blocks
  ⟨if w.1 then .ok () else .error .sinkFull, slots, w.2⟩

/-- recover whole pieces: missing data pieces are filled in -/
def recoverWhole (c : Coder) (slots : Slots) (n : Nat) (sink : Sink) : Outcome :=
  let width := pieceLength slots
  if c.hasGap slots then
    if width = 0 then ⟨.error .emptyShard, slots, sink⟩
    else
      let pieces := Erasure.repair (Erasure.repairRows c.data (present slots)) width slots
      written (pieces.map some ++ slots.drop c.data) sink n pieces
  else written slots sink n ((slots.take c.data).filterMap id)

/-- recover stripe by stripe; the pieces stay as they are -/
def recoverStriped (c : Coder) (slots : Slots) (n : Nat) (sink : Sink) : Outcome :=
  let width := pieceLength slots
  if width % stripeWidth ≠ 0 then ⟨.error (.misalignedLength width), slots, sink⟩
  else
    let bytes := stripeWidth * c.data
    let needed := min ((n + bytes - 1) / bytes) (width / stripeWidth)
    let rows := Erasure.repairRows c.data (present slots)
    written slots sink n (repairStripes rows needed slots)

/-- write the first `n` bytes of a chunk, given enough of its pieces -/
def recover (c : Coder) (slots : Slots) (n : Nat) (sink : Sink) : Outcome :=
  let pieces := slots.filterMap id
  let width := pieceLength slots
  if slots.length ≠ c.numPieces then
    ⟨.error (.wrongPieceCount c.numPieces slots.length), slots, sink⟩
  else if pieces.length < c.data then ⟨.error (.tooFewPieces pieces.length c.data), slots, sink⟩
  else if pieces.any fun b => b.length != width then ⟨.error .inconsistentLength, slots, sink⟩
  else if width * c.data < n then ⟨.error (.outputTooLarge n (width * c.data)), slots, sink⟩
  else
    match c.kind with
    | .whole => c.recoverWhole slots n sink
    | .striped => c.recoverStriped slots n sink

end Coder

end Reclaim

import Reclaim.Descriptor.ChunkRecord
import Reclaim.Descriptor.Header
import Reclaim.Descriptor.HostTable

/-!
# Descriptors on disk

The image of a descriptor is its header line, zeros up to the next page, the host table and the
chunk records.  The header tells where the tables are, so they need not follow it at once.

* `Descriptor.toImage` the image of a descriptor;
* `Descriptor.ofImage` the descriptor of an image.
-/

namespace Reclaim

inductive EncodeError where
  | invalid (e : DecodeError)
  | tooManyRefs (chunk count : Nat)
deriving DecidableEq, Repr

def EncodeError.message : EncodeError → String
  | .invalid e => "encode descriptor: " ++ e.message
  | .tooManyRefs chunk count =>
    s!"chunk {chunk} has {count} sectors, a record holds {ChunkRecord.maxRefs}"

namespace Image

/-- the tables begin at a multiple of this -/
def page : Nat := 4096

/-- the header of a descriptor whose tables stand at the given places -/
def header (d : Descriptor) (tableOffset chunkOffset : Nat) : Header where
  fileSize := d.fileSize.toNat
  pieceSize := d.pieceSize.toNat
  tableOffset := tableOffset
  chunkOffset := chunkOffset
  erasureType := Bytes.be 4 d.encoderType.toNat
  erasureParams := Bytes.le 4 d.dataPieces.toNat ++ Bytes.le 4 d.parityPieces.toNat
  masterKey := some (String.ofList ((Base64.encode d.masterKey).map Char.ofUInt8))
  keyType := some <|
    match CipherKind.specifierOfName? d.masterKeyType with
    | some spec => .specifier spec
    | none => .name d.masterKeyType
  skylinks := some d.skylinks

/-- where the host table begins: the first page behind the header, however wide its offsets are -/
def tableStart (d : Descriptor) : Nat :=
  let widest := (header d (Header.bound63 - 1) (Header.bound63 - 1)).render.length
  (widest + 1 + page - 1) / page * page

def chunkStart (d : Descriptor) : Nat := tableStart d + d.hosts.length * HostTable.entrySize

def records (hosts : List HostKey) (i : Nat) : List Chunk → Except EncodeError (List Bytes)
  | [] => .ok []
  | c :: r =>
    if ChunkRecord.maxRefs < c.refs.length then .error (.tooManyRefs i c.refs.length)
    else
      match records hosts (i + 1) r with
      | .error e => .error e
      | .ok rs => .ok (ChunkRecord.render hosts c :: rs)

/-- an offset that lies within a descriptor of `length` bytes -/
def offset (what : String) (length : Nat) (n : Int) : Except DecodeError Nat :=
  if 0 ≤ n ∧ n.toNat ≤ length then .ok n.toNat else .error (.offsetOutside what n length)

def masterKey (h : Header) : Except DecodeError Bytes :=
  match h.masterKey with
  | none => .ok []
  | some s =>
    match Base64.decode (utf8 s) with
    | none => .error .masterKey
    | some b => .ok b

def masterKeyType (h : Header) : Except DecodeError String :=
  match h.keyType with
  | none => .ok CipherKind.plaintext.name
  | some (.name s) => .ok s
  | some (.specifier spec) =>
    match CipherKind.nameOfSpecifier? spec with
    | none => .error (.cipherSpecifier spec)
    | some s => .ok s

/-- the numbers of data and parity pieces of a header, and its type tag, as far as they make sense -/
def parameters (h : Header) : Except DecodeError (UInt32 × UInt32 × UInt32) :=
  let tag := Bytes.beNat h.erasureType
  match ErasureKind.ofTag tag with
  | .error _ => .error (.unsupportedErasureType tag)
  | .ok kind =>
    let data := Bytes.leNat (h.erasureParams.take 4)
    let parity := Bytes.leNat (h.erasureParams.drop 4)
    if data = 0 then .error .noDataPieces
    else if h.pieceSize = 0 then .error .emptyPieces
    else .ok (UInt32.ofNat kind.tag, UInt32.ofNat data, UInt32.ofNat parity)

/-- the hosts of a descriptor and where its chunk records begin -/
def tables (h : Header) (b : Bytes) : Except DecodeError (List (Option HostKey) × Bytes) :=
  match offset "host table offset" b.length h.tableOffset with
  | .error e => .error e
  | .ok table =>
    match offset "chunk table offset" b.length h.chunkOffset with
    | .error e => .error e
    | .ok chunks =>
      if chunks < table then .error .tablesReversed
      else
        match HostTable.read ((b.drop table).take (chunks - table)) with
        | .error e => .error e
        | .ok hosts => .ok (hosts, b.drop chunks)

end Image

namespace Descriptor

def toImage (d : Descriptor) : Except EncodeError Bytes :=
  match d.validate with
  | .error e => .error (.invalid e)
  | .ok _ =>
    match Image.records d.hosts 0 d.chunks with
    | .error e => .error e
    | .ok records =>
      let line := (Image.header d (Image.tableStart d) (Image.chunkStart d)).render ++ [10]
      .ok (Bytes.fit (Image.tableStart d) line ++ HostTable.render d.hosts ++ records.flatten)

def ofImage (b : Bytes) : Except DecodeError Descriptor := do
  let h ← Header.read b
  let (tag, data, parity) ← Image.parameters h
  let (hosts, table) ← Image.tables h b
  let masterKey ← Image.masterKey h
  let masterKeyType ← Image.masterKeyType h
  let d : Descriptor :=
    { fileSize := UInt64.ofNat h.fileSize, pieceSize := UInt64.ofNat h.pieceSize, encoderType := tag,
      dataPieces := data, parityPieces := parity, masterKey, masterKeyType,
      skylinks := h.skylinks.getD [], chunks := [] }
  let _ ← d.checkErasure
  let _ ← d.checkedChunkSize
  let chunks ← ChunkRecord.readAll hosts d.numPieces d.expectedChunks 0 d.expectedChunks table
  return { d with chunks }

end Descriptor

end Reclaim

import Reclaim.Descriptor.Basic
import Reclaim.Json.Parser
import Reclaim.Json.Printer
import Reclaim.Json.Record
import Reclaim.Text.Base64

/-!
# Topology documents

The portable form of a descriptor is a JSON document.  Its fields have one name each when written;
when read they also go by the lower-case names of older exports.

* `Descriptor.toTopology` the document of a descriptor;
* `Descriptor.readTopology` the descriptor of a document, as it stands there;
* `Descriptor.ofTopology` the same, if it can be used.
-/

namespace Reclaim

namespace Topology

/-- the first number that 32 bits do not hold -/
def bound32 : Nat := 4294967296

/-! ## writing -/

def ofRef (r : SectorRef) : Json :=
  Json.ofMembers [("merkleRoot", Json.ofHash r.root), ("hostKey", Json.ofHost r.host)]

def ofChunk (c : Chunk) : Json :=
  Json.ofMembers [("pieces", .array (c.slots.map fun slot => .array (slot.map ofRef)))]

def ofDescriptor (d : Descriptor) : Json :=
  Json.ofMembers
    [("fileSize", Json.ofNat d.fileSize.toNat), ("pieceSize", Json.ofNat d.pieceSize.toNat),
     ("encoderType", Json.ofNat d.encoderType.toNat), ("dataPieces", Json.ofNat d.dataPieces.toNat),
     ("parityPieces", Json.ofNat d.parityPieces.toNat),
     ("masterKey", Json.ofDigits (Base64.encode d.masterKey)),
     ("masterKeyType", Json.ofText d.masterKeyType),
     ("skylinks", .array (d.skylinks.map Json.ofText)), ("chunks", .array (d.chunks.map ofChunk))]

/-! ## reading -/

/-- the bytes a string spells, or none for `null` -/
def keyBytes? (v : Json) : Option Bytes :=
  match Json.nullable? Json.text? v with
  | none => none
  | some none => some []
  | some (some s) => Base64.decode (utf8 s)

/-- a list, which `null` leaves empty -/
def listOrNull? {α : Type} (f : Json → Option α) (v : Json) : Option (List α) :=
  (Json.nullable? (Json.list? f) v).map fun l => l.getD []

def refFields : Json.FieldNames := [["merkleRoot", "MerkleRoot"], ["hostKey", "HostKey"]]

def ref? (v : Json) : Option SectorRef :=
  match Json.record? refFields v with
  | some [root, host] =>
    match Json.required? Json.hash? root, Json.required? Json.hostKey? host with
    | some root, some host => some ⟨root, host⟩
    | _, _ => none
  | _ => none

def chunkFields : Json.FieldNames := [["pieces", "Pieces"]]

def chunk? (v : Json) : Option Chunk :=
  match Json.record? chunkFields v with
  | some [pieces] => (Json.optional? [] (listOrNull? (listOrNull? ref?)) pieces).map Chunk.mk
  | _ => none

def descriptorFields : Json.FieldNames :=
  [["fileSize", "filesize"], ["pieceSize", "piecesize"], ["encoderType", "encodertype"],
   ["dataPieces", "datapieces"], ["parityPieces", "paritypieces"], ["masterKey", "masterkey"],
   ["masterKeyType", "masterkeytype"], ["skylinks"], ["chunks"]]

def descriptor? (v : Json) : Option Descriptor := do
  match ← Json.record? descriptorFields v with
  | [fileSize, pieceSize, encoderType, dataPieces, parityPieces, masterKey, masterKeyType, skylinks,
      chunks] =>
    let fileSize ← Json.required? (Json.nat? bound64) fileSize
    let pieceSize ← Json.required? (Json.nat? bound64) pieceSize
    let encoderType ← Json.required? (Json.nat? bound32) encoderType
    let dataPieces ← Json.required? (Json.nat? bound32) dataPieces
    let parityPieces ← Json.required? (Json.nat? bound32) parityPieces
    let masterKey ← Json.optional? [] keyBytes? masterKey
    let masterKeyType ← Json.optional? CipherKind.plaintext.name Json.text? masterKeyType
    let skylinks ← Json.optional? [] (listOrNull? Json.text?) skylinks
    let chunks ← Json.optional? [] (listOrNull? chunk?) chunks
    some
      { fileSize := UInt64.ofNat fileSize, pieceSize := UInt64.ofNat pieceSize,
        encoderType := UInt32.ofNat encoderType, dataPieces := UInt32.ofNat dataPieces,
        parityPieces := UInt32.ofNat parityPieces, masterKey, masterKeyType, skylinks, chunks }
  | _ => none

end Topology

namespace Descriptor

def toTopology (d : Descriptor) : Bytes := (Topology.ofDescriptor d).pretty

/-- the descriptor a document spells, whether it can be used or not -/
def readTopology (b : Bytes) : Except DecodeError Descriptor :=
  match (Json.parse b).bind Topology.descriptor? with
  | none => .error .json
  | some d => .ok d

/-- the descriptor a document spells, if it can be used -/
def ofTopology (b : Bytes) : Except DecodeError Descriptor :=
  match readTopology b with
  | .error e => .error e
  | .ok d =>
    match d.validate with
    | .error e => .error e
    | .ok _ => .ok d

end Descriptor

end Reclaim

import Reclaim.Descriptor.Topology

/-!
# The header of a descriptor on disk

A descriptor on disk begins with a JSON object, written on one line, that gives the sizes, the
coding parameters, the key and the places of the two tables behind it.  Anything may follow the
object.

* `Header.render` the line without its end;
* `Header.read` the header at the front of a byte string.
-/

namespace Reclaim

/-- the cipher of a header: by name, or by specifier -/
inductive KeyType where
  | name (s : String)
  | specifier (spec : Bytes)
deriving DecidableEq

/-- the fields of a header as they are spelled -/
structure Header where
  fileSize : Nat
  pieceSize : Nat
  tableOffset : Int
  chunkOffset : Int
  erasureType : Bytes
  erasureParams : Bytes
  masterKey : Option String
  keyType : Option KeyType
  skylinks : Option (List String)
deriving DecidableEq

namespace Header

/-! ## writing -/

def ofByte (x : UInt8) : Json := Json.ofNat x.toNat

def ofInt (n : Int) : Json :=
  match n with
  | .ofNat n => Json.ofNat n
  | .negSucc n => .number (45 :: Json.decimal (n + 1))

def ofKeyType : KeyType → Json
  | .name s => Json.ofText s
  | .specifier spec => .array (spec.map ofByte)

/-- what may be missing, as `null` if it is -/
def ofOption {α : Type} (f : α → Json) : Option α → Json
  | none => .null
  | some a => f a

def toJson (h : Header) : Json :=
  Json.ofMembers
    [("filesize", Json.ofNat h.fileSize), ("piecesize", Json.ofNat h.pieceSize),
     ("pubkeytableoffset", ofInt h.tableOffset), ("chunkoffset", ofInt h.chunkOffset),
     ("erasurecodetype", .array (h.erasureType.map ofByte)),
     ("erasurecodeparams", .array (h.erasureParams.map ofByte)),
     ("masterkey", ofOption Json.ofText h.masterKey), ("masterkeytype", ofOption ofKeyType h.keyType),
     ("skylinks", ofOption (fun l => .array (l.map Json.ofText)) h.skylinks)]

def render (h : Header) : Bytes := h.toJson.compact

/-! ## reading -/

/-- the first number above what a signed 64-bit word holds -/
def bound63 : Nat := 9223372036854775808

/-- exactly `n` numbers below 256 -/
def bytes? (n : Nat) (v : Json) : Option Bytes :=
  match Json.list? (Json.nat? 256) v with
  | none => none
  | some l => if l.length = n then some (l.map UInt8.ofNat) else none

/-- a string is a name, an array a specifier -/
def keyType? (v : Json) : Option KeyType :=
  match v.text? with
  | some s => some (.name s)
  | none => (bytes? 8 v).map .specifier

def fields : Json.FieldNames :=
  [["filesize"], ["piecesize"], ["pubkeytableoffset"], ["chunkoffset"], ["erasurecodetype"],
   ["erasurecodeparams"], ["masterkey"], ["masterkeytype"], ["skylinks"]]

def ofJson? (v : Json) : Option Header := do
  match ← Json.record? fields v with
  | [fileSize, pieceSize, tableOffset, chunkOffset, erasureType, erasureParams, masterKey, keyType,
      skylinks] =>
    let fileSize ← Json.required? (Json.nat? bound64) fileSize
    let pieceSize ← Json.required? (Json.nat? bound64) pieceSize
    let tableOffset ← Json.required? (Json.int? bound63) tableOffset
    let chunkOffset ← Json.required? (Json.int? bound63) chunkOffset
    let erasureType ← Json.required? (bytes? 4) erasureType
    let erasureParams ← Json.required? (bytes? 8) erasureParams
    let masterKey ← Json.optional? none (Json.nullable? Json.text?) masterKey
    let keyType ← Json.optional? none (Json.nullable? keyType?) keyType
    let skylinks ← Json.optional? none (Json.nullable? (Json.list? Json.text?)) skylinks
    some
      { fileSize, pieceSize, tableOffset, chunkOffset, erasureType, erasureParams, masterKey, keyType,
        skylinks }
  | _ => none

/-- the header at the front of a byte string -/
def read (b : Bytes) : Except DecodeError Header :=
  if (Json.blank b).isEmpty then .error .emptyDescriptor
  else
    match Json.parseFront b with
    | none => .error .header
    | some (v, _) =>
      match ofJson? v with
      | none => .error .header
      | some h => .ok h

end Header

end Reclaim

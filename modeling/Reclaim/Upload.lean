import Reclaim.Descriptor.Image
import Reclaim.Hash.Blake3
import Reclaim.Merkle.Frontier

/-!
# Uploading a file

A file is stored by cutting it into chunks, coding each chunk into pieces, encrypting the pieces,
and handing each of them as one sector to the next host in turn.  The hosts and the master key are
made from plain texts, so that the same file always gives the same upload.

* `upload` the descriptor of the stored file and where each sector went.
-/

namespace Reclaim

namespace Upload

def host (i : Nat) : HostKey :=
  HostKey.ofBytes (Blake3.hash (utf8 s!"salvage test host {i}")).bytes

structure Spec where
  kind : ErasureKind
  data : Nat
  parity : Nat
  pieceSize : Nat
  sectorSize : Nat
  cipher : CipherKind
  hosts : Nat

structure Placement where
  chunk : Nat
  piece : Nat
  host : HostKey
  root : Hash256
  sector : Bytes

structure Stored where
  descriptor : Descriptor
  hosts : List HostKey
  placements : List Placement
  data : Bytes

/-- where piece `piece` of chunk `chunk` is stored -/
def Stored.placement? (s : Stored) (chunk piece : Nat) : Option Placement :=
  s.placements[chunk * s.descriptor.numPieces + piece]?

/-- the master key of a file of the given length -/
def masterKey (cipher : CipherKind) (length : Nat) : Bytes :=
  match cipher with
  | .plaintext => []
  | .xchacha20 =>
    Blake3.output (utf8 "salvage fixture master key" ++ Bytes.le 8 length) masterKeySize

inductive Error where
  | erasure (e : ErasureError)
  | cipher (e : CipherError)
  /-- 64 bits do not hold the sizes -/
  | tooLarge

/-- the sector that holds a piece: encrypted and filled up -/
def sector (spec : Spec) (key : MasterKey) (chunk piece : Nat) (b : Bytes) : Bytes :=
  let b := (key.derive chunk piece).crypt b
  b.fit (max spec.sectorSize b.length)

/-- the sectors of chunk number `chunk`, out of its pieces -/
def place (spec : Spec) (key : MasterKey) (hosts : List HostKey) (chunk : Nat)
    (pieces : List Bytes) : List Placement :=
  pieces.zipIdx.map fun t =>
    let b := sector spec key chunk t.2 t.1
    ⟨chunk, t.2, hosts.getD ((chunk * pieces.length + t.2) % hosts.length) default, sectorRoot b, b⟩

/-- the sectors of all chunks of `data` from number `chunk` on -/
def placeAll (spec : Spec) (coder : Coder) (key : MasterKey) (hosts : List HostKey)
    (chunk : Nat) : List Bytes → Except ErasureError (List (List Placement))
  | [] => .ok []
  | b :: r =>
    match coder.encode b spec.pieceSize with
    | .error e => .error e
    | .ok pieces =>
      match placeAll spec coder key hosts (chunk + 1) r with
      | .error e => .error e
      | .ok ps => .ok (place spec key hosts chunk pieces :: ps)

/-- the data of each chunk; an empty file has one chunk without data -/
def cut (chunkSize : Nat) (data : Bytes) : List Bytes :=
  match data with
  | [] => [[]]
  | _ => Bytes.segments chunkSize data

/-- the hosts that sectors go to -/
def hostList (spec : Spec) : List HostKey := (List.range (max spec.hosts 1)).map host

/-- the claims about a chunk: one host for each of its sectors -/
def claims (ps : List Placement) : Chunk := ⟨ps.map fun p => [⟨p.root, p.host⟩]⟩

/-- the descriptor of a file whose sectors went to the given places -/
def describe (spec : Spec) (data : Bytes) (placements : List (List Placement)) : Descriptor :=
  { fileSize := UInt64.ofNat data.length, pieceSize := UInt64.ofNat spec.pieceSize,
    encoderType := UInt32.ofNat spec.kind.tag, dataPieces := UInt32.ofNat spec.data,
    parityPieces := UInt32.ofNat spec.parity, masterKey := masterKey spec.cipher data.length,
    masterKeyType := spec.cipher.name, skylinks := [], chunks := placements.map claims }

end Upload

open Upload in
def upload (spec : Spec) (data : Bytes) : Except Upload.Error Stored :=
  match Coder.make spec.kind spec.data spec.parity with
  | .error e => .error (.erasure e)
  | .ok coder =>
    match MasterKey.make spec.cipher (Upload.masterKey spec.cipher data.length) with
    | .error e => .error (.cipher e)
    | .ok key =>
      if bound64 ≤ spec.pieceSize * spec.data ∨ bound64 ≤ data.length then .error .tooLarge
      else
        match placeAll spec coder key (hostList spec) 0 (cut (spec.pieceSize * spec.data) data) with
        | .error e => .error (.erasure e)
        | .ok placements =>
          .ok ⟨describe spec data placements, hostList spec, placements.flatten, data⟩

end Reclaim

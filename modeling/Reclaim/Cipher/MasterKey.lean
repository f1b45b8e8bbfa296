import Reclaim.Cipher.Kind
import Reclaim.Cipher.XChaCha
import Reclaim.Hash.Blake2b

/-!
# Piece keys

Every piece is encrypted under a key of its own, made from the file's master key and the piece's
chunk and piece number; the nonce of the master key serves for all pieces.
-/

namespace Reclaim

inductive MasterKey where
  | plaintext
  | xchacha20 (key : Bytes) (length_eq : key.length = masterKeySize)
deriving DecidableEq

inductive PieceKey where
  | plaintext
  | xchacha20 (key nonce : Bytes)
deriving DecidableEq

namespace MasterKey

/-- the master key of a cipher; plaintext needs none and takes any -/
def make (kind : CipherKind) (key : Bytes) : Except CipherError MasterKey :=
  match kind with
  | .plaintext => .ok .plaintext
  | .xchacha20 =>
    if h : key.length = masterKeySize then .ok (.xchacha20 key h) else .error (.keyLength key.length)

/-- the master key of a cipher given by name -/
def ofName (name : String) (key : Bytes) : Except CipherError MasterKey :=
  match CipherKind.ofName name with
  | .error e => .error e
  | .ok kind => make kind key

def kind : MasterKey → CipherKind
  | .plaintext => .plaintext
  | .xchacha20 _ _ => .xchacha20

/-- a description that keeps the key to itself -/
def describe (k : MasterKey) : String :=
  "MasterKey \x7b kind: " ++ k.kind.describe ++ ", .. \x7d"

/-- the key of piece `piece` of chunk `chunk` -/
def derive (k : MasterKey) (chunk piece : Nat) : PieceKey :=
  match k with
  | .plaintext => .plaintext
  | .xchacha20 key _ =>
    .xchacha20 (Blake2b.hash (key ++ Bytes.le 8 chunk ++ Bytes.le 8 piece)).bytes (key.drop 32)

end MasterKey

/-- encrypt or decrypt the bytes of a piece: the two are the same -/
def PieceKey.crypt (k : PieceKey) (buf : Bytes) : Bytes :=
  match k with
  | .plaintext => buf
  | .xchacha20 key nonce => XChaCha.crypt key nonce buf

end Reclaim

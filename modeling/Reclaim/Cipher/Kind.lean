import Reclaim.Text.Quoted
import Reclaim.Bytes

/-!
# Cipher types

A descriptor names its cipher by a word; the header on disk prefers a specifier of eight bytes,
seven zeros and a number.  Two of the four known ciphers are supported.
-/

namespace Reclaim

inductive CipherError where
  | unsupported (name : String)
  | keyLength (got : Nat)
deriving DecidableEq, Repr

/-- the length of an XChaCha20 master key: a key of 32 bytes and a nonce of 24 -/
def masterKeySize : Nat := 56

def CipherError.message : CipherError → String
  | .unsupported name => "unsupported cipher type " ++ Quoted.string name
  | .keyLength got => s!"xchacha20 keys are {masterKeySize} bytes, got {got}"

inductive CipherKind where
  | plaintext
  | xchacha20
deriving DecidableEq, Repr

namespace CipherKind

def name : CipherKind → String
  | .plaintext => "plaintext"
  | .xchacha20 => "xchacha20"

/-- how a cipher shows up inside a description of a larger value -/
def describe : CipherKind → String
  | .plaintext => "Plaintext"
  | .xchacha20 => "XChaCha20"

def ofName (s : String) : Except CipherError CipherKind :=
  if s = "plaintext" then .ok .plaintext
  else if s = "xchacha20" then .ok .xchacha20
  else .error (.unsupported s)

/-- the known names and their numbers, supported or not -/
def specifiers : List (String × UInt8) :=
  [("plaintext", 1), ("twofish-gcm", 2), ("threefish", 3), ("xchacha20", 4)]

def nameOfSpecifier? (spec : Bytes) : Option String :=
  match spec with
  | [0, 0, 0, 0, 0, 0, 0, n] => (specifiers.find? fun s => s.2 = n).map Prod.fst
  | _ => none

def specifierOfName? (s : String) : Option Bytes :=
  (specifiers.find? fun t => t.1 = s).map fun t => [0, 0, 0, 0, 0, 0, 0, t.2]

theorem ofName_name (k : CipherKind) : ofName k.name = .ok k := by
  cases k <;> rfl

end CipherKind

end Reclaim

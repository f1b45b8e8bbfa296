import Reclaim.Text.Hex
import Reclaim.Text.Quoted
import Reclaim.Text.Lossy

/-!
# Content hashes and host keys

Both are strings of 32 bytes.  A hash is written as 64 lower-case digits and read with or without
the old mark `h:` in front; a host key is written as `ed25519:` and its digits, and read with or
without the algorithm.

Both kinds are ordered by their bytes, first difference first.
-/

namespace Reclaim

inductive KeyError where
  | hex (e : Hex.Error)
  | length (got : Nat)
  | algorithm (text : String)
deriving DecidableEq, Repr

namespace KeyError

/-- the wording of the two ways in which a text is no hexadecimal byte string -/
def hexMessage : Hex.Error → String
  | .oddLength => "Odd number of digits"
  | .badDigit c i => s!"Invalid character {Quoted.char (Char.ofUInt8 c)} at position {i}"

def message : KeyError → String
  | .hex e => "invalid hex: " ++ hexMessage e
  | .length got => s!"expected 32 bytes, got {got}"
  | .algorithm t => "unsupported key algorithm in " ++ Quoted.string t

end KeyError

/-- the 32 bytes spelled by 64 digits -/
def parse32 (s : Bytes) : Except KeyError { b : Bytes // b.length = 32 } :=
  match Hex.decode s with
  | .error e => .error (.hex e)
  | .ok b => if h : b.length = 32 then .ok ⟨b, h⟩ else .error (.length b.length)

/-! ## hashes -/

/-- a 256-bit content hash: the root of a sector, or the name of a contract -/
structure Hash256 where
  bytes : Bytes
  length_eq : bytes.length = 32
deriving DecidableEq

namespace Hash256

/-- the first 32 bytes of a byte string that has as many, filled with zero bytes otherwise -/
def ofBytes (b : Bytes) : Hash256 := ⟨b.fit 32, Bytes.length_fit 32 b⟩

def zero : Hash256 := ofBytes []

instance : Inhabited Hash256 := ⟨zero⟩

def digits (h : Hash256) : Bytes := Hex.digits h.bytes

def text (h : Hash256) : String := Hex.text h.bytes

instance : ToString Hash256 := ⟨text⟩

/-- how a hash shows up inside a description of a larger value -/
def describe (h : Hash256) : String := s!"Hash256({h})"

/-- a hash without the old mark in front -/
def unmark : Bytes → Bytes
  | 104 :: 58 :: r => r
  | s => s

def parseBytes (s : Bytes) : Except KeyError Hash256 :=
  match parse32 (unmark s) with
  | .error e => .error e
  | .ok b => .ok ⟨b.1, b.2⟩

def parse (s : String) : Except KeyError Hash256 := parseBytes (utf8 s)

theorem ext {a b : Hash256} (h : a.bytes = b.bytes) : a = b := by
  cases a
  cases b
  cases h
  rfl

theorem ofBytes_bytes (h : Hash256) : ofBytes h.bytes = h :=
  ext (Bytes.fit_of_length_eq 32 h.bytes h.length_eq)

end Hash256

/-! ## host keys -/

/-- the identity of a host: an ed25519 public key -/
structure HostKey where
  bytes : Bytes
  length_eq : bytes.length = 32
deriving DecidableEq

namespace HostKey

def ofBytes (b : Bytes) : HostKey := ⟨b.fit 32, Bytes.length_fit 32 b⟩

instance : Inhabited HostKey := ⟨ofBytes []⟩

/-- the name of the only key algorithm, as bytes -/
def algorithm : Bytes := utf8 "ed25519"

/-- the bare digits, which also name a host's directory -/
def hex (k : HostKey) : String := Hex.text k.bytes

def digits (k : HostKey) : Bytes := algorithm ++ 58 :: Hex.digits k.bytes

def text (k : HostKey) : String := "ed25519:" ++ k.hex

instance : ToString HostKey := ⟨text⟩

/-- how a host key shows up inside a description of a larger value -/
def describe (k : HostKey) : String := s!"HostKey({k})"

def parseBytes (s : Bytes) : Except KeyError HostKey :=
  match s.span (· != 58) with
  | (_, []) => ofParse32 (parse32 s)
  | (a, _ :: r) => if a = algorithm then ofParse32 (parse32 r) else .error (.algorithm (Text.lossy s))
where
  ofParse32 : Except KeyError { b : Bytes // b.length = 32 } → Except KeyError HostKey
    | .error e => .error e
    | .ok b => .ok ⟨b.1, b.2⟩

def parse (s : String) : Except KeyError HostKey := parseBytes (utf8 s)

theorem ext {a b : HostKey} (h : a.bytes = b.bytes) : a = b := by
  cases a
  cases b
  cases h
  rfl

theorem ofBytes_bytes (k : HostKey) : ofBytes k.bytes = k :=
  ext (Bytes.fit_of_length_eq 32 k.bytes k.length_eq)

instance : LT HostKey := ⟨fun a b => a.bytes < b.bytes⟩

instance (a b : HostKey) : Decidable (a < b) := inferInstanceAs (Decidable (a.bytes < b.bytes))

instance : LE HostKey := ⟨fun a b => ¬ b < a⟩

instance (a b : HostKey) : Decidable (a ≤ b) := inferInstanceAs (Decidable (¬ b < a))

/-- a list of host keys in increasing order, repetitions kept -/
def sort (ks : List HostKey) : List HostKey := ks.mergeSort fun a b => decide (a ≤ b)

/-- an increasing list of host keys with `k` put in its place, unless it is there already -/
def insert (k : HostKey) : List HostKey → List HostKey
  | [] => [k]
  | a :: r => if k < a then k :: a :: r else if k = a then a :: r else a :: insert k r

/-- the distinct keys of a list in increasing order -/
def sortDistinct (ks : List HostKey) : List HostKey := ks.foldl (fun r k => insert k r) []

end HostKey

end Reclaim

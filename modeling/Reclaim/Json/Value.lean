import Reclaim.Text.Hex
import Reclaim.Text.Lossy

/-!
# JSON values

A value keeps its numbers and strings as they are spelled: a number as its literal, a string as
the bytes between its quotation marks.  What they mean is read off only where a document uses them,
so that a number of any size and a string of any bytes may stand where nobody looks.

* `escape`, `unescape` the two spellings of a byte string between quotation marks;
* `Json.text?`, `Json.nat?`, `Json.int?` the meanings.
-/

namespace Reclaim

/-- a JSON value as it is spelled -/
inductive Json where
  | null
  | bool (b : Bool)
  | number (literal : Bytes)
  | string (body : Bytes)
  | array (items : List Json)
  | object (members : List (Bytes × Json))
deriving Inhabited

namespace Json

/-! ## strings -/

/-- the characters that stand behind a backslash for one byte, with that byte -/
def shortEscapes : List (UInt8 × UInt8) :=
  [(34, 34), (92, 92), (47, 47), (98, 8), (102, 12), (110, 10), (114, 13), (116, 9)]

/-- how a byte is written between quotation marks: only marks, backslashes and control characters
are escaped -/
def escapeByte (c : UInt8) : Bytes :=
  if c = 34 then [92, 34]
  else if c = 92 then [92, 92]
  else if c = 8 then [92, 98]
  else if c = 12 then [92, 102]
  else if c = 10 then [92, 110]
  else if c = 13 then [92, 114]
  else if c = 9 then [92, 116]
  else if c < 32 then [92, 117, 48, 48, Hex.digit (c.toNat / 16), Hex.digit (c.toNat % 16)]
  else [c]

/-- a byte string as it stands between quotation marks -/
def escape (b : Bytes) : Bytes := b.flatMap escapeByte

def fourDigits? (a b c d : UInt8) : Option Nat :=
  match Hex.digitValue? a, Hex.digitValue? b, Hex.digitValue? c, Hex.digitValue? d with
  | some i, some j, some k, some l => some (((i * 16 + j) * 16 + k) * 16 + l)
  | _, _, _, _ => none

def codePoint (n : Nat) : Bytes := String.utf8EncodeChar (Char.ofNat n)

/-- the bytes meant by the body of a string; the halves of a surrogate pair must come together -/
def unescape : Bytes → Option Bytes
  | [] => some []
  | 92 :: 117 :: a :: b :: c :: d :: r =>
    match fourDigits? a b c d with
    | none => none
    | some n =>
      if 0xd800 ≤ n ∧ n < 0xdc00 then
        match r with
        | 92 :: 117 :: e :: f :: g :: h :: r' =>
          match fourDigits? e f g h with
          | none => none
          | some m =>
            if 0xdc00 ≤ m ∧ m < 0xe000 then
              (unescape r').map (codePoint (0x10000 + (n - 0xd800) * 0x400 + (m - 0xdc00)) ++ ·)
            else none
        | _ => none
      else if 0xdc00 ≤ n ∧ n < 0xe000 then none
      else (unescape r).map (codePoint n ++ ·)
  | 92 :: e :: r =>
    match shortEscapes.find? fun t => t.1 = e with
    | none => none
    | some t => (unescape r).map (t.2 :: ·)
  | c :: r => if c = 92 then none else (unescape r).map (c :: ·)

def bodyText? (body : Bytes) : Option String :=
  match unescape body with
  | none => none
  | some b => Text.text? b

def text? : Json → Option String
  | .string body => bodyText? body
  | _ => none

def ofText (s : String) : Json := .string (escape (utf8 s))

/-! ## integers -/

def decimal (n : Nat) : Bytes :=
  if n < 10 then [UInt8.ofNat (48 + n)] else decimal (n / 10) ++ [UInt8.ofNat (48 + n % 10)]

/-- the number that begins with the digits of `n` and goes on with the given ones -/
def digitsFrom? (n : Nat) : Bytes → Option Nat
  | [] => some n
  | c :: r => if 48 ≤ c ∧ c ≤ 57 then digitsFrom? (n * 10 + (c.toNat - 48)) r else none

/-- the number spelled by digits alone -/
def digitsValue? (b : Bytes) : Option Nat := if b.isEmpty then none else digitsFrom? 0 b

/-- a number literal without sign, point and exponent that stays below `bound` -/
def nat? (bound : Nat) : Json → Option Nat
  | .number literal =>
    match digitsValue? literal with
    | none => none
    | some n => if n < bound then some n else none
  | _ => none

/-- a number literal without point and exponent from `-bound` on and below `bound`; zero has no
sign -/
def int? (bound : Nat) : Json → Option Int
  | .number (45 :: digits) =>
    match digitsValue? digits with
    | none => none
    | some n => if 0 < n ∧ n ≤ bound then some (-(n : Int)) else none
  | v =>
    match nat? bound v with
    | none => none
    | some n => some (n : Int)

def ofNat (n : Nat) : Json := .number (decimal n)

/-! ## null and lists -/

def isNull : Json → Bool
  | .null => true
  | _ => false

def list? {α : Type} (f : Json → Option α) : Json → Option (List α)
  | .array items => items.mapM f
  | _ => none

/-- nothing for `null`, otherwise what `f` reads -/
def nullable? {α : Type} (f : Json → Option α) (v : Json) : Option (Option α) :=
  if v.isNull then some none else (f v).map some

end Json

end Reclaim

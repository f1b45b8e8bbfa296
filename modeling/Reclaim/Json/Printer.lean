import Reclaim.Json.Value

/-!
# Writing JSON

`compact` writes a value without any white space; `pretty` gives every element and member a line of
its own, two spaces further in than what it belongs to, and leaves empty arrays and objects closed.
-/

namespace Reclaim.Json

def quoted (body : Bytes) : Bytes := 34 :: (body ++ [34])

def nullWord : Bytes := [110, 117, 108, 108]

def boolWord : Bool → Bytes
  | true => [116, 114, 117, 101]
  | false => [102, 97, 108, 115, 101]

mutual

def compact : Json → Bytes
  | .null => nullWord
  | .bool b => boolWord b
  | .number literal => literal
  | .string body => quoted body
  | .array [] => [91, 93]
  | .array (v :: vs) => 91 :: (compact v ++ compactItems vs)
  | .object [] => [123, 125]
  | .object ((k, v) :: ms) => 123 :: (quoted k ++ 58 :: (compact v ++ compactMembers ms))

/-- further elements, each behind a comma, and the closing bracket -/
def compactItems : List Json → Bytes
  | [] => [93]
  | v :: vs => 44 :: (compact v ++ compactItems vs)

/-- further members, each behind a comma, and the closing brace -/
def compactMembers : List (Bytes × Json) → Bytes
  | [] => [125]
  | (k, v) :: ms => 44 :: (quoted k ++ 58 :: (compact v ++ compactMembers ms))

end

/-- a new line `n` steps in -/
def newLine (n : Nat) : Bytes := 10 :: List.replicate (2 * n) 32

mutual

/-- a value that begins `n` steps in, over several lines -/
def prettyAt (n : Nat) : Json → Bytes
  | .null => nullWord
  | .bool b => boolWord b
  | .number literal => literal
  | .string body => quoted body
  | .array [] => [91, 93]
  | .array (v :: vs) => 91 :: (newLine (n + 1) ++ (prettyAt (n + 1) v ++ prettyItems n vs))
  | .object [] => [123, 125]
  | .object ((k, v) :: ms) =>
    123 :: (newLine (n + 1) ++ (quoted k ++ 58 :: 32 :: (prettyAt (n + 1) v ++ prettyMembers n ms)))

/-- further elements, each behind a comma, and the closing bracket -/
def prettyItems (n : Nat) : List Json → Bytes
  | [] => newLine n ++ [93]
  | v :: vs => 44 :: (newLine (n + 1) ++ (prettyAt (n + 1) v ++ prettyItems n vs))

/-- further members, each behind a comma, and the closing brace -/
def prettyMembers (n : Nat) : List (Bytes × Json) → Bytes
  | [] => newLine n ++ [125]
  | (k, v) :: ms =>
    44 :: (newLine (n + 1) ++ (quoted k ++ 58 :: 32 :: (prettyAt (n + 1) v ++ prettyMembers n ms)))

end

def pretty (v : Json) : Bytes := prettyAt 0 v

def ofMembers (ms : List (String × Json)) : Json :=
  .object (ms.map fun m => (escape (utf8 m.1), m.2))

end Reclaim.Json

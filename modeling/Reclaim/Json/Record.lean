import Reclaim.Json.Value
import Reclaim.Key

/-!
# Records in JSON

A record is written as an object, whose members may come in any order and under any of their
accepted names, or as an array of its fields in order, from which fields at the end may be absent.
Members that no field knows are passed over; a field that is given twice is refused.

Hashes and host keys stand in strings, written with lower-case digits and read in all their
spellings.
-/

namespace Reclaim.Json

/-- the fields of a record in order, each with its accepted names -/
abbrev FieldNames := List (List String)

def fieldIndex? (fields : FieldNames) (name : String) : Option Nat :=
  fields.findIdx? fun names => names.contains name

/-- put a member's value at its field's place; a second value for a field is refused -/
def place? (fields : FieldNames) (found : List (Option Json)) (member : Bytes × Json) :
    Option (List (Option Json)) :=
  match bodyText? member.1 with
  | none => none
  | some name =>
    match fieldIndex? fields name with
    | none => some found
    | some i =>
      match found.getD i none with
      | some _ => none
      | none => some (found.set i (some member.2))

/-- the values of a record's fields, as far as they are given -/
def record? (fields : FieldNames) : Json → Option (List (Option Json))
  | .object members => members.foldlM (place? fields) (fields.map fun _ => none)
  | .array items =>
    if items.length ≤ fields.length then
      some (items.map some ++ List.replicate (fields.length - items.length) none)
    else none
  | _ => none

def required? {α : Type} (f : Json → Option α) : Option Json → Option α
  | none => none
  | some v => f v

def optional? {α : Type} (default : α) (f : Json → Option α) : Option Json → Option α
  | none => some default
  | some v => f v

/-! ## hashes and host keys -/

/-- digits between quotation marks; none of them needs an escape -/
def ofDigits (digits : Bytes) : Json := .string digits

def ofHash (h : Hash256) : Json := ofDigits h.digits

def ofHost (k : HostKey) : Json := ofDigits k.digits

def hash? (v : Json) : Option Hash256 :=
  match v.text? with
  | none => none
  | some s => (Hash256.parse s).toOption

def hostKey? (v : Json) : Option HostKey :=
  match v.text? with
  | none => none
  | some s => (HostKey.parse s).toOption

end Reclaim.Json

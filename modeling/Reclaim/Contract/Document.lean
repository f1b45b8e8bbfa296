import Reclaim.Descriptor.Basic
import Reclaim.Host.Network
import Reclaim.Json.Parser
import Reclaim.Json.Printer
import Reclaim.Json.Record

/-!
# Contract documents

The contracts that are held are kept in a JSON document, together with the key of whoever holds
them if that was ever put there.

* `Contracts.toDocument` the document;
* `Contracts.ofDocument?` the contracts of a document.
-/

namespace Reclaim

structure Contracts where
  /-- the key of the holder -/
  renterKey : Option String
  list : List Contract
deriving DecidableEq

namespace Contracts

def empty : Contracts := ⟨none, []⟩

/-! ## writing -/

def ofContract (c : Contract) : Json :=
  Json.ofMembers [("id", Json.ofHash c.id), ("hostKey", Json.ofHost c.host),
    ("expirationHeight", Json.ofNat c.expirationHeight.toNat)]

/-- contracts as a value; a holder without a key is not mentioned -/
def toJson (cs : Contracts) : Json :=
  let list := ("contracts", Json.array (cs.list.map ofContract))
  match cs.renterKey with
  | none => Json.ofMembers [list]
  | some k => Json.ofMembers [("renterKey", Json.ofText k), list]

def toDocument (cs : Contracts) : Bytes := cs.toJson.pretty

/-! ## reading -/

def contractFields : Json.FieldNames := [["id"], ["hostKey"], ["expirationHeight"]]

def contract? (v : Json) : Option Contract :=
  match Json.record? contractFields v with
  | some [id, host, height] =>
    match Json.required? Json.hash? id, Json.required? Json.hostKey? host,
      Json.required? (Json.nat? bound64) height with
    | some id, some host, some height => some ⟨id, host, UInt64.ofNat height⟩
    | _, _, _ => none
  | _ => none

def fields : Json.FieldNames := [["renterKey"], ["contracts"]]

def ofJson? (v : Json) : Option Contracts :=
  match Json.record? fields v with
  | some [key, list] =>
    match Json.optional? none (Json.nullable? Json.text?) key,
      Json.optional? [] (Json.list? contract?) list with
    | some key, some list => some ⟨key, list⟩
    | _, _ => none
  | _ => none

def ofDocument? (b : Bytes) : Option Contracts := (Json.parse b).bind ofJson?

end Contracts

end Reclaim

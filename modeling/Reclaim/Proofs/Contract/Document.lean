import Reclaim.Contract.Document
import Reclaim.Proofs.Json.Keys
import Reclaim.Proofs.Json.Pretty

/-!
# Contract documents there and back

* `contract?_ofContract`    a contract's value gives the contract back;
* `ofJson?_toJson`          so do the values of contracts with a holder's key and without one;
* `ofDocument?_toDocument`  and their document, which is written over several lines.
-/

namespace Reclaim.Contracts

open Json

theorem plain_ofContract (c : Contract) : Plain (ofContract c) := by
  refine plain_ofMembers ?_
  simp only [List.forall_mem_cons]
  exact ⟨plain_ofHash c.id, plain_ofHost c.host, plain_ofNat _,
    fun m hm => absurd hm List.not_mem_nil⟩

theorem contract?_ofContract (c : Contract) : contract? (ofContract c) = some c := by
  have hheight : nat? bound64 (Json.ofNat c.expirationHeight.toNat) =
      some c.expirationHeight.toNat := nat?_ofNat c.expirationHeight.toNat_lt
  rw [contract?, ofContract, record?_ofMembers (by decide) rfl]
  simp only [List.map_cons, List.map_nil, required?, hash?_ofHash, hostKey?_ofHost, hheight,
    UInt64.ofNat_toNat]

theorem plain_toJson (cs : Contracts) : Plain cs.toJson := by
  have hlist : Plain (.array (cs.list.map ofContract)) := plain_map plain_ofContract cs.list
  unfold toJson
  split
  · refine plain_ofMembers ?_
    simp only [List.forall_mem_cons]
    exact ⟨hlist, fun m hm => absurd hm List.not_mem_nil⟩
  · refine plain_ofMembers ?_
    simp only [List.forall_mem_cons]
    exact ⟨plain_ofText _, hlist, fun m hm => absurd hm List.not_mem_nil⟩

theorem ofJson?_toJson (cs : Contracts) : ofJson? cs.toJson = some cs := by
  have hlist : list? contract? (.array (cs.list.map ofContract)) = some cs.list :=
    list?_map_self contract?_ofContract cs.list
  obtain ⟨key, list⟩ := cs
  cases key with
  | none =>
    have hrecord : record? fields (ofMembers [("contracts", .array (list.map ofContract))]) =
        some [none, some (.array (list.map ofContract))] :=
      ((isObject_ofMembers _).record?_eq_some_iff (by decide)).2 rfl
    rw [ofJson?, toJson]
    simp only
    rw [hrecord]
    simp only [optional?, hlist]
  | some k =>
    have hkey : nullable? text? (ofText k) = some (some k) := by
      rw [nullable?, text?_ofText]
      rfl
    rw [ofJson?, toJson]
    simp only
    rw [record?_ofMembers (by decide) rfl]
    simp only [List.map_cons, List.map_nil, optional?, hlist, hkey]

/-- a document is read as the contracts it was written for -/
theorem ofDocument?_toDocument (cs : Contracts) : ofDocument? cs.toDocument = some cs := by
  have hparse := parse_pretty cs.plain_toJson white_nil
  rw [List.append_nil] at hparse
  rw [ofDocument?, toDocument, hparse]
  exact cs.ofJson?_toJson

end Reclaim.Contracts

import Mathlib.Data.List.Nodup
import Mathlib.Data.List.Perm.Subperm
import Reclaim.Contract.Store
import Reclaim.Proofs.Key

/-!
# One contract for each host

* `Increasing`      contracts in order of their hosts, one for each;
* `increasing_insertAll`, `increasing_without`, `increasing_unexpired`   it stays so;
* `with?_insertAll`   what is held with a host once more contracts are put in: the last of them;
* `sorted_unexpired_again`   contracts that were all kept once are listed as they are held.
-/

namespace Reclaim.Contracts

variable {a c : Contract} {l l' cs : List Contract} {k : HostKey}

/-! ## the order -/

/-- contracts in order of their hosts, one for each -/
def Increasing (l : List Contract) : Prop := l.Pairwise fun a b => a.host < b.host

theorem increasing_nil : Increasing [] := List.Pairwise.nil

theorem Increasing.nodup (h : Increasing l) : (l.map Contract.host).Nodup :=
  List.Pairwise.map _ (fun _ _ hab => HostKey.ne_of_lt hab) h

theorem mem_insertSorted (h : a ∈ insertSorted c l) : a = c ∨ a ∈ l := by
  induction l with
  | nil => exact .inl (List.mem_singleton.1 h)
  | cons e r ih =>
    rw [insertSorted] at h
    split at h
    · exact List.mem_cons.1 h
    · split at h
      · rcases List.mem_cons.1 h with rfl | h
        · exact .inl rfl
        · exact .inr (List.mem_cons_of_mem e h)
      · rcases List.mem_cons.1 h with rfl | h
        · exact .inr List.mem_cons_self
        · exact (ih h).imp_right (List.mem_cons_of_mem e)

theorem increasing_insertSorted (c : Contract) (h : Increasing l) :
    Increasing (insertSorted c l) := by
  induction l with
  | nil => exact List.pairwise_singleton _ c
  | cons e r ih =>
    obtain ⟨he, hr⟩ := List.pairwise_cons.1 h
    rw [insertSorted]
    split
    · next hlt =>
      refine List.pairwise_cons.2 ⟨fun x hx => ?_, h⟩
      rcases List.mem_cons.1 hx with rfl | hx
      · exact hlt
      · exact HostKey.lt_trans hlt (he x hx)
    split
    · next heq =>
      refine List.pairwise_cons.2 ⟨fun x hx => ?_, hr⟩
      rw [heq]
      exact he x hx
    · next hlt hne =>
      refine List.pairwise_cons.2 ⟨fun x hx => ?_, ih hr⟩
      rcases mem_insertSorted hx with rfl | hx
      · exact HostKey.lt_of_not_lt hlt hne
      · exact he x hx

/-- contracts put in one after the other -/
theorem increasing_insertAll (cs : List Contract) (h : Increasing l) :
    Increasing (cs.foldl (fun r c => insertSorted c r) l) := by
  induction cs generalizing l with
  | nil => exact h
  | cons c cs ih => exact ih (increasing_insertSorted c h)

theorem increasing_sorted (cs : List Contract) : Increasing (sorted cs) :=
  increasing_insertAll cs increasing_nil

theorem increasing_without (k : HostKey) (h : Increasing l) : Increasing (without l k) :=
  h.filter _

theorem increasing_unexpired (height : UInt64) (h : Increasing l) :
    Increasing (unexpired height l) := h.filter _

/-! ## what is held -/

/-- the last of the contracts with a host that were put in, or what was held before -/
theorem with?_insertAll (cs l : List Contract) (k : HostKey) :
    with? (cs.foldl (fun r c => insertSorted c r) l) k =
      ((cs.filter fun c => c.host = k).getLast?).or (with? l k) := by
  induction cs generalizing l with
  | nil => rfl
  | cons c cs ih =>
    rw [List.foldl_cons, ih]
    by_cases hc : c.host = k
    · rw [List.filter_cons_of_pos (by simpa using hc), List.getLast?_cons, ← hc,
        with?_insertSorted_self]
      cases (cs.filter fun e => e.host = c.host).getLast? <;> rfl
    · rw [List.filter_cons_of_neg (by simpa using hc),
        with?_insertSorted_ne c l k fun e => hc e.symm]

theorem with?_sorted (cs : List Contract) (k : HostKey) :
    with? (sorted cs) k = (cs.filter fun c => c.host = k).getLast? := by
  rw [sorted, with?_insertAll]
  exact Option.or_none

theorem with?_without (cs : List Contract) (k j : HostKey) :
    with? (without cs k) j = if j = k then none else with? cs j := by
  split
  · next h =>
    rw [h]
    exact with?_without_self cs k
  · next h => exact with?_without_ne cs k j h

/-! ## lists without repetitions -/

theorem insertSorted_perm (h : c.host ∉ l.map Contract.host) : (insertSorted c l).Perm (c :: l) := by
  induction l with
  | nil => exact .refl _
  | cons e r ih =>
    rw [List.map_cons, List.mem_cons, not_or] at h
    rw [insertSorted]
    split
    · exact .refl _
    · rw [if_neg h.1]
      exact ((ih h.2).cons e).trans (.swap c e r)

theorem insertAll_perm (h : ((cs ++ l).map Contract.host).Nodup) :
    (cs.foldl (fun r c => insertSorted c r) l).Perm (cs ++ l) := by
  induction cs generalizing l with
  | nil => exact .refl _
  | cons c cs ih =>
    have hmiddle : (cs ++ insertSorted c l).Perm (c :: cs ++ l) := by
      have hc : c.host ∉ l.map Contract.host := by
        intro hmem
        rw [List.cons_append, List.map_cons, List.nodup_cons, List.map_append] at h
        exact h.1 (List.mem_append_right _ hmem)
      exact ((insertSorted_perm hc).append_left cs).trans List.perm_middle
    rw [List.foldl_cons]
    refine (ih ?_).trans hmiddle
    exact ((hmiddle.map Contract.host).nodup_iff).2 h

theorem sorted_perm (h : (cs.map Contract.host).Nodup) : (sorted cs).Perm cs := by
  have hperm : (sorted cs).Perm (cs ++ []) := insertAll_perm (by rwa [List.append_nil])
  rwa [List.append_nil] at hperm

theorem Increasing.eq_of_perm (h : Increasing l) (h' : Increasing l') (hp : l.Perm l') :
    l = l' := by
  refine hp.eq_of_pairwise ?_ h h'
  intro a b _ _ hab hba
  exact absurd rfl (HostKey.ne_of_lt (HostKey.lt_trans hab hba))

theorem sorted_eq_self (h : Increasing l) : sorted l = l :=
  (increasing_sorted l).eq_of_perm h (sorted_perm h.nodup)

theorem sorted_unexpired (height : UInt64) (h : (cs.map Contract.host).Nodup) :
    sorted (unexpired height cs) = unexpired height (sorted cs) := by
  have hdropped : ((unexpired height cs).map Contract.host).Nodup :=
    h.sublist (List.filter_sublist.map _)
  refine (increasing_sorted _).eq_of_perm (increasing_unexpired height (increasing_sorted cs)) ?_
  exact (sorted_perm hdropped).trans ((sorted_perm h).filter _).symm

/-! ## lists that were all kept -/

theorem mem_insertAll (h : a ∈ cs.foldl (fun r c => insertSorted c r) l) : a ∈ cs ∨ a ∈ l := by
  induction cs generalizing l with
  | nil => exact .inr h
  | cons c cs ih =>
    rcases ih h with hmem | hmem
    · exact .inl (List.mem_cons_of_mem c hmem)
    · rcases mem_insertSorted hmem with rfl | hmem
      · exact .inl List.mem_cons_self
      · exact .inr hmem

theorem mem_sorted (h : a ∈ sorted cs) : a ∈ cs := (mem_insertAll h).resolve_right List.not_mem_nil

theorem hosts_sorted_subperm (cs : List Contract) :
    ((sorted cs).map Contract.host).Subperm (cs.map Contract.host) :=
  (increasing_sorted cs).nodup.subperm (List.map_subset _ fun _ h => mem_sorted h)

/-- if as many are held as were listed, then none had expired and no host had two -/
theorem kept_all {height : UInt64} (h : cs.length ≤ (sorted (unexpired height cs)).length) :
    unexpired height cs = cs ∧ (cs.map Contract.host).Nodup := by
  have hsub := hosts_sorted_subperm (unexpired height cs)
  have hle := hsub.length_le
  rw [List.length_map, List.length_map] at hle
  have hall : unexpired height cs = cs :=
    List.filter_sublist.eq_of_length_le (Nat.le_trans h hle)
  rw [hall] at h hsub
  refine ⟨hall, ?_⟩
  have hperm := hsub.perm_of_length_le (by rwa [List.length_map, List.length_map])
  exact hperm.nodup_iff.1 (increasing_sorted cs).nodup

/-- contracts that were all kept once are listed as they are held -/
theorem sorted_unexpired_again {height : UInt64}
    (h : cs.length ≤ (sorted (unexpired height cs)).length) (later : UInt64) :
    sorted (unexpired later cs) = unexpired later (sorted (unexpired height cs)) := by
  obtain ⟨hall, hnodup⟩ := kept_all h
  rw [hall, sorted_unexpired later hnodup]

end Reclaim.Contracts

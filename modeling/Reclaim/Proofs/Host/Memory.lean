import Reclaim.Host.Memory
import Reclaim.Proofs.Host.Static

/-!
# Hosts in memory always answer the same

* `Memory.tells`    what a host in memory says of a sector;
* `Memory.static`   it says so whenever it is asked.
-/

namespace Reclaim.Memory

/-- what a host in memory says of a sector -/
def tells (c : Settings) (h : Hosts) (host : HostKey) (root : Hash256) : Verdict :=
  match h.behaviorOf host with
  | .offline => .nothing
  | .stall => .nothing
  | .contractMissing => .denies
  | _ => c.verdict root (read host [Exchange.wholeSector c root] 0 h).1.result

/-! ## what stays the same -/

/-- hosts that store the same sectors and behave in the same way -/
structure Alike (h s : Hosts) : Prop where
  sectors : s.sectors = h.sectors
  behavior : s.behavior = h.behavior

section
variable {h s s' : Hosts} {host : HostKey} {root : Hash256} {c : Settings}

theorem Alike.behaviorOf (a : Alike h s) (host : HostKey) :
    s.behaviorOf host = h.behaviorOf host := by
  rw [Hosts.behaviorOf, a.behavior, Hosts.behaviorOf]

theorem Alike.read (a : Alike h s) (host : HostKey) (sections : List ReadSection) (cost : Nat) :
    (Memory.read host sections cost s).1 = (Memory.read host sections 0 h).1 := by
  unfold Memory.read
  simp only [a.behaviorOf, served, a.sectors]

theorem alike_of_reach {gone : HostKey → Prop} (hr : network.Reach gone h s) : Alike h s := by
  induction hr with
  | refl => exact ⟨rfl, rfl⟩
  | dial s host _ ih => exact ⟨ih.sectors, ih.behavior⟩
  | settings s host _ ih => exact ih
  | read s host parts cost _ ih => exact ⟨ih.sectors, ih.behavior⟩
  | remove s host _ _ ih => exact ⟨ih.sectors, ih.behavior⟩

theorem contracts_of_asked (hr : network.Asked s s') : s'.contracts = s.contracts := by
  induction hr with
  | refl => rfl
  | dial s host _ ih => exact ih
  | settings s host _ ih => exact ih
  | read s host parts cost _ ih => exact ih
  | remove s host hg _ ih => exact hg.elim

theorem contract?_isSome_iff : (network.contract? s host).isSome = true ↔ host ∈ s.contracts := by
  show (contract? s host).isSome = true ↔ _
  rw [contract?, ← List.contains_iff_mem]
  split
  · next hc => exact ⟨fun _ => hc, fun _ => rfl⟩
  · next hc => exact ⟨fun h' => (by cases h'), fun h' => absurd h' hc⟩

theorem mem_contracts_remove {k : HostKey} :
    k ∈ (network.removeContract host s).2.contracts ↔ k ∈ s.contracts ∧ k ≠ host := by
  show k ∈ s.contracts.filter (· ≠ host) ↔ _
  rw [List.mem_filter, decide_eq_true_iff]

/-! ## what is said -/

theorem dial_offline (hc : host ∈ s.contracts) (hb : s.behaviorOf host = .offline) :
    ∃ e, (network.dial host s).1 = ⟨some 0, .error e⟩ ∧ (classify e).verdict = .nothing := by
  refine ⟨.transport s!"dial {host}: connection refused", ?_, rfl⟩
  show (Memory.dial host s).1 = _
  unfold Memory.dial
  simp only [List.contains_iff_mem.2 hc, hb]
  rfl

theorem dial_ok (hc : host ∈ s.contracts) (hb : s.behaviorOf host ≠ .offline) :
    (network.dial host s).1 = ⟨some 0, .ok ()⟩ := by
  show (Memory.dial host s).1 = _
  unfold Memory.dial
  simp only [List.contains_iff_mem.2 hc, if_neg hb]
  rfl

/-- who does not stall answers at once -/
theorem read_delay (hb : s.behaviorOf host ≠ .stall) (sections : List ReadSection) (cost : Nat) :
    (Memory.read host sections cost s).1.delay = some 0 := by
  have hserved : ∀ change, (served host sections change s).delay = some 0 := by
    intro change
    unfold served
    split <;> rfl
  unfold Memory.read
  dsimp only
  split
  · rfl
  · rfl
  · next h => exact absurd h hb
  · exact hserved _
  · exact hserved _

theorem verdict_served (sections : List ReadSection) (change : Bytes → Bytes) :
    c.verdict root (served host sections change s).result ≠ .denies := by
  unfold served
  split
  · show (classify (.rpc sectorMissingText)).verdict ≠ _
    rw [classify_missing]
    decide
  · show (if _ then Verdict.serves else .nothing) ≠ _
    split <;> decide

theorem tells_eq (ho : s.behaviorOf host ≠ .offline) (hs : s.behaviorOf host ≠ .stall) :
    tells c s host root
      = c.verdict root (Memory.read host [Exchange.wholeSector c root] 0 s).1.result := by
  unfold tells
  split
  · next h => exact absurd h ho
  · next h => exact absurd h hs
  · next h =>
    have hr : (Memory.read host [Exchange.wholeSector c root] 0 s).1.result
        = .error (.rpc contractMissingText) := by
      unfold Memory.read
      simp only [h]
      rfl
    rw [hr, Settings.verdict, classify_unknown]
    rfl
  · rfl

theorem behavior_of_denies (h : tells c s host root = .denies) :
    s.behaviorOf host = .contractMissing := by
  unfold tells at h
  split at h
  · cases h
  · cases h
  · next hb => exact hb
  · next ho hs hm =>
    exfalso
    unfold Memory.read at h
    dsimp only at h
    split at h
    · have h : (classify (.rpc sectorMissingText)).verdict = .denies := h
      rw [classify_missing] at h
      cases h
    · next hb => exact hm hb
    · next hb => exact hs hb
    · exact verdict_served _ _ h
    · exact verdict_served _ _ h

/-- the answers of a host under contract amount to what it says -/
theorem talk_tells (a : Alike h s) (hc : host ∈ s.contracts) {k : Talk}
    (hk : network.Talks c s host root k) :
    (∃ r, k.Ends c r ∧ c.verdict root r = tells c h host root)
      ∨ (k.Stalls ∧ tells c h host root = .nothing) := by
  obtain ⟨s₁, s₂, s₃, cost, h₁, h₂, h₃, -⟩ := hk
  have hc₁ : host ∈ s₁.contracts := by rwa [contracts_of_asked h₁]
  have later : ∀ {t t' : Hosts}, Alike h t → network.Asked t t' → Alike h t' := fun b hr =>
    ⟨(alike_of_reach hr).sectors.trans b.sectors, (alike_of_reach hr).behavior.trans b.behavior⟩
  have a₁ := later a h₁
  have a₂ : Alike h (network.dial host s₁).2 := later a₁ (.dial s₁ host .refl)
  have a₃ : Alike h s₃ := later (later (later a₂ h₂) (.settings s₂ host .refl)) h₃
  have hread := a₃.read host [Exchange.wholeSector c root] cost
  by_cases ho : h.behaviorOf host = .offline
  · left
    obtain ⟨e, hdial, hv⟩ := dial_offline hc₁ ((a₁.behaviorOf host).trans ho)
    refine ⟨.error e, .refused 0 e hdial (Nat.zero_le _) (Nat.zero_le _), ?_⟩
    rw [tells, ho]
    exact hv
  · have hdial := dial_ok hc₁ ((a₁.behaviorOf host).symm ▸ ho)
    by_cases hs : h.behaviorOf host = .stall
    · refine .inr ⟨.read ⟨1, 1, 1⟩ (congrArg Reply.result hdial) rfl ?_, by rw [tells, hs]⟩
      refine (congrArg Reply.delay hread).trans ?_
      unfold Memory.read
      simp only [hs]
      rfl
    · left
      refine ⟨(Memory.read host [Exchange.wholeSector c root] 0 h).1.result,
        .answered 0 0 0 ⟨1, 1, 1⟩ _ hdial rfl ?_ (Nat.zero_le _) (Nat.zero_le _) (Nat.zero_le _)
          (Nat.zero_le _), (tells_eq ho hs).symm⟩
      refine hread.trans ?_
      rw [← read_delay hs [Exchange.wholeSector c root] 0]

/-- hosts in memory always answer the same -/
theorem static (c : Settings) (h : Hosts) : network.Static c h (tells c h) where
  listed s host _ := contract?_isSome_iff.symm
  asked s s' host _ hr := by
    rw [contract?_isSome_iff, contract?_isSome_iff, contracts_of_asked hr]
  lost s host k _ hk := by
    rw [contract?_isSome_iff] at hk ⊢
    exact (mem_contracts_remove.1 hk).1
  kept s host k _ hne hk := by
    rw [contract?_isSome_iff] at hk ⊢
    exact mem_contracts_remove.2 ⟨hk, hne⟩
  removed s host _ _ := by
    refine Bool.eq_false_iff.2 fun hk => ?_
    exact (mem_contracts_remove.1 (contract?_isSome_iff.1 hk)).2 rfl
  talks s host root k hr hc hk :=
    talk_tells (alike_of_reach hr) (contract?_isSome_iff.1 hc) hk
  denies host root root' hd := by
    rw [tells, behavior_of_denies hd]

end

end Reclaim.Memory

import Reclaim.Proofs.Host.Static

/-!
# Contracts that are only lost by being given up

* `Network.Dutiful`   the hosts that are listed are those under contract; requests change nothing
                      about that, and giving up a contract works and costs no other;
* `Network.Disowns`   a host that can be met with not knowing the contract;
* `Dutiful.prune_held`   giving up a contract that is there;
* `Static.dutiful`    hosts that always answer the same are of this kind if giving up works.
-/

namespace Reclaim

variable {σ : Type}

/-- the contracts are with the hosts that are listed, they change by being given up and in no other
way, and giving one up always works -/
structure Network.Dutiful (n : Network σ) (net : σ) : Prop where
  /-- those with a contract are listed -/
  listed : ∀ s host, n.Reach (fun _ => True) net s →
    (host ∈ n.hosts s ↔ (n.contract? s host).isSome = true)
  /-- requests do not change who has a contract -/
  asked : ∀ s s' host, n.Reach (fun _ => True) net s → n.Asked s s' →
    ((n.contract? s' host).isSome = true ↔ (n.contract? s host).isSome = true)
  /-- a contract that is there can be given up -/
  works : ∀ s host, n.Reach (fun _ => True) net s → (n.contract? s host).isSome = true →
    (n.removeContract host s).1 = true
  /-- and then it is gone, while all others stay -/
  removed : ∀ s host k, n.Reach (fun _ => True) net s → (n.removeContract host s).1 = true →
    ((n.contract? (n.removeContract host s).2 k).isSome = true
      ↔ (n.contract? s k).isSome = true ∧ k ≠ host)

/-- sooner or later the host may answer in time, to one of the three requests of an exchange, that
it has no record of the contract -/
inductive Network.Disowns (n : Network σ) (c : Settings) (net : σ) (host : HostKey) : Prop
  | dial (s : σ) (hr : n.Reach (fun _ => True) net s)
      (h : ((n.dial host s).1.within "dial" c.dialLimit).2 = .error .contractMissing)
  | settings (s : σ) (hr : n.Reach (fun _ => True) net s)
      (h : ((n.settings host s).1.within "settings" c.settingsLimit).2 = .error .contractMissing)
  | read (s : σ) (root : Hash256) (cost : Nat) (hr : n.Reach (fun _ => True) net s)
      (h : ((n.read host [Exchange.wholeSector c root] cost s).1.within "read" c.readLimit).2
        = .error .contractMissing)

namespace Network

variable {n : Network σ} {net s : σ} {w : Wire σ} {host : HostKey}

theorem Dutiful.later (h : n.Dutiful net) (hs : n.Reach (fun _ => True) net s) : n.Dutiful s where
  listed s' k hr := h.listed s' k (hs.trans hr)
  asked s' s'' k hr := h.asked s' s'' k (hs.trans hr)
  works s' k hr := h.works s' k (hs.trans hr)
  removed s' k k' hr := h.removed s' k k' (hs.trans hr)

/-- giving up a contract that is there goes on record, and leaves all contracts but that one -/
theorem Dutiful.prune_held (h : n.Dutiful w.net) (hc : (n.contract? w.net host).isSome = true) :
    (w.prune n host).1 = true
      ∧ (w.prune n host).2.events = w.events ++ [.removed host true]
      ∧ ∀ k, (n.contract? (w.prune n host).2.net k).isSome = true
          ↔ (n.contract? w.net k).isSome = true ∧ k ≠ host := by
  have hw := h.works w.net host .refl hc
  obtain ⟨contract, hcontract⟩ := Option.isSome_iff_exists.1 hc
  have hp : w.prune n host
      = (true, ⟨(n.removeContract host w.net).2, .removed host true :: w.trace⟩) := by
    rw [Wire.prune, hcontract, ← hw]
  rw [hp]
  exact ⟨rfl, List.reverse_cons, fun k => h.removed w.net host k .refl hw⟩

theorem prune_none (hc : ¬(n.contract? w.net host).isSome = true) :
    w.prune n host = (false, w) := by
  rw [Wire.prune, Option.not_isSome_iff_eq_none.1 hc]

theorem Static.dutiful {c : Settings} {tells : HostKey → Hash256 → Verdict}
    (h : n.Static c net tells)
    (hf : ∀ s host, n.Reach (fun _ => True) net s → (n.contract? s host).isSome = true →
      (n.removeContract host s).1 = true) : n.Dutiful net where
  listed := h.listed
  asked := h.asked
  works := hf
  removed s host k hr hw := by
    by_cases hk : k = host
    · subst hk
      rw [h.removed s k hr hw]
      exact ⟨fun hc => (by cases hc), fun hc => absurd rfl hc.2⟩
    · exact ⟨fun hc => ⟨h.lost s host k hr hc, hk⟩, fun hc => h.kept s host k hr hk hc.1⟩

end Network

end Reclaim

import Mathlib.Logic.Relation
import Reclaim.Host.Network

/-!
# What can happen to a wire

* `Event.payload?`, `Wire.payloads`   everything that hosts sent and that was looked at;
* `Wire.Evolves`    requests, notes and contracts given up, one after the other; only contracts
                    with hosts that are `gone` are given up;
* `Network.Reach`   the states of the hosts that such requests lead to.
-/

namespace Reclaim

variable {σ : Type}

/-- the payload that came with an event -/
def Event.payload? : Event → Option Bytes
  | .received _ b => some b
  | _ => none

/-- the states of hosts that requests lead to, with contracts being given up only if the host is
`gone` -/
inductive Network.Reach (n : Network σ) (gone : HostKey → Prop) (net : σ) : σ → Prop
  | refl : Reach n gone net net
  | dial (s : σ) (host : HostKey) (h : Reach n gone net s) : Reach n gone net (n.dial host s).2
  | settings (s : σ) (host : HostKey) (h : Reach n gone net s) :
      Reach n gone net (n.settings host s).2
  | read (s : σ) (host : HostKey) (parts : List ReadSection) (cost : Nat) (h : Reach n gone net s) :
      Reach n gone net (n.read host parts cost s).2
  | remove (s : σ) (host : HostKey) (hg : gone host) (h : Reach n gone net s) :
      Reach n gone net (n.removeContract host s).2

namespace Wire

/-- the payloads on record, the latest first -/
def payloads (w : Wire σ) : List Bytes := w.trace.filterMap Event.payload?

/-- one request, one note, or one contract given up -/
inductive Step (n : Network σ) (gone : HostKey → Prop) : Wire σ → Wire σ → Prop
  | dial (w : Wire σ) (host : HostKey) (root : Hash256) : Step n gone w (w.dial n host root).2
  | settings (w : Wire σ) (host : HostKey) : Step n gone w (w.settings n host).2
  | read (w : Wire σ) (host : HostKey) (part : ReadSection) (cost : Nat) :
      Step n gone w (w.read n host part cost).2
  | note (w : Wire σ) (e : Event) : Step n gone w (w.note e)
  | prune (w : Wire σ) (host : HostKey) (h : gone host) : Step n gone w (w.prune n host).2

/-- any number of steps -/
abbrev Evolves (n : Network σ) (gone : HostKey → Prop) : Wire σ → Wire σ → Prop :=
  Relation.ReflTransGen (Step n gone)

variable {n : Network σ} {gone : HostKey → Prop} {w w' : Wire σ}

/-- the answer to a read is taken in at most one step -/
theorem evolves_take (host : HostKey) (r : Except SectorError Bytes) (w : Wire σ) :
    Evolves n gone w (w.take host r) := by
  unfold take
  split
  · exact .single (.note w _)
  · exact .refl

theorem mem_payloads_take (host : HostKey) (b : Bytes) (w : Wire σ) :
    b ∈ (w.take host (.ok b)).payloads := List.mem_cons_self

/-- nothing is ever taken off the record -/
theorem Step.suffix (h : Step n gone w w') : w.trace <:+ w'.trace := by
  cases h with
  | dial host root => exact List.suffix_cons _ _
  | settings host => exact List.suffix_cons _ _
  | read host part cost => exact List.suffix_cons _ _
  | note e => exact List.suffix_cons _ _
  | prune host h =>
    unfold Wire.prune
    split
    · exact List.suffix_refl _
    · exact List.suffix_cons _ _

theorem Evolves.suffix (h : Evolves n gone w w') : w.trace <:+ w'.trace := by
  induction h with
  | refl => exact List.suffix_refl _
  | tail _ hs ih => exact ih.trans hs.suffix

theorem Evolves.mem_payloads (h : Evolves n gone w w') {b : Bytes} (hb : b ∈ w.payloads) :
    b ∈ w'.payloads := by
  obtain ⟨pre, e⟩ := h.suffix
  unfold payloads
  rw [← e, List.filterMap_append]
  exact List.mem_append_right _ hb

theorem Step.reach {net : σ} (h : Step n gone w w') (hr : n.Reach gone net w.net) :
    n.Reach gone net w'.net := by
  cases h with
  | dial host root => exact .dial _ _ hr
  | settings host => exact .settings _ _ hr
  | read host part cost => exact .read _ _ _ _ hr
  | note e => exact hr
  | prune host h =>
    unfold Wire.prune
    split
    · exact hr
    · exact .remove _ _ h hr

theorem Evolves.reach {net : σ} (h : Evolves n gone w w') (hr : n.Reach gone net w.net) :
    n.Reach gone net w'.net := by
  induction h with
  | refl => exact hr
  | tail _ hs ih => exact hs.reach ih

end Wire

end Reclaim

import Mathlib.Data.Finset.Card
import Reclaim.Proofs.Health.Survey
import Reclaim.Proofs.Recovery.Episodes

/-!
# A host that lost a contract is dropped once and left alone

* `Run.Course`     a run as a sequence of episodes: claimed copies that are tried and searches;
* `Run.Parted`     the hosts dropped in these episodes are all different and not met with again;
* `moves_course`   whatever a recovery does is such a sequence;
* `dropped_once`   so it is for every recovery, and the hosts that were dropped are those that are
                   listed no more.
-/

namespace Reclaim

variable {σ : Type}

namespace Run

/-- a recovery in episodes, one after the other, each being the attempt at one claimed copy or the
search of all hosts for one sector -/
inductive Course (n : Network σ) (c : Settings) : Run σ → List Episode → Run σ → Prop
  | done (r : Run σ) : Course n c r [] r
  /-- a claimed copy is tried; any failure of the host is taken notice of, and nothing else -/
  | claim (r : Run σ) (copy : SectorRef) (e : Episode)
      (events : (fetchAny n c [copy] r).2.wire.events = r.wire.events ++ e.events)
      (noticed : ∀ host root x, .failed host root x ∈ e.tried
        ↔ (host = copy.host ∧ root = copy.root) ∧ ¬passes n r copy = true
            ∧ (fetch n c copy.host copy.root r).1 = .error x)
      {es : List Episode} {r' : Run σ} (rest : Course n c (fetchAny n c [copy] r).2 es r') :
      Course n c r (e :: es) r'
  /-- all hosts are searched; the failures that are handed over are taken notice of -/
  | race (r : Run σ) (orders : Orders) (root : Hash256) (e : Episode)
      (events : (race n c orders root r).2.wire.events = r.wire.events ++ e.events)
      (searched : Searched n c orders root r e)
      {es : List Episode} {r' : Run σ} (rest : Course n c (race n c orders root r).2 es r') :
      Course n c r (e :: es) r'
  /-- a chunk is written, which concerns no host -/
  | chunk (r : Run σ) (t : Recovery.Target) (i : Nat) {es : List Episode} {r' : Run σ}
      (rest : Course n c (Recovery.chunkDone t i r) es r') : Course n c r es r'

/-- what several episodes in turn do: the hosts dropped in them are all different, no session is
opened with any of them afterwards, and they are the ones that lost the contract -/
structure Parted (n : Network σ) (gone : HostKey → Prop) (r : Run σ) (es : List Episode)
    (r' : Run σ) : Prop where
  events : r'.wire.events = r.wire.events ++ es.flatMap Episode.events
  dialed : ∀ e ∈ es, ∀ host root, .dialed host root ∈ e.tried →
    (n.contract? r.wire.net host).isSome = true
  held : ∀ host ∈ es.flatMap Episode.dropped, (n.contract? r.wire.net host).isSome = true
  gone : ∀ host ∈ es.flatMap Episode.dropped, gone host
  left : ∀ host, (n.contract? r'.wire.net host).isSome = true
    ↔ (n.contract? r.wire.net host).isSome = true ∧ host ∉ es.flatMap Episode.dropped
  nodup : (es.flatMap Episode.dropped).Nodup
  apart : es.Pairwise fun e later =>
    ∀ host ∈ e.dropped, ∀ root, .dialed host root ∉ later.tried
  counted : r'.tally.pruned
    = r.tally.pruned + UInt64.ofNat (es.flatMap Episode.dropped).length

section
variable {n : Network σ} {c : Settings} {gone : HostKey → Prop} {r r' r₁ : Run σ} {e : Episode}
  {es : List Episode}

theorem Parted.nil (r : Run σ) : Parted n gone r [] r where
  events := (List.append_nil _).symm
  dialed _ h := absurd h List.not_mem_nil
  held _ h := absurd h List.not_mem_nil
  gone _ h := absurd h List.not_mem_nil
  left _ := ⟨fun h => ⟨h, List.not_mem_nil⟩, And.left⟩
  nodup := List.nodup_nil
  apart := .nil
  counted := (UInt64.add_zero _).symm

theorem Parted.cons (h : Settled n gone r r₁ e) (hs : Parted n gone r₁ es r') :
    Parted n gone r (e :: es) r' where
  events := by rw [hs.events, h.events, List.flatMap_cons, List.append_assoc]
  dialed e' he host root hm := by
    rcases List.mem_cons.1 he with rfl | he
    · exact h.dialed host root hm
    · exact ((h.left host).1 (hs.dialed e' he host root hm)).1
  held host hm := by
    rw [List.flatMap_cons] at hm
    rcases List.mem_append.1 hm with hm | hm
    · exact h.held host hm
    · exact ((h.left host).1 (hs.held host hm)).1
  gone host hm := by
    rw [List.flatMap_cons] at hm
    exact (List.mem_append.1 hm).elim (h.gone host) (hs.gone host)
  left host := by
    rw [hs.left host, h.left host, List.flatMap_cons, List.mem_append, not_or, and_assoc]
  nodup := by
    rw [List.flatMap_cons]
    refine List.nodup_append.2 ⟨e.nodup, hs.nodup, fun host hm k hk => ?_⟩
    rintro rfl
    exact ((h.left host).1 (hs.held host hk)).2 hm
  apart := List.pairwise_cons.2 ⟨fun later hl host hh root hm =>
    ((h.left host).1 (hs.dialed later hl host root hm)).2 hh, hs.apart⟩
  counted := by
    rw [hs.counted, h.counted, List.flatMap_cons, List.length_append, UInt64.ofNat_add]
    exact UInt64.add_assoc ..

theorem moves_course (hs : Spares n c gone r.wire) (hd : n.Dutiful r.wire.net)
    (hm : Moves n c r r') : ∃ es, Course n c r es r' ∧ Parted n gone r es r' := by
  induction hm using Relation.ReflTransGen.head_induction_on with
  | refl => exact ⟨[], .done r', .nil r'⟩
  | @head r r₁ hmove _ ih =>
    have hw := (move_leads hs hmove).wire
    obtain ⟨es, hcourse, hparted⟩ := ih (hs.mono hw)
      (hd.later ((hw.reach .refl).mono fun _ _ => trivial))
    cases hmove with
    | claim copy =>
      obtain ⟨e, hset, hnoticed⟩ := claim_settled hs hd copy
      exact ⟨e :: es, .claim r copy e hset.events hnoticed hcourse, .cons hset hparted⟩
    | race orders root =>
      obtain ⟨e, hset, hsearched⟩ := race_settled hs hd orders root
      exact ⟨e :: es, .race r orders root e hset.events hsearched hcourse, .cons hset hparted⟩
    | chunk t i =>
      exact ⟨es, .chunk r t i hcourse, ⟨hparted.events, hparted.dialed, hparted.held, hparted.gone,
        hparted.left, hparted.nodup, hparted.apart, hparted.counted⟩⟩

end

end Run

namespace Recovery

open Run

/-- a recovery drops each host that it notices to know no contract once, right after the attempt at
a copy or the search in which it notices it; no session is opened with the host from then on, no
other host is dropped, and the hosts dropped, which are counted, are those that are listed no
more -/
theorem dropped_once (n : Network σ) (c : Settings) (orders : Orders) (d : Descriptor) (sink : Sink)
    (r : Run σ) (h : n.Dutiful r.wire.net) :
    ∃ es : List Episode,
      Course n c r es (recover n c orders d sink r).run
      ∧ (recover n c orders d sink r).run.wire.events
          = r.wire.events ++ es.flatMap Episode.events
      ∧ (es.flatMap Episode.dropped).Nodup
      ∧ (es.Pairwise fun e later => ∀ host ∈ e.dropped, ∀ root, .dialed host root ∉ later.tried)
      ∧ (∀ host ∈ es.flatMap Episode.dropped, n.Disowns c r.wire.net host)
      ∧ (∀ host, host ∈ es.flatMap Episode.dropped ↔ host ∈ n.hosts r.wire.net
          ∧ host ∉ n.hosts (recover n c orders d sink r).run.wire.net)
      ∧ (recover n c orders d sink r).run.tally.pruned = r.tally.pruned
          + UInt64.ofNat ((n.hosts r.wire.net).toFinset
              \ (n.hosts (recover n c orders d sink r).run.wire.net).toFinset).card := by
  have hmoves := recover_moves n c orders d sink r
  obtain ⟨es, hcourse, hparted⟩ := moves_course (spares_disowned n c r.wire) h hmoves
  have hreach : n.Reach (fun _ => True) r.wire.net (recover n c orders d sink r).run.wire.net :=
    (moves_lead (spares_all n c r.wire) hmoves).wire.reach .refl
  have hdropped : ∀ host, host ∈ es.flatMap Episode.dropped ↔ host ∈ n.hosts r.wire.net
      ∧ host ∉ n.hosts (recover n c orders d sink r).run.wire.net := by
    intro host
    rw [h.listed _ host .refl, h.listed _ host hreach, hparted.left host, not_and, not_not]
    exact ⟨fun hm => ⟨hparted.held host hm, fun _ => hm⟩, fun hm => hm.2 hm.1⟩
  have hcard : ((n.hosts r.wire.net).toFinset
      \ (n.hosts (recover n c orders d sink r).run.wire.net).toFinset).card
        = (es.flatMap Episode.dropped).length := by
    rw [← List.toFinset_card_of_nodup hparted.nodup]
    congr 1
    ext host
    rw [Finset.mem_sdiff, List.mem_toFinset, List.mem_toFinset, List.mem_toFinset, hdropped host]
  refine ⟨es, hcourse, hparted.events, hparted.nodup, hparted.apart, hparted.gone, hdropped, ?_⟩
  rw [hcard, hparted.counted]

/-! ## a small case -/

/-- a byte of which the first claimed copy is at a host that knows no contract -/
def staleFirst : Descriptor :=
  Health.fileOfByte
    [⟨sectorRoot [7], HostKey.ofBytes [2]⟩, ⟨sectorRoot [7], HostKey.ofBytes [1]⟩]

def pastStale : Outcome Memory.Hosts RecoveryReport :=
  recover Memory.network Health.byteSettings Orders.byTime staleFirst (Sink.ofLimit none)
    (Run.fresh Health.serverAndStale none)

theorem dropped_once_stale :
    Memory.network.Dutiful Health.serverAndStale
      ∧ pastStale.run.tally.pruned = 1
      ∧ ∃ es, Course Memory.network Health.byteSettings (Run.fresh Health.serverAndStale none) es
            pastStale.run
          ∧ es.flatMap Episode.dropped = [HostKey.ofBytes [2]] := by
  have hdutiful : Memory.network.Dutiful Health.serverAndStale :=
    (Memory.static Health.byteSettings Health.serverAndStale).dutiful fun _ _ _ _ => rfl
  have hafter : Memory.network.hosts pastStale.run.wire.net = [HostKey.ofBytes [1]] := by
    decide +kernel
  obtain ⟨es, hcourse, -, hnodup, -, -, hdropped, hcounted⟩ := dropped_once Memory.network
    Health.byteSettings Orders.byTime staleFirst (Sink.ofLimit none)
    (Run.fresh Health.serverAndStale none) hdutiful
  have hbefore : Memory.network.hosts (Run.fresh Health.serverAndStale none).wire.net
      = [HostKey.ofBytes [1], HostKey.ofBytes [2]] := by decide
  refine ⟨hdutiful, ?_, es, hcourse, ?_⟩
  · refine hcounted.trans ?_
    show _ + UInt64.ofNat ((Memory.network.hosts _).toFinset
      \ (Memory.network.hosts pastStale.run.wire.net).toFinset).card = 1
    rw [hafter]
    decide
  · refine List.perm_singleton.1 ((List.perm_ext_iff_of_nodup hnodup (List.nodup_singleton _)).2
      fun host => ?_)
    refine (hdropped host).trans ?_
    show host ∈ Memory.network.hosts _ ∧ host ∉ Memory.network.hosts pastStale.run.wire.net ↔ _
    rw [hafter, hbefore, List.mem_cons, List.mem_singleton, List.mem_singleton]
    refine ⟨fun h => h.1.resolve_left h.2, fun h => ⟨.inr h, h ▸ ?_⟩⟩
    decide

end Recovery

end Reclaim

import Reclaim.Proofs.Host.Dutiful
import Reclaim.Proofs.Pool.Life
import Reclaim.Proofs.Recovery.Static

/-!
# What is tried, and who is dropped for it

* `Episode`   one attempt at a sector and the hosts dropped after it: those that were noticed to
              know no contract, each of them once;
* `Attempt`   what goes on between two moments while no contract is given up;
* `Settled`   from before an episode to after it;
* `Attempt.settled`   dropping the hosts makes an episode of an attempt;
* `Searched`  what a search of all hosts takes notice of;
* `claim_settled`, `race_settled`   trying a claimed copy and searching all hosts are episodes.
-/

namespace Reclaim

variable {σ : Type}

/-- whether an event is a failure that was taken notice of -/
def Event.isFailure : Event → Bool
  | .failed _ _ _ => true
  | _ => false

/-- one attempt at a sector, and then the contracts that are given up: no contract before the
attempt is over, and one for each host that was noticed to have no record of it -/
structure Episode where
  tried : List Event
  dropped : List HostKey
  nodup : dropped.Nodup
  mem_dropped : ∀ host, host ∈ dropped ↔ ∃ root, .failed host root .contractMissing ∈ tried
  none_before : ∀ host worked, .removed host worked ∉ tried

/-- the events of an episode, in the order in which they happen -/
def Episode.events (e : Episode) : List Event := e.tried ++ e.dropped.map (.removed · true)

theorem spares_disowned (n : Network σ) (c : Settings) (origin : Wire σ) :
    Spares n c (n.Disowns c origin.net) origin := by
  have hreach : ∀ w, Wire.Evolves n (n.Disowns c origin.net) origin w →
      n.Reach (fun _ => True) origin.net w.net :=
    fun w hw => (hw.reach .refl).mono fun _ _ => trivial
  exact fun host root => ⟨fun w hw h => .dial w.net (hreach w hw) h,
    fun w hw h => .settings w.net (hreach w hw) h,
    fun w cost hw h => .read w.net root cost (hreach w hw) h⟩

namespace Run

section
variable {n : Network σ} {c : Settings} {gone : HostKey → Prop} {r r' s : Run σ}

/-! ## contracts given up -/

/-- from one run to another, contracts being given up with the hosts `dropped` in turn -/
structure Drops (n : Network σ) (r r' : Run σ) (dropped : List HostKey) : Prop where
  events : r'.wire.events = r.wire.events ++ dropped.map (.removed · true)
  left : ∀ host, (n.contract? r'.wire.net host).isSome = true
    ↔ (n.contract? r.wire.net host).isSome = true ∧ host ∉ dropped
  counted : r'.tally.pruned = r.tally.pruned + UInt64.ofNat dropped.length

theorem Drops.nil (r : Run σ) : Drops n r r [] :=
  ⟨(List.append_nil _).symm, fun _ => ⟨fun h => ⟨h, List.not_mem_nil⟩, And.left⟩,
    (UInt64.add_zero _).symm⟩

theorem Drops.cons {host : HostKey} {rest : List HostKey} (h : n.Dutiful r.wire.net)
    (hc : (n.contract? r.wire.net host).isSome = true) (hr : Drops n (prune n host r) r' rest) :
    Drops n r r' (host :: rest) := by
  obtain ⟨hworked, hevents, hleft⟩ := h.prune_held hc
  refine ⟨?_, fun k => ?_, ?_⟩
  · rw [hr.events]
    show (r.wire.prune n host).2.events ++ _ = _
    rw [hevents, List.append_assoc]
    rfl
  · rw [hr.left k, List.mem_cons, not_or, ← and_assoc]
    exact and_congr_left fun _ => hleft k
  · have hone : (prune n host r).tally.pruned = r.tally.pruned + 1 := by
      rw [prune, hworked]
      rfl
    rw [hr.counted, hone, List.length_cons, Nat.add_comm, UInt64.ofNat_add]
    exact UInt64.add_assoc ..

theorem prune_all (hosts : List HostKey) (r : Run σ) (h : n.Dutiful r.wire.net) :
    ∃ dropped : List HostKey, dropped.Nodup
      ∧ (∀ k, k ∈ dropped ↔ k ∈ hosts ∧ (n.contract? r.wire.net k).isSome = true)
      ∧ Drops n r (hosts.foldl (fun r host => prune n host r) r) dropped := by
  induction hosts generalizing r with
  | nil =>
    exact ⟨[], List.nodup_nil, fun k => ⟨fun hk => absurd hk List.not_mem_nil, And.left⟩, .nil r⟩
  | cons host rest ih =>
    rw [List.foldl_cons]
    by_cases hc : (n.contract? r.wire.net host).isSome = true
    · obtain ⟨l, hl, hmem, hd⟩ := ih (prune n host r) (h.later (n.reach_prune host r.wire))
      have hleft := (h.prune_held hc).2.2
      refine ⟨host :: l, List.nodup_cons.2 ⟨fun hm => ?_, hl⟩, fun k => ?_, .cons h hc hd⟩
      · exact ((hleft host).1 ((hmem host).1 hm).2).2 rfl
      · rw [List.mem_cons, List.mem_cons, hmem k]
        constructor
        · rintro (rfl | ⟨hm, hk⟩)
          · exact ⟨.inl rfl, hc⟩
          · exact ⟨.inr hm, ((hleft k).1 hk).1⟩
        · rintro ⟨hm, hk⟩
          refine or_iff_not_imp_left.2 fun hne => ⟨hm.resolve_left hne, ?_⟩
          exact (hleft k).2 ⟨hk, hne⟩
    · have hsame : prune n host r = r := by rw [prune, Network.prune_none hc]; rfl
      obtain ⟨l, hl, hmem, hd⟩ := ih r h
      rw [hsame]
      refine ⟨l, hl, fun k => (hmem k).trans ?_, hd⟩
      rw [List.mem_cons]
      refine ⟨fun hk => ⟨.inr hk.1, hk.2⟩, fun hk => ⟨hk.1.resolve_left ?_, hk.2⟩⟩
      rintro rfl
      exact hc hk.2

/-! ## attempts -/

/-- between two moments sessions were opened with hosts under contract, failures were taken notice
of, and no contract was given up; the hosts `stale` were noticed to know none -/
structure Attempt (n : Network σ) (gone : HostKey → Prop) (origin w : Wire σ) (tried : List Event)
    (stale : List HostKey) : Prop where
  wire : Wire.Evolves n gone origin w
  asked : n.Asked origin.net w.net
  events : w.events = origin.events ++ tried
  dialed : ∀ host root, .dialed host root ∈ tried → (n.contract? origin.net host).isSome = true
  none_before : ∀ host worked, .removed host worked ∉ tried
  mem_stale : ∀ host, host ∈ stale ↔ ∃ root, .failed host root .contractMissing ∈ tried
  gone : ∀ host ∈ stale, gone host
  held : ∀ host ∈ stale, (n.contract? origin.net host).isSome = true

section
variable {origin w w' : Wire σ} {tried : List Event} {stale : List HostKey} {host : HostKey}
  {root : Hash256}

theorem attempt_none (origin : Wire σ) : Attempt n gone origin origin [] [] where
  wire := .refl
  asked := .refl
  events := (List.append_nil _).symm
  dialed _ _ h := absurd h List.not_mem_nil
  none_before _ _ := List.not_mem_nil
  mem_stale _ := ⟨fun h => absurd h List.not_mem_nil, fun ⟨_, h⟩ => absurd h List.not_mem_nil⟩
  gone _ h := absurd h List.not_mem_nil
  held _ h := absurd h List.not_mem_nil

theorem attempt_raced (origin : Wire σ) (root : Hash256) :
    Attempt n gone origin (origin.note (.raced root)) [.raced root] [] where
  wire := .single (.note _ _)
  asked := .refl
  events := List.reverse_cons
  dialed _ _ h := by cases List.mem_singleton.1 h
  none_before _ _ h := by cases List.mem_singleton.1 h
  mem_stale _ := ⟨fun h => absurd h List.not_mem_nil, fun ⟨_, h⟩ => by cases List.mem_singleton.1 h⟩
  gone _ h := absurd h List.not_mem_nil
  held _ h := absurd h List.not_mem_nil

theorem Attempt.exchange (h : Attempt n gone origin w tried stale)
    (hc : (n.contract? origin.net host).isSome = true) (hw : Wire.Evolves n gone w w')
    (ha : n.Asked w.net w'.net) {later : List Event} (he : w'.events = w.events ++ later)
    (hl : ∀ e ∈ later, e.Exchanged host root) :
    Attempt n gone origin w' (tried ++ later) stale where
  wire := h.wire.trans hw
  asked := h.asked.trans ha
  events := by rw [he, h.events, List.append_assoc]
  dialed k root' hm := by
    rcases List.mem_append.1 hm with hm | hm
    · exact h.dialed k root' hm
    · rcases hl _ hm with e | e
      · cases e
        exact hc
      · cases e
  none_before k worked hm := by
    rcases List.mem_append.1 hm with hm | hm
    · exact h.none_before k worked hm
    · rcases hl _ hm with e | e <;> cases e
  mem_stale k := by
    rw [h.mem_stale k]
    refine exists_congr fun root' => ?_
    rw [List.mem_append, or_iff_left]
    intro hm
    rcases hl _ hm with e | e <;> cases e
  gone := h.gone
  held := h.held

/-- a failure of a host under contract is taken notice of -/
theorem Attempt.notice (h : Attempt n gone origin w tried stale) (root : Hash256)
    (hc : (n.contract? origin.net host).isSome = true) {e : SectorError}
    (he : e = .contractMissing → gone host) :
    Attempt n gone origin (w.note (.failed host root e)) (tried ++ [.failed host root e])
      (if e = .contractMissing then stale ++ [host] else stale) where
  wire := h.wire.tail (.note _ _)
  asked := h.asked
  events := by
    rw [← List.append_assoc, ← h.events]
    exact List.reverse_cons
  dialed k root' hm := by
    rcases List.mem_append.1 hm with hm | hm
    · exact h.dialed k root' hm
    · cases List.mem_singleton.1 hm
  none_before k worked hm := by
    rcases List.mem_append.1 hm with hm | hm
    · exact h.none_before k worked hm
    · cases List.mem_singleton.1 hm
  mem_stale k := by
    simp only [List.mem_append, List.mem_singleton, exists_or, ← h.mem_stale k, Event.failed.injEq]
    split
    · next hm =>
      rw [List.mem_append, List.mem_singleton, hm]
      exact or_congr_right ⟨fun e => ⟨root, e, rfl, rfl⟩, fun ⟨_, e, _⟩ => e⟩
    · next hm => exact ⟨.inl, fun hk => hk.resolve_right fun ⟨_, _, _, e⟩ => hm e.symm⟩
  gone k hk := by
    split at hk
    · next hm =>
      rcases List.mem_append.1 hk with hk | hk
      · exact h.gone k hk
      · exact List.mem_singleton.1 hk ▸ he hm
    · exact h.gone k hk
  held k hk := by
    split at hk
    · rcases List.mem_append.1 hk with hk | hk
      · exact h.held k hk
      · exact List.mem_singleton.1 hk ▸ hc
    · exact h.held k hk

end

/-! ## episodes -/

/-- from the run before an episode to the run after it: what it records, and that the hosts dropped
in it, and no others, have lost the contract, each being counted -/
structure Settled (n : Network σ) (gone : HostKey → Prop) (r r' : Run σ) (e : Episode) : Prop where
  events : r'.wire.events = r.wire.events ++ e.events
  dialed : ∀ host root, .dialed host root ∈ e.tried → (n.contract? r.wire.net host).isSome = true
  held : ∀ host ∈ e.dropped, (n.contract? r.wire.net host).isSome = true
  gone : ∀ host ∈ e.dropped, gone host
  left : ∀ host, (n.contract? r'.wire.net host).isSome = true
    ↔ (n.contract? r.wire.net host).isSome = true ∧ host ∉ e.dropped
  counted : r'.tally.pruned = r.tally.pruned + UInt64.ofNat e.dropped.length

theorem Settled.same {r'' : Run σ} {e : Episode} (h : Settled n gone r r' e)
    (hw : r''.wire = r'.wire) (hp : r''.tally.pruned = r'.tally.pruned) :
    Settled n gone r r'' e where
  events := hw ▸ h.events
  dialed := h.dialed
  held := h.held
  gone := h.gone
  left := hw ▸ h.left
  counted := hp.trans h.counted

/-- an attempt becomes an episode when the hosts that know no contract are dropped -/
theorem Attempt.settled {tried : List Event} {stale : List HostKey}
    (h : Attempt n gone r.wire s.wire tried stale) (hd : n.Dutiful r.wire.net)
    (hp : s.tally.pruned = r.tally.pruned) :
    ∃ e : Episode, e.tried = tried
      ∧ Settled n gone r (stale.foldl (fun r host => prune n host r) s) e := by
  have hsame := fun host => hd.asked r.wire.net s.wire.net host .refl h.asked
  obtain ⟨dropped, hnodup, hmem, hdrops⟩ := prune_all stale s (hd.later h.asked.reach)
  have hstale : ∀ host, host ∈ dropped ↔ host ∈ stale := fun host =>
    (hmem host).trans ⟨And.left, fun hh => ⟨hh, (hsame host).2 (h.held host hh)⟩⟩
  refine ⟨⟨tried, dropped, hnodup, fun host => (hstale host).trans (h.mem_stale host),
    h.none_before⟩, rfl, ?_, h.dialed, fun host hh => h.held host ((hstale host).1 hh),
    fun host hh => h.gone host ((hstale host).1 hh), fun host => ?_, ?_⟩
  · rw [hdrops.events, h.events, List.append_assoc]
    rfl
  · rw [hdrops.left host, hsame host]
  · rw [hdrops.counted, hp]

/-! ## one host -/

theorem fetch_attempt (n : Network σ) (c : Settings) (gone : HostKey → Prop) {host : HostKey}
    {root : Hash256} (hc : (∃ b, r.cache.get? root = some b)
      ∨ (n.contract? r.wire.net host).isSome = true) :
    ∃ tried, Attempt n gone r.wire (fetch n c host root r).2.wire tried []
      ∧ (∀ e ∈ tried, e.Exchanged host root)
      ∧ (fetch n c host root r).2.tally.pruned = r.tally.pruned := by
  cases hcache : r.cache.get? root with
  | some b =>
    rw [fetch_cached n c r hcache]
    exact ⟨[], attempt_none r.wire, fun e he => absurd he List.not_mem_nil, rfl⟩
  | none =>
    have hcontract := hc.resolve_left fun ⟨b, hb⟩ => by rw [hcache] at hb; cases hb
    obtain ⟨hasked, later, hevents, hl⟩ := download_records n c host root r.wire
    have ha := (attempt_none r.wire).exchange hcontract
      (download_evolves n c gone host root r.wire) hasked hevents hl
    cases hd : (download n c host root r.wire).1 with
    | error e =>
      rw [fetch_error n c r hcache hd]
      exact ⟨later, ha, hl, rfl⟩
    | ok b =>
      rw [fetch_ok n c r hcache hd]
      exact ⟨later, ha, hl, rfl⟩

theorem blame_eq (copy : SectorRef) (e : SectorError) (r : Run σ) :
    blame n copy e r = (if e = .contractMissing then [] ++ [copy.host] else []).foldl
      (fun r host => prune n host r) (r.notice copy.host copy.root e) := by
  unfold blame
  split <;> rfl

/-- trying a claimed copy is an episode; what is taken notice of in it is exactly the failure of the
host that is asked -/
theorem claim_settled (hs : Spares n c gone r.wire) (hd : n.Dutiful r.wire.net)
    (copy : SectorRef) :
    ∃ e, Settled n gone r (fetchAny n c [copy] r).2 e
      ∧ ∀ host root x, .failed host root x ∈ e.tried
          ↔ (host = copy.host ∧ root = copy.root) ∧ ¬passes n r copy = true
              ∧ (fetch n c copy.host copy.root r).1 = .error x := by
  by_cases hp : passes n r copy = true
  · obtain ⟨e, he, hset⟩ := (attempt_none r.wire).settled (s := r) hd rfl
    have hsame : (fetchAny n c [copy] r).2 = r := by
      rw [fetchAny_pass n c r [] hp]
      rfl
    rw [hsame]
    refine ⟨e, hset, fun host root x => ?_⟩
    rw [he]
    exact ⟨fun hm => absurd hm List.not_mem_nil, fun h => absurd hp h.2.1⟩
  · have hc := asked_of_not_passes hp
    obtain ⟨tried, ha, hex, hpruned⟩ := fetch_attempt n c gone hc
    have hfree : ∀ host root x, .failed host root x ∉ tried := by
      intro host root x hm
      rcases hex _ hm with e | e <;> cases e
    cases hf : (fetch n c copy.host copy.root r).1 with
    | ok b =>
      obtain ⟨e, rfl, hset⟩ := ha.settled hd hpruned
      have hsame : (fetchAny n c [copy] r).2 = (fetch n c copy.host copy.root r).2 := by
        rw [fetchAny_ok n c r [] hp hf]
      rw [hsame]
      exact ⟨e, hset, fun host root x => ⟨fun hm => absurd hm (hfree host root x),
        fun h => by cases h.2.2⟩⟩
    | error x =>
      have hcontract := hc.resolve_left fun ⟨b, hb⟩ => by
        rw [fetch_cached n c r hb] at hf
        cases hf
      have hgone := (fetch_rule hs copy.host copy.root).2.2
      have hnoticed := ha.notice copy.root hcontract (e := x)
        fun hx => hgone (hf.trans (congrArg _ hx))
      obtain ⟨e, he, hset⟩ := hnoticed.settled
        (s := (fetch n c copy.host copy.root r).2.notice copy.host copy.root x) hd hpruned
      have hsame : (fetchAny n c [copy] r).2
          = blame n copy x (fetch n c copy.host copy.root r).2 := by
        rw [fetchAny_error n c r [] hp hf]
        rfl
      rw [← blame_eq, ← hsame] at hset
      refine ⟨e, hset, fun host root x' => ?_⟩
      rw [he, List.mem_append, or_iff_right (hfree host root x'), List.mem_singleton,
        Event.failed.injEq]
      exact ⟨fun ⟨h1, h2, h3⟩ => ⟨⟨h1, h2⟩, hp, congrArg _ h3.symm⟩,
        fun ⟨⟨h1, h2⟩, _, h3⟩ => ⟨h1, h2, (Except.error.inj h3).symm⟩⟩

/-! ## all hosts -/

/-- a moment of a search -/
abbrev SearchMoment (σ : Type) : Type :=
  Pool.Moment (Race σ) HostKey Exchange.Task (HostKey × Except SectorError Bytes)

/-- the failure that a result is taken notice of as -/
def refusal (root : Hash256) : HostKey × Except SectorError Bytes → Option Event
  | (host, .error e) => some (.failed host root e)
  | (_, .ok _) => none

/-- the search of all hosts in an episode: none was needed or none could be made, or it led the life
of a pool, and the failures taken notice of are those of the results that were handed over, in
order; a search in vain has heard every host -/
inductive Searched (n : Network σ) (c : Settings) (orders : Orders) (root : Hash256) (r : Run σ)
    (e : Episode) : Prop
  | needless (h : r.cache.get? root ≠ none ∨ n.hosts r.wire.net = []) (nothing : e.tried = [])
  | made (missing : r.cache.get? root = none) (m : SearchMoment σ)
      (life : Pool.Moment.Lives (racePlan n c (orders r.wire.trace.length) root)
        (.opening false (n.hosts r.wire.net)
          ⟨r.wire.note (.raced root), r.tally.addRace, none, []⟩) m)
      (hover : m.Over) (ended : raced n c orders root r = (m.stopped, m.shared))
      (noticed : e.tried.filter Event.isFailure
        = m.handed.filterMap fun h => refusal root h.result)
      (heard : (race n c orders root r).1 = none →
        (m.handed.map Pool.Handed.item).Perm (n.hosts r.wire.net))

/-- a burst of the exchange of a search with a certain host, as expected of it -/
def Awaited (c : Settings) (gone : HostKey → Prop) (root : Hash256) (host : HostKey) (s : Race σ)
    (b : Burst Exchange.Task (HostKey × Except SectorError Bytes)) : Prop :=
  ∃ b', b = told root host b'
    ∧ Exchange.Accords (.spares gone host) c ⟨host, root, false⟩ s.wire b'

theorem Awaited.mono {root : Hash256} {host : HostKey} {s : Race σ} (s' : Race σ)
    (hw : Wire.Evolves n gone s.wire s'.wire)
    {b : Burst Exchange.Task (HostKey × Except SectorError Bytes)}
    (h : Awaited c gone root host s b) : Awaited c gone root host s' b := by
  obtain ⟨b', e, ha⟩ := h
  exact ⟨b', e, ha.mono hw⟩

/-- what is true at every moment of a search -/
structure Hearing (n : Network σ) (c : Settings) (gone : HostKey → Prop) (r : Run σ)
    (root : Hash256) (m : SearchMoment σ) : Prop where
  attempt : ∃ tried, Attempt n gone r.wire m.shared.wire tried m.shared.stale
    ∧ tried.filter Event.isFailure = m.handed.filterMap fun h => refusal root h.result
  pruned : m.shared.tally.pruned = r.tally.pruned
  won : m.stopped = true → m.shared.winner ≠ none
  queue : ∀ host ∈ m.queue, (n.contract? r.wire.net host).isSome = true
  flight : ∀ j ∈ m.flight, (n.contract? r.wire.net j.item).isSome = true
    ∧ ∀ b, j.burst = some b → Awaited c gone root j.item m.shared b

section
variable {root : Hash256} {m m' : SearchMoment σ}
  {front back : List (Pool.Job HostKey Exchange.Task (HostKey × Except SectorError Bytes))}

theorem Hearing.goes_on (h : Hearing n c gone r root m) {host : HostKey}
    {b : Option (Burst Exchange.Task (HostKey × Except SectorError Bytes))}
    (hf : m.flight = front ++ ⟨host, b⟩ :: back)
    {w : Wire σ} {t : Tally} (ht : t.pruned = m.shared.tally.pruned)
    (hw : Wire.Evolves n gone m.shared.wire w) (ha : n.Asked m.shared.wire.net w.net)
    (hr : Wire.Records (Event.Exchanged host root) m.shared.wire w)
    {b' : Burst Exchange.Task (HostKey × Except SectorError Bytes)}
    (hb : Awaited c gone root host { m.shared with wire := w, tally := t } b') :
    Hearing n c gone r root { m with
      flight := front ++ ⟨host, some b'⟩ :: back
      shared := { m.shared with wire := w, tally := t } } := by
  have hcontract := (h.flight ⟨host, b⟩
    (by rw [hf]; exact List.mem_append_right _ List.mem_cons_self)).1
  obtain ⟨tried, hattempt, hnoticed⟩ := h.attempt
  obtain ⟨later, he, hl⟩ := hr
  have hnone : later.filter Event.isFailure = [] := by
    refine List.filter_eq_nil_iff.2 fun e hm => ?_
    rcases hl e hm with rfl | hf
    · exact Bool.false_ne_true
    · cases hf <;> exact Bool.false_ne_true
  refine ⟨⟨_, hattempt.exchange hcontract hw ha he hl, ?_⟩, ht.trans h.pruned, h.won, h.queue,
    fun j hj => ?_⟩
  · rw [List.filter_append, hnone, List.append_nil, hnoticed]
  · rcases Pool.mem_replaced hj with rfl | hj
    · exact ⟨hcontract, fun b'' e => by cases e; exact hb⟩
    · rw [← hf] at hj
      obtain ⟨h1, h2⟩ := h.flight j hj
      exact ⟨h1, fun b'' e => (h2 b'' e).mono { m.shared with wire := w, tally := t } hw⟩

theorem Hearing.hands_over (h : Hearing n c gone r root m) {host : HostKey}
    {a : HostKey × Except SectorError Bytes}
    (hf : m.flight = front ++ ⟨host, some (.done a)⟩ :: back) :
    Hearing n c gone r root { m with
      flight := front ++ back
      stopped := (raceDeliver root a m.shared).1
      shared := (raceDeliver root a m.shared).2
      handed := m.handed ++ [⟨host, a, (raceDeliver root a m.shared).1⟩] } := by
  obtain ⟨hcontract, hburst⟩ := h.flight ⟨host, some (.done a)⟩
    (by rw [hf]; exact List.mem_append_right _ List.mem_cons_self)
  obtain ⟨b', hb', hacc⟩ := hburst _ rfl
  obtain ⟨tried, hattempt, hnoticed⟩ := h.attempt
  have hrest : ∀ j ∈ front ++ back, j ∈ m.flight := fun j hj => hf ▸ Pool.mem_removed hj
  cases b' with
  | wait ms t => cases hb'
  | done ans =>
    obtain rfl : a = (host, ans.sector root) := Burst.done.inj hb'
    cases hsec : ans.sector root with
    | ok b =>
      refine ⟨⟨tried, hattempt, ?_⟩, h.pruned, fun _ => ?_, h.queue,
        fun j hj => h.flight j (hrest j hj)⟩
      · rw [List.filterMap_append, hnoticed]
        exact (List.append_nil _).symm
      · exact Option.some_ne_none b
    | error e =>
      have hgone : e = .contractMissing → gone host := fun he =>
        Exchange.gone_of_accords hacc (hsec.trans (congrArg _ he))
      have hw : Wire.Evolves n gone m.shared.wire (m.shared.wire.note (.failed host root e)) :=
        .single (.note _ _)
      refine ⟨⟨_, hattempt.notice root hcontract hgone, ?_⟩, h.pruned,
        fun hstop => (by cases hstop), h.queue, fun j hj => ?_⟩
      · rw [List.filter_append, List.filterMap_append, hnoticed]
        rfl
      · obtain ⟨h1, h2⟩ := h.flight j (hrest j hj)
        exact ⟨h1, fun b hb => (h2 b hb).mono (raceDeliver root (host, .error e) m.shared).2 hw⟩

theorem Hearing.next (hs : Spares n c gone r.wire) {schedule : Schedule}
    (h : Hearing n c gone r root m)
    (hn : Pool.Moment.Next (racePlan n c schedule root) m m') : Hearing n c gone r root m' := by
  obtain ⟨_, hattempt, -⟩ := h.attempt
  cases hn with
  | started host rest hq hgo hl =>
    refine ⟨h.attempt, h.pruned, h.won, fun k hk => h.queue k ?_, fun j hj => ?_⟩
    · rw [hq]
      exact List.mem_cons_of_mem _ hk
    · rcases List.mem_append.1 hj with hj | hj
      · exact h.flight j hj
      · rw [List.mem_singleton.1 hj]
        exact ⟨h.queue host (by rw [hq]; exact List.mem_cons_self), fun b hb => by cases hb⟩
  | begun front back host hf =>
    obtain ⟨hw, hacc⟩ := Exchange.start_good (hs host root) hattempt.wire
    exact h.goes_on hf (t := m.shared.tally.addFetch) rfl hw (Exchange.start_asked _ m.shared.wire)
      (Exchange.start_records _ m.shared.wire) ⟨_, rfl, hacc⟩
  | resumed front back host ms t hf =>
    obtain ⟨b', hb', hacc⟩ := (h.flight ⟨host, some (.wait ms t)⟩
      (by rw [hf]; exact List.mem_append_right _ List.mem_cons_self)).2 _ rfl
    rw [eq_wait_of_told hb'.symm] at hacc
    obtain ⟨hw, hacc'⟩ := Exchange.resume_good (hs host root) hattempt.wire hacc
    have hhost : t.goal.host = host := congrArg Exchange.Goal.host hacc.1
    have hr := Exchange.resume_records (n := n) (c := c) m.shared.wire t
    rw [hhost] at hr
    refine h.goes_on hf (t := m.shared.tally) rfl hw (Exchange.resume_asked m.shared.wire t)
      (hr.mono fun _ => .inr) ⟨_, ?_, hacc'⟩
    rw [← hhost]
    rfl
  | handed front back host a hf hgo hfull => exact h.hands_over hf
  | dropped front back job hf hstop =>
    exact ⟨h.attempt, h.pruned, h.won, h.queue, fun j hj => h.flight j (hf ▸ Pool.mem_removed hj)⟩

end

theorem raced_attempt (hs : Spares n c gone r.wire) (hd : n.Dutiful r.wire.net) (orders : Orders)
    (root : Hash256) :
    ∃ m : SearchMoment σ,
      Pool.Moment.Lives (racePlan n c (orders r.wire.trace.length) root)
        (.opening false (n.hosts r.wire.net)
          ⟨r.wire.note (.raced root), r.tally.addRace, none, []⟩) m
      ∧ m.Over ∧ raced n c orders root r = (m.stopped, m.shared) ∧ Hearing n c gone r root m
      ∧ (m.stopped = false → (m.handed.map Pool.Handed.item).Perm (n.hosts r.wire.net)) := by
  have hopening : Hearing n c gone r root (.opening false (n.hosts r.wire.net)
      ⟨r.wire.note (.raced root), r.tally.addRace, none, []⟩) :=
    ⟨⟨_, attempt_raced r.wire root, rfl⟩, rfl, fun hstop => (by cases hstop),
      fun host hh => (hd.listed _ host .refl).1 hh, fun j hj => absurd hj List.not_mem_nil⟩
  obtain ⟨m, hlives, hover, hrun⟩ := Pool.lives_of_runFrom
    (p := racePlan n c (orders r.wire.trace.length) root)
    (Pool.mirrors_initial (n.hosts r.wire.net)
      ⟨r.wire.note (.raced root), r.tally.addRace, none, []⟩)
  refine ⟨m, hlives, hover, hrun, ?_,
    fun hgo => ((Pool.orderly_opening.lives hlives).over hover hgo).2⟩
  clear hover hrun
  induction hlives with
  | refl => exact hopening
  | tail _ hn ih => exact ih.next hs hn

/-- searching all hosts is an episode -/
theorem race_settled (hs : Spares n c gone r.wire) (hd : n.Dutiful r.wire.net) (orders : Orders)
    (root : Hash256) :
    ∃ e, Settled n gone r (race n c orders root r).2 e ∧ Searched n c orders root r e := by
  obtain ⟨quiet, hq, hquiet⟩ := Attempt.settled (s := r)
    (attempt_none r.wire : Attempt n gone _ _ _ _) hd rfl
  cases hc : r.cache.get? root with
  | some b =>
    have hsome : r.cache.get? root ≠ none := by
      rw [hc]
      exact Option.some_ne_none b
    rw [race_cached n c orders r hc]
    exact ⟨quiet, hquiet.same rfl rfl, .needless (.inl hsome) hq⟩
  | none =>
    by_cases hh : n.hosts r.wire.net = []
    · rw [race_nobody n c orders r hc hh]
      exact ⟨quiet, hquiet, .needless (.inr hh) hq⟩
    · obtain ⟨m, hlives, hover, hrun, hhearing, hheard⟩ := raced_attempt hs hd orders root
      obtain ⟨tried, hattempt, hnoticed⟩ := hhearing.attempt
      obtain ⟨e, rfl, hset⟩ := hattempt.settled
        (s := { r with wire := m.shared.wire, tally := m.shared.tally }) hd hhearing.pruned
      have hshared : (raced n c orders root r).2 = m.shared := congrArg Prod.snd hrun
      have hafter : afterRace n r (raced n c orders root r).2
          = m.shared.stale.foldl (fun r host => prune n host r)
            { r with wire := m.shared.wire, tally := m.shared.tally } := by
        rw [hshared]
        rfl
      cases hwin : (raced n c orders root r).2.winner with
      | none =>
        have hrace := race_lost n c orders r hc hh hwin
        have hgo : m.stopped = false := by
          rw [hshared] at hwin
          exact Bool.eq_false_iff.2 fun hstop => hhearing.won hstop hwin
        refine ⟨e, ?_, .made hc m hlives hover hrun hnoticed fun _ => hheard hgo⟩
        rw [hrace, hafter]
        exact hset
      | some b =>
        have hrace := race_won n c orders r hc hh hwin
        refine ⟨e, ?_, .made hc m hlives hover hrun hnoticed fun hnone => ?_⟩
        · rw [hrace, hafter]
          exact hset.same rfl rfl
        · rw [hrace] at hnone
          cases hnone

end

end Run

end Reclaim

import Reclaim.Proofs.Host.Static
import Reclaim.Proofs.Pool.Ledger
import Reclaim.Proofs.Recovery.Moments

/-!
# Recovering from hosts that always answer the same

* `Network.Available`   a host under contract serves a sector;
* `Network.Accepted`    the sectors that such hosts may send;
* `Run.Led`     what such hosts have led a run to: only those that deny their contract have lost it,
                and only available sectors are at hand;
* `fetch_led`, `race_led`   a sector is found exactly if it is at hand or served;
* `moves_led`   a recovery keeps a run so.
-/

namespace Reclaim

variable {σ : Type}

/-! ## contracts -/

/-- a host that has no record of its contract -/
def Denying (tells : HostKey → Hash256 → Verdict) (host : HostKey) : Prop :=
  ∃ root, tells host root = .denies

/-- a host under contract serves the sector with the given root -/
def Network.Available (n : Network σ) (net : σ) (tells : HostKey → Hash256 → Verdict)
    (root : Hash256) : Prop :=
  ∃ host ∈ n.hosts net, tells host root = .serves

/-- a sector that some host under contract may send, now or later, and that is the one with the
given root -/
def Network.Accepted (n : Network σ) (c : Settings) (net : σ) (root : Hash256) (b : Bytes) : Prop :=
  ∃ s host k, n.Reach (fun _ => True) net s ∧ (n.contract? s host).isSome = true
    ∧ n.Talks c s host root k ∧ k.Ends c (.ok b) ∧ c.verdict root (.ok b) = .serves

theorem Network.Accepted.earlier {n : Network σ} {c : Settings} {net s : σ} {root : Hash256}
    {b : Bytes} (hr : n.Reach (fun _ => True) net s) (h : n.Accepted c s root b) :
    n.Accepted c net root b := by
  obtain ⟨s', host, k, hs', h⟩ := h
  exact ⟨s', host, k, hr.trans hs', h⟩

namespace Network.Static

variable {n : Network σ} {c : Settings} {net s : σ} {tells : HostKey → Hash256 → Verdict}
  {host : HostKey} {root : Hash256}

/-- a sector that an exchange with a host under contract comes to is accepted -/
theorem accepted (h : n.Static c net tells) {g : Exchange.Goal}
    (hc : (n.contract? net g.host).isSome = true) {a : Answer}
    (ha : Exchange.Explained n c net g a) {b : Bytes} (hb : a.sector g.root = .ok b) :
    n.Accepted c net g.root b := by
  have hserves := Answer.sector_ok_iff.1 ⟨b, hb⟩
  obtain ⟨k, hk, rfl⟩ := ha
  rcases h.talks net g.host g.root k .refl hc hk with ⟨r, hr, -⟩ | ⟨hs, -⟩
  · rw [Exchange.verdict_of_ends hr] at hserves
    obtain rfl : r = .ok b := by
      have hgiven := (Exchange.given_of_sector hb).1
      rcases Exchange.answer_of_ends g.limited hr with ⟨e, rfl, he⟩ | he
      · rw [he] at hgiven
        cases hgiven
      · have hread := (Exchange.eq_ok_of_accept (hgiven.symm.trans he)).1
        cases r with
        | error e => cases hread
        | ok b' =>
          cases hread
          rfl
    exact ⟨net, g.host, k, .refl, hc, hk, hr, hserves⟩
  · rw [Exchange.verdict_of_stalls hs] at hserves
    cases hserves

theorem accepted_download (h : n.Static c net tells) {w : Wire σ} (hw : w.net = net)
    (hc : (n.contract? net host).isSome = true) {b : Bytes}
    (hb : (Reclaim.download n c host root w).1 = .ok b) : n.Accepted c net root b := by
  subst hw
  have hexp := (Work.perform_keeps (Exchange.exchange_underway n c w.net ⟨host, root, false⟩) _ rfl w
    .refl).2
  exact h.accepted (g := ⟨host, root, false⟩) hc hexp hb

theorem fewer (h : n.Static c net tells) (hr : n.Reach (fun _ => True) net s)
    (hc : (n.contract? s host).isSome = true) : (n.contract? net host).isSome = true := by
  induction hr with
  | refl => exact hc
  | dial s k hr ih => exact ih ((h.asked s _ host hr (.dial s k .refl)).1 hc)
  | settings s k hr ih => exact ih ((h.asked s _ host hr (.settings s k .refl)).1 hc)
  | read s k parts cost hr ih => exact ih ((h.asked s _ host hr (.read s k parts cost .refl)).1 hc)
  | remove s k _ hr ih => exact ih (h.lost s k host hr hc)

theorem stays (h : n.Static c net tells) (hd : ¬Denying tells host)
    (hr : n.Reach (Denying tells) net s) (hc : (n.contract? net host).isSome = true) :
    (n.contract? s host).isSome = true := by
  have up : ∀ {s}, n.Reach (Denying tells) net s → n.Reach (fun _ => True) net s :=
    fun hr => hr.mono fun _ _ => trivial
  induction hr with
  | refl => exact hc
  | dial s k hr ih => exact (h.asked s _ host (up hr) (.dial s k .refl)).2 ih
  | settings s k hr ih => exact (h.asked s _ host (up hr) (.settings s k .refl)).2 ih
  | read s k parts cost hr ih => exact (h.asked s _ host (up hr) (.read s k parts cost .refl)).2 ih
  | remove s k hk hr ih =>
    refine h.kept s k host (up hr) ?_ ih
    rintro rfl
    exact hd hk

theorem not_denying (h : n.Static c net tells) (hs : tells host root = .serves) :
    ¬Denying tells host := by
  rintro ⟨root', hd⟩
  rw [h.denies host root' root hd] at hs
  cases hs

end Network.Static

namespace Run

/-! ## runs -/

/-- what hosts that always answer the same have led a run to -/
structure Led (n : Network σ) (net : σ) (tells : HostKey → Hash256 → Verdict) (r : Run σ) :
    Prop where
  reach : n.Reach (Denying tells) net r.wire.net
  cached : ∀ root b, r.cache.get? root = some b → n.Available net tells root

section
variable {n : Network σ} {c : Settings} {net : σ} {tells : HostKey → Hash256 → Verdict}
  {r r' : Run σ} {host : HostKey} {root : Hash256}

theorem led_fresh (n : Network σ) (net : σ) (tells : HostKey → Hash256 → Verdict)
    (progress : Option Progress) : (Run.fresh net progress).Led n net tells := by
  refine ⟨.refl, fun root b hb => ?_⟩
  rw [fresh, Cache.get?_empty] at hb
  cases hb

theorem Led.on (hl : r.Led n net tells) (hw : n.Reach (Denying tells) r.wire.net r'.wire.net)
    (hc : r'.cache = r.cache) : r'.Led n net tells :=
  ⟨hl.reach.trans hw, hc ▸ hl.cached⟩

theorem Led.remember (hl : r.Led n net tells) (ha : n.Available net tells root) (b : Bytes) :
    (r.remember root b).Led n net tells := by
  refine ⟨hl.reach, fun root' b' hb => ?_⟩
  rw [Run.remember, Cache.get?_insert] at hb
  split at hb
  · next e => exact e ▸ ha
  · exact hl.cached root' b' hb

theorem Led.static (hl : r.Led n net tells) (h : n.Static c net tells) :
    n.Static c r.wire.net tells :=
  h.later (hl.reach.mono fun _ _ => trivial)

theorem Led.mem_hosts (hl : r.Led n net tells) (h : n.Static c net tells)
    (hh : host ∈ n.hosts r.wire.net) : host ∈ n.hosts net := by
  rw [(hl.static h).listed _ host .refl] at hh
  rw [h.listed _ host .refl]
  exact h.fewer (hl.reach.mono fun _ _ => trivial) hh

theorem Led.serving (hl : r.Led n net tells) (h : n.Static c net tells) (hh : host ∈ n.hosts net)
    (hs : tells host root = .serves) : (n.contract? r.wire.net host).isSome = true :=
  h.stays (h.not_denying hs) hl.reach ((h.listed _ host .refl).1 hh)

/-! ## one host -/

theorem fetch_led (h : n.Static c net tells) (hl : r.Led n net tells)
    (hc : (∃ b, r.cache.get? root = some b) ∨ (n.contract? r.wire.net host).isSome = true) :
    (fetch n c host root r).2.Led n net tells
      ∧ ((∃ b, r.cache.get? root = some b) ∨ tells host root = .serves →
          ∃ b, (fetch n c host root r).1 = .ok b)
      ∧ ((fetch n c host root r).1 = .error .contractMissing → Denying tells host) := by
  cases hcache : r.cache.get? root with
  | some b =>
    rw [fetch_cached n c r hcache]
    exact ⟨hl.on .refl rfl, fun _ => ⟨b, rfl⟩, fun he => by cases he⟩
  | none =>
    have hcontract := hc.resolve_left fun ⟨b, hb⟩ => by rw [hcache] at hb; cases hb
    obtain ⟨hserves, hdenies, hasked⟩ := (hl.static h).download rfl hcontract root
    have hfetched : Led n net tells { r with
        wire := (download n c host root r.wire).2, tally := r.tally.addFetch } :=
      hl.on hasked.reach rfl
    cases hd : (download n c host root r.wire).1 with
    | error e =>
      rw [fetch_error n c r hcache hd]
      refine ⟨hfetched, fun hs => ?_, fun he => ⟨root, hdenies.1 (hd.trans he)⟩⟩
      rcases hs with ⟨b, hb⟩ | hs
      · cases hb
      · obtain ⟨b, hb⟩ := hserves.2 hs
        rw [hd] at hb
        cases hb
    | ok b =>
      rw [fetch_ok n c r hcache hd]
      have hhost := (hl.static h).listed r.wire.net host .refl |>.2 hcontract
      have havail : n.Available net tells root :=
        ⟨host, hl.mem_hosts h hhost, hserves.1 ⟨b, hd⟩⟩
      exact ⟨hfetched.remember havail b, fun _ => ⟨b, rfl⟩, fun he => by cases he⟩

theorem blame_led {s : SectorRef} {e : SectorError} (hl : r.Led n net tells)
    (he : e = .contractMissing → Denying tells s.host) : (blame n s e r).Led n net tells := by
  unfold blame
  split
  · next h => exact hl.on ((Wire.Step.prune _ s.host (he h)).reach .refl) rfl
  · exact hl.on .refl rfl

theorem asked_of_not_passes {s : SectorRef} (hp : ¬passes n r s = true) :
    (∃ b, r.cache.get? s.root = some b) ∨ (n.contract? r.wire.net s.host).isSome = true := by
  rw [passes_iff, not_and_or] at hp
  exact hp.imp Option.ne_none_iff_exists'.1 Option.isSome_iff_ne_none.2

theorem claim_led (h : n.Static c net tells) (hl : r.Led n net tells) (s : SectorRef) :
    (fetchAny n c [s] r).2.Led n net tells
      ∧ (s.host ∈ n.hosts net ∧ tells s.host s.root = .serves →
          ∃ b, (fetchAny n c [s] r).1 = some b) := by
  by_cases hp : passes n r s = true
  · rw [fetchAny_pass n c r [] hp]
    refine ⟨hl, fun ⟨hh, hs⟩ => ?_⟩
    have hsome := hl.serving h hh hs
    rw [(passes_iff.1 hp).2] at hsome
    cases hsome
  · obtain ⟨h1, h2, h3⟩ := fetch_led h hl (asked_of_not_passes hp)
    cases hf : (fetch n c s.host s.root r).1 with
    | ok b =>
      rw [fetchAny_ok n c r [] hp hf]
      exact ⟨h1, fun _ => ⟨b, rfl⟩⟩
    | error e =>
      rw [fetchAny_error n c r [] hp hf]
      refine ⟨blame_led h1 fun he => h3 (hf.trans (congrArg _ he)), fun ⟨_, hs⟩ => ?_⟩
      obtain ⟨b, hb⟩ := h2 (.inr hs)
      rw [hf] at hb
      cases hb

/-! ## all hosts -/

/-- a search that goes on: the hosts whose answers have come in do not serve the sector -/
structure Searching (n : Network σ) (net : σ) (tells : HostKey → Hash256 → Verdict)
    (root : Hash256) (l : List HostKey) (s : Race σ) : Prop where
  asked : n.Asked net s.wire.net
  winner : s.winner = none
  stale : ∀ host ∈ s.stale, Denying tells host
  settled : ∀ host ∈ l, tells host root ≠ .serves

/-- an exchange of a search, or what it came to -/
def Sought (n : Network σ) (c : Settings) (net : σ) (root : Hash256) (host : HostKey) (s : Race σ) :
    Burst Exchange.Task (HostKey × Except SectorError Bytes) → Prop
  | .wait ms t => Exchange.Underway n c net ⟨host, root, false⟩ s.wire (.wait ms t)
  | .done a => ∃ ans : Answer, a = (host, ans.sector root)
      ∧ Exchange.Explained n c net ⟨host, root, false⟩ ans

theorem Sought.mono (s s' : Race σ) (hw : n.Asked s.wire.net s'.wire.net)
    {b : Burst Exchange.Task (HostKey × Except SectorError Bytes)}
    (hb : Sought n c net root host s b) : Sought n c net root host s' b := by
  cases b with
  | wait ms t =>
    have hb : Exchange.Underway n c net ⟨host, root, false⟩ s.wire (.wait ms t) := hb
    exact hb.mono hw
  | done a => exact hb

theorem sought_told {s : Race σ} {b : Burst Exchange.Task Answer}
    (hb : Exchange.Underway n c net ⟨host, root, false⟩ s.wire b) :
    Sought n c net root host s (told root host b) := by
  cases b with
  | wait ms t => exact hb
  | done a => exact ⟨a, rfl, hb⟩

theorem race_booked (h : n.Static c net tells) (schedule : Schedule) (root : Hash256) :
    Pool.Booked (racePlan n c schedule root) (fun host => (n.contract? net host).isSome = true)
      (Searching n net tells root) (Sought n c net root) where
  start host l s hc hs := by
    have hasked := Exchange.start_asked (n := n) (c := c) ⟨host, root, false⟩ s.wire
    refine ⟨⟨hs.asked.trans hasked, hs.winner, hs.stale, hs.settled⟩, ?_, fun _ _ hb => ?_⟩
    · exact sought_told (s := ((raceWork n c root).start host s).2)
        (Exchange.start_underway hs.asked)
    · exact Sought.mono s ((raceWork n c root).start host s).2 hasked hb
  resume host ms t l s hc hs hb := by
    have hb : Exchange.Underway n c net ⟨host, root, false⟩ s.wire (.wait ms t) := hb
    have hasked := Exchange.resume_asked (n := n) (c := c) s.wire t
    refine ⟨⟨hs.asked.trans hasked, hs.winner, hs.stale, hs.settled⟩, ?_, fun _ _ hb => ?_⟩
    · have he : ((raceWork n c root).resume t s).1
          = told root host (Exchange.resume n c t s.wire).1 := by
        rw [← show t.goal.host = host from congrArg Exchange.Goal.host hb.1]
        rfl
      show Sought n c net root host ((raceWork n c root).resume t s).2
        ((raceWork n c root).resume t s).1
      rw [he]
      exact sought_told (Exchange.resume_underway hb)
    · exact Sought.mono s ((raceWork n c root).resume t s).2 hasked hb
  deliver host a l s hc hs hb hgo := by
    obtain ⟨ans, rfl, hexp⟩ := hb
    have ha : ans.verdict root = tells host root := h.verdict hc hexp
    have hgo : (raceDeliver root (host, ans.sector root) s).1 = false := hgo
    cases hsec : ans.sector root with
    | ok b =>
      rw [hsec] at hgo
      cases hgo
    | error e =>
      have hnot : tells host root ≠ .serves := by
        rw [← ha, Ne, ← Answer.sector_ok_iff, hsec]
        rintro ⟨b, hb⟩
        cases hb
      refine ⟨⟨hs.asked, hs.winner, fun k hk => ?_, fun k hk => ?_⟩, fun _ _ hb => ?_⟩
      · have hk : k ∈ if e = .contractMissing then s.stale ++ [host] else s.stale := hk
        split at hk
        · next he =>
          rcases List.mem_append.1 hk with hk | hk
          · exact hs.stale k hk
          · rw [List.mem_singleton.1 hk]
            exact ⟨root, ha ▸ Answer.sector_missing_iff.1 (hsec.trans (congrArg _ he))⟩
        · exact hs.stale k hk
      · rcases List.mem_cons.1 hk with rfl | hk
        · exact hnot
        · exact hs.settled k hk
      · exact Sought.mono s (raceDeliver root (host, .error e) s).2 .refl hb

/-- a race is won exactly if one of the hosts serves the sector, by one that is accepted -/
theorem raced_led (h : n.Static c r.wire.net tells) (orders : Orders) (root : Hash256) :
    n.Asked r.wire.net (raced n c orders root r).2.wire.net
      ∧ (∀ host ∈ (raced n c orders root r).2.stale, Denying tells host)
      ∧ ((∃ b, (raced n c orders root r).2.winner = some b)
          ↔ ∃ host ∈ n.hosts r.wire.net, tells host root = .serves)
      ∧ ∀ b, (raced n c orders root r).2.winner = some b → n.Accepted c r.wire.net root b := by
  have hbooked := race_booked h (orders r.wire.trace.length) root
  have hbegun : Searching n r.wire.net tells root []
      (⟨r.wire.note (.raced root), r.tally.addRace, none, []⟩ : Race σ) :=
    ⟨.refl, rfl, fun k hk => absurd hk List.not_mem_nil, fun k hk => absurd hk List.not_mem_nil⟩
  obtain ⟨hfull, hcut⟩ := Pool.run_books hbooked (n.hosts r.wire.net)
    (fun host hh => (h.listed _ host .refl).1 hh) _ hbegun
  cases hstop : (raced n c orders root r).1 with
  | false =>
    obtain ⟨settled, hperm, hs⟩ := hfull hstop
    have hnone : (raced n c orders root r).2.winner = none := hs.winner
    rw [hnone]
    refine ⟨hs.asked, hs.stale, ⟨fun ⟨b, hb⟩ => (by cases hb), fun ⟨host, hh, ht⟩ => ?_⟩,
      fun b hb => by cases hb⟩
    exact absurd ht (hs.settled host (hperm.mem_iff.2 hh))
  | true =>
    obtain ⟨settled, host, a, s', hh, hs, ⟨ans, rfl, hexp⟩, hd, he⟩ := hcut hstop
    have hc := (h.listed _ host .refl).1 hh
    have he : (raced n c orders root r).2 = (raceDeliver root (host, ans.sector root) s').2 := he
    have hd : (raceDeliver root (host, ans.sector root) s').1 = true := hd
    rw [he]
    cases hsec : ans.sector root with
    | error e =>
      rw [hsec] at hd
      cases hd
    | ok b =>
      have ha : ans.verdict root = tells host root := h.verdict hc hexp
      have ht : tells host root = .serves := ha ▸ Answer.sector_ok_iff.1 ⟨b, hsec⟩
      refine ⟨hs.asked, hs.stale, ⟨fun _ => ⟨host, hh, ht⟩, fun _ => ⟨b, rfl⟩⟩, fun b' hb' => ?_⟩
      cases hb'
      exact h.accepted (g := ⟨host, root, false⟩) hc hexp hsec

/-- a search finds a sector exactly if it is at hand or available -/
theorem race_led (h : n.Static c net tells) (hl : r.Led n net tells) (orders : Orders)
    (root : Hash256) :
    (race n c orders root r).2.Led n net tells
      ∧ (n.Available net tells root → ∃ b, (race n c orders root r).1 = some b) := by
  cases hc : r.cache.get? root with
  | some b =>
    rw [race_cached n c orders r hc]
    exact ⟨hl.on .refl rfl, fun _ => ⟨b, rfl⟩⟩
  | none =>
    have hlisted : ∀ host ∈ n.hosts net, tells host root = .serves → host ∈ n.hosts r.wire.net :=
      fun host hh hs => ((hl.static h).listed _ host .refl).2 (hl.serving h hh hs)
    by_cases hh : n.hosts r.wire.net = []
    · rw [race_nobody n c orders r hc hh]
      refine ⟨hl, fun ⟨host, hhost, hs⟩ => ?_⟩
      have := hlisted host hhost hs
      rw [hh] at this
      exact absurd this List.not_mem_nil
    · obtain ⟨hasked, hstale, hwon, -⟩ := raced_led (hl.static h) orders root
      have hafter : Led n net tells (afterRace n r (raced n c orders root r).2) := by
        refine hl.on (hasked.reach.trans ?_) (afterRace_quiet n (fun _ => True) r _).1
        have hleads : Leads n c (Denying tells)
            { r with wire := (raced n c orders root r).2.wire,
                     tally := (raced n c orders root r).2.tally }
            (afterRace n r (raced n c orders root r).2) := leads_pruneAll _ hstale
        exact hleads.wire.reach .refl
      cases hwin : (raced n c orders root r).2.winner with
      | none =>
        rw [race_lost n c orders r hc hh hwin]
        refine ⟨hafter, fun ⟨host, hhost, hs⟩ => ?_⟩
        obtain ⟨b, hb⟩ := hwon.2 ⟨host, hlisted host hhost hs, hs⟩
        rw [hwin] at hb
        cases hb
      | some b =>
        rw [race_won n c orders r hc hh hwin]
        obtain ⟨host, hhost, hs⟩ := hwon.1 ⟨b, hwin⟩
        exact ⟨hafter.remember ⟨host, hl.mem_hosts h hhost, hs⟩ b, fun _ => ⟨b, rfl⟩⟩

/-- whatever a recovery does, only those that deny their contract lose it, and only available
sectors come to hand -/
theorem moves_led (h : n.Static c net tells) (hl : r.Led n net tells) (hm : Moves n c r r') :
    r'.Led n net tells := by
  induction hm with
  | refl => exact hl
  | tail _ hs ih =>
    cases hs with
    | claim s => exact (claim_led h ih s).1
    | race orders root => exact (race_led h ih orders root).1
    | chunk t i => exact ih.on .refl rfl

end

end Run

end Reclaim

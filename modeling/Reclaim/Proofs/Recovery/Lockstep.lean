import Reclaim.Proofs.Host.Static
import Reclaim.Proofs.Recovery.Abreast

/-!
# Hosts that answer at once, asked one after the other

Two recoveries from hosts of different kinds that say the same and answer at once.  As long as only
one host is asked at a time, the recoveries go in step, and not even the counters tell them apart.

* `Exchange.start_refused`, `Exchange.start_answered`   an exchange with a host that answers at once;
* `Akin`            what two exchanges come to, failures being told apart only as far as anything is
                    done about them;
* `Network.Lockstep`   hosts of two kinds that say the same at once, whatever becomes of them;
* `Run.Twin`        runs with the same sectors at hand and the same counters;
* `fetchAny_twin`, `race_twin`   trying claimed copies, and searching all hosts;
* `abreast_twin`    so that recoveries go on side by side.
-/

namespace Reclaim

variable {σ σ' : Type}

/-- the same sector, or failures of which both or neither tell that there is no contract -/
inductive Akin : Except SectorError Bytes → Except SectorError Bytes → Prop
  | sector (b : Bytes) : Akin (.ok b) (.ok b)
  | failed (e e' : SectorError) (h : e = .contractMissing ↔ e' = .contractMissing) :
      Akin (.error e) (.error e')

theorem Akin.refl (r : Except SectorError Bytes) : Akin r r := by
  cases r with
  | ok b => exact .sector b
  | error e => exact .failed e e Iff.rfl

/-- hosts of two kinds, in states that are related: the same are listed and under contract, and an
exchange with one of them is over at once and comes to the same for both -/
structure Network.Lockstep (n : Network σ) (n' : Network σ') (c : Settings) (R : σ → σ' → Prop) :
    Prop where
  hosts : ∀ s s', R s s' → n.hosts s = n'.hosts s'
  contract : ∀ s s' k, R s s' → (n.contract? s k).isSome = (n'.contract? s' k).isSome
  listed : ∀ s s' k, R s s' → k ∈ n.hosts s → (n.contract? s k).isSome = true
  exchange : ∀ (w : Wire σ) (w' : Wire σ') (k : HostKey) (root : Hash256), R w.net w'.net →
    (n.contract? w.net k).isSome = true → ∃ a v a' v',
      Exchange.start n c ⟨k, root, false⟩ w = (.done a, v)
        ∧ Exchange.start n' c ⟨k, root, false⟩ w' = (.done a', v')
        ∧ Akin (a.sector root) (a'.sector root)
        ∧ R v.net v'.net ∧ n.hosts v.net = n.hosts w.net
  removed : ∀ s s' k, R s s' → R (n.removeContract k s).2 (n'.removeContract k s').2

/-! ## exchanges that are over at once -/

theorem Reply.within_now {α : Type} {r : Reply α} {x : Except SessionError α} (h : r = .now x)
    (what : String) (limit : Nat) : r.within what limit = (0, x.mapError classify) :=
  Reply.within_of_le h (Nat.zero_le limit)

namespace Exchange

section
variable {n : Network σ} {c : Settings} {g : Goal} {w : Wire σ} {spent : Nat}

theorem start_now {x : Except SessionError Unit} (h : (n.dial g.host w.net).1 = .now x) :
    start n c g w = afterDial n c g 0 (x.mapError classify) (w.dial n g.host g.root).2 := by
  have ht := Reply.within_now h "dial" c.dialLimit
  unfold start Wire.dial
  dsimp only
  rw [ht]
  exact if_pos rfl

theorem afterDial_now {x : Except SessionError HostSettings}
    (h : (n.settings g.host w.net).1 = .now x) :
    afterDial n c g spent (.ok ()) w
      = afterSettings n c g spent (x.mapError classify) (w.settings n g.host).2 := by
  have ht := Reply.within_now h "settings" c.settingsLimit
  unfold afterDial Wire.settings
  dsimp only
  rw [ht]
  exact if_pos rfl

theorem afterSettings_now {prices : HostSettings} {x : Except SessionError Bytes}
    (h : (n.read g.host [wholeSector c g.root] (readCost prices [wholeSector c g.root]) w.net).1
      = .now x) : (afterSettings n c g spent (.ok prices) w).1
        = .done (accept c (x.mapError classify)) := by
  have ht := Reply.within_now h "read" c.readLimit
  unfold afterSettings Wire.read
  dsimp only
  rw [ht]
  exact congrArg Prod.fst (if_pos rfl)

/-- an exchange with a host that refuses the session at once -/
theorem start_refused {e : SessionError} (h : (n.dial g.host w.net).1 = .now (.error e)) :
    (start n c g w).1 = .done (.failed (classify e)) := by
  rw [start_now h]
  rfl

/-- an exchange with a host that answers all requests at once -/
theorem start_answered {prices : HostSettings} {x : Except SessionError Bytes}
    (hd : (n.dial g.host w.net).1 = .now (.ok ()))
    (hs : (n.settings g.host (n.dial g.host w.net).2).1 = .now (.ok prices))
    (hr : (n.read g.host [wholeSector c g.root] (readCost prices [wholeSector c g.root])
      (n.settings g.host (n.dial g.host w.net).2).2).1 = .now x) :
    (start n c g w).1 = .done (accept c (x.mapError classify)) := by
  rw [start_now hd]
  show (afterDial n c g 0 (.ok ()) (w.dial n g.host g.root).2).1 = _
  rw [afterDial_now hs]
  exact afterSettings_now hr

end

end Exchange

theorem download_at_once {n : Network σ} {c : Settings} {host : HostKey} {root : Hash256}
    {w v : Wire σ} {a : Answer} (h : Exchange.start n c ⟨host, root, false⟩ w = (.done a, v)) :
    download n c host root w = (a.sector root, v) := by
  have hperform : (Exchange.work n c).perform ⟨host, root, false⟩ w = (a, v) := by
    have hstart : (Exchange.work n c).start ⟨host, root, false⟩ w = (.done a, v) := h
    rw [Work.perform, hstart]
    exact Work.finish.eq_1 ..
  rw [download, hperform]

namespace Run

/-- runs with hosts that are related, the same sectors at hand, and the same counters -/
structure Twin (R : σ → σ' → Prop) (r : Run σ) (r' : Run σ') : Prop where
  net : R r.wire.net r'.wire.net
  cache : r.cache = r'.cache
  tally : r.tally = r'.tally

section
variable {n : Network σ} {n' : Network σ'} {c : Settings} {R : σ → σ' → Prop} {r : Run σ}
  {r' : Run σ'}

theorem twin_fresh {s : σ} {s' : σ'} (h : R s s') (progress progress' : Option Progress) :
    Twin R (Run.fresh s progress) (Run.fresh s' progress') := ⟨h, rfl, rfl⟩

theorem Twin.remember (ht : Twin R r r') (root : Hash256) (b : Bytes) :
    Twin R (r.remember root b) (r'.remember root b) :=
  ⟨ht.net, by rw [Run.remember, ht.cache]; rfl, ht.tally⟩

theorem Twin.hit (ht : Twin R r r') :
    Twin R { r with tally := r.tally.addHit } { r' with tally := r'.tally.addHit } :=
  ⟨ht.net, ht.cache, congrArg Tally.addHit ht.tally⟩

variable (h : n.Lockstep n' c R)
include h

theorem Twin.prune (ht : Twin R r r') (host : HostKey) :
    Twin R (r.prune n host) (r'.prune n' host) := by
  have hcontract := h.contract _ _ host ht.net
  unfold Run.prune Wire.prune
  cases hs : n.contract? r.wire.net host with
  | none =>
    rw [hs] at hcontract
    rw [Option.isNone_iff_eq_none.1 (Option.isSome_eq_false_iff.1 hcontract.symm)]
    exact ht
  | some contract =>
    rw [hs] at hcontract
    obtain ⟨contract', hs'⟩ := Option.isSome_iff_exists.1 hcontract.symm
    rw [hs']
    exact ⟨h.removed _ _ host ht.net, ht.cache, congrArg Tally.addPruned ht.tally⟩

theorem Twin.pruneAll (ht : Twin R r r') (hosts : List HostKey) :
    Twin R (hosts.foldl (fun r host => r.prune n host) r)
      (hosts.foldl (fun r host => r.prune n' host) r') := by
  induction hosts generalizing r r' with
  | nil => exact ht
  | cons host rest ih => exact ih (ht.prune h host)

/-! ## one host -/

theorem fetch_twin (ht : Twin R r r') {host : HostKey} {root : Hash256}
    (hc : (∃ b, r.cache.get? root = some b) ∨ (n.contract? r.wire.net host).isSome = true) :
    Akin (fetch n c host root r).1 (fetch n' c host root r').1
      ∧ Twin R (fetch n c host root r).2 (fetch n' c host root r').2 := by
  cases hcache : r.cache.get? root with
  | some b =>
    rw [fetch_cached n c r hcache, fetch_cached n' c r' (ht.cache ▸ hcache)]
    exact ⟨.sector b, ht.hit⟩
  | none =>
    have hcache' : r'.cache.get? root = none := ht.cache ▸ hcache
    have hcontract := hc.resolve_left fun ⟨b, hb⟩ => by
      rw [hcache] at hb
      cases hb
    obtain ⟨a, v, a', v', hs, hs', hakin, hnet, -⟩ := h.exchange _ _ host root ht.net hcontract
    have hd := download_at_once hs
    have hd' := download_at_once hs'
    have hfetched : Twin R
        { r with wire := (download n c host root r.wire).2, tally := r.tally.addFetch }
        { r' with wire := (download n' c host root r'.wire).2, tally := r'.tally.addFetch } := by
      rw [hd, hd']
      exact ⟨hnet, ht.cache, congrArg Tally.addFetch ht.tally⟩
    have hd := congrArg Prod.fst hd
    have hd' := congrArg Prod.fst hd'
    revert hakin hd hd'
    generalize a.sector root = x, a'.sector root = x'
    intro hakin hd hd'
    cases hakin with
    | sector b =>
      rw [fetch_ok n c r hcache hd, fetch_ok n' c r' hcache' hd']
      exact ⟨.sector b, hfetched.remember root b⟩
    | failed e e' he =>
      rw [fetch_error n c r hcache hd, fetch_error n' c r' hcache' hd']
      exact ⟨.failed e e' he, hfetched⟩

theorem Twin.blame (ht : Twin R r r') {s : SectorRef} {e e' : SectorError}
    (he : e = .contractMissing ↔ e' = .contractMissing) :
    Twin R (blame n s e r) (blame n' s e' r') := by
  have hnoticed : Twin R (r.notice s.host s.root e) (r'.notice s.host s.root e') :=
    ⟨ht.net, ht.cache, ht.tally⟩
  unfold Run.blame
  by_cases hm : e = .contractMissing
  · rw [if_pos hm, if_pos (he.1 hm)]
    exact hnoticed.prune h s.host
  · rw [if_neg hm, if_neg fun hm' => hm (he.2 hm')]
    exact hnoticed

theorem passes_twin (ht : Twin R r r') (s : SectorRef) :
    passes n r s = true ↔ passes n' r' s = true := by
  have hcontract : n.contract? r.wire.net s.host = none
      ↔ n'.contract? r'.wire.net s.host = none := by
    rw [← Option.not_isSome_iff_eq_none, ← Option.not_isSome_iff_eq_none,
      h.contract _ _ s.host ht.net]
  rw [passes_iff, passes_iff, ht.cache, hcontract]

theorem fetchAny_twin (refs : List SectorRef) (ht : Twin R r r') :
    Paired (Twin R) (fetchAny n c refs r) (fetchAny n' c refs r') := by
  induction refs generalizing r r' with
  | nil => exact ⟨rfl, ht⟩
  | cons s rest ih =>
    by_cases hp : passes n r s = true
    · rw [fetchAny_pass n c r rest hp, fetchAny_pass n' c r' rest ((passes_twin h ht s).1 hp)]
      exact ih ht
    · have hp' : ¬passes n' r' s = true := fun hp' => hp ((passes_twin h ht s).2 hp')
      have hc : (∃ b, r.cache.get? s.root = some b)
          ∨ (n.contract? r.wire.net s.host).isSome = true := by
        rw [passes_iff, not_and_or] at hp
        exact hp.imp Option.ne_none_iff_exists'.1 Option.isSome_iff_ne_none.2
      obtain ⟨hakin, hafter⟩ := fetch_twin h ht hc
      cases hf : (fetch n c s.host s.root r).1 with
      | ok b =>
        rw [hf] at hakin
        cases hf' : (fetch n' c s.host s.root r').1 with
        | ok b' =>
          rw [hf'] at hakin
          cases hakin
          rw [fetchAny_ok n c r rest hp hf, fetchAny_ok n' c r' rest hp' hf']
          exact ⟨rfl, hafter⟩
        | error e' =>
          rw [hf'] at hakin
          cases hakin
      | error e =>
        rw [hf] at hakin
        cases hf' : (fetch n' c s.host s.root r').1 with
        | ok b' =>
          rw [hf'] at hakin
          cases hakin
        | error e' =>
          rw [hf'] at hakin
          cases hakin with
          | failed _ _ he =>
            rw [fetchAny_error n c r rest hp hf, fetchAny_error n' c r' rest hp' hf']
            exact ih (hafter.blame h he)

/-! ## all hosts -/

omit h in
theorem raceWork_at_once {host : HostKey} {root : Hash256} {s : Race σ} {v : Wire σ} {a : Answer}
    (hs : Exchange.start n c ⟨host, root, false⟩ s.wire = (.done a, v)) :
    (raceWork n c root).start host s
      = (.done (host, a.sector root), { s with wire := v, tally := s.tally.addFetch }) := by
  have hwork : (Exchange.work n c).start ⟨host, root, false⟩ s.wire = (.done a, v) := hs
  unfold raceWork
  dsimp only
  rw [hwork]
  rfl

/-- two searches in step: neither or both have found the sector -/
structure Race.Twin (n : Network σ) (R : σ → σ' → Prop) (hosts : List HostKey) (s : Race σ)
    (s' : Race σ') : Prop where
  net : R s.wire.net s'.wire.net
  hosts : n.hosts s.wire.net = hosts
  tally : s.tally = s'.tally
  winner : s.winner = s'.winner
  stale : s.stale = s'.stale

theorem raced_twin (hone : c.workers ≤ 1) (orders orders' : Orders) (root : Hash256)
    (ht : Twin R r r') :
    Race.Twin n R (n.hosts r.wire.net) (raced n c orders root r).2 (raced n' c orders' root r').2 := by
  have hlimit : max c.workers 1 = 1 := Nat.max_eq_right hone
  have hbegun : Race.Twin n R (n.hosts r.wire.net)
      (⟨r.wire.note (.raced root), r.tally.addRace, none, []⟩ : Race σ)
      (⟨r'.wire.note (.raced root), r'.tally.addRace, none, []⟩ : Race σ') :=
    ⟨ht.net, rfl, congrArg Tally.addRace ht.tally, rfl, rfl⟩
  unfold raced
  rw [← h.hosts _ _ ht.net]
  refine Pool.run_paired (racePlan n c (orders r.wire.trace.length) root)
    (racePlan n' c (orders' r'.wire.trace.length) root) hlimit hlimit _ _ ?_ _ _ hbegun
  intro host hhost s s' hs
  have hcontract := h.listed _ _ host hs.net (hs.hosts.symm ▸ hhost)
  obtain ⟨a, v, a', v', hstart, hstart', hakin, hnet, hlist⟩ :=
    h.exchange _ _ host root hs.net hcontract
  refine ⟨_, _, _, _, raceWork_at_once hstart, raceWork_at_once hstart', ?_⟩
  have htally := congrArg Tally.addFetch hs.tally
  show (raceDeliver root _ _).1 = (raceDeliver root _ _).1
    ∧ Race.Twin n R _ (raceDeliver root _ _).2 (raceDeliver root _ _).2
  revert hakin
  generalize a.sector root = x, a'.sector root = x'
  intro hakin
  cases hakin with
  | sector b => exact ⟨rfl, hnet, hlist.trans hs.hosts, htally, rfl, hs.stale⟩
  | failed e e' he =>
    refine ⟨rfl, hnet, hlist.trans hs.hosts, htally, hs.winner, ?_⟩
    show (if e = .contractMissing then s.stale ++ [host] else s.stale)
      = if e' = .contractMissing then s'.stale ++ [host] else s'.stale
    rw [hs.stale]
    exact if_congr he rfl rfl

theorem race_twin (hone : c.workers ≤ 1) (orders orders' : Orders) (root : Hash256)
    (ht : Twin R r r') :
    Paired (Twin R) (race n c orders root r) (race n' c orders' root r') := by
  cases hcache : r.cache.get? root with
  | some b =>
    rw [race_cached n c orders r hcache, race_cached n' c orders' r' (ht.cache ▸ hcache)]
    exact ⟨rfl, ht.hit⟩
  | none =>
    have hcache' : r'.cache.get? root = none := ht.cache ▸ hcache
    have hhosts := h.hosts _ _ ht.net
    by_cases hh : n.hosts r.wire.net = []
    · rw [race_nobody n c orders r hcache hh, race_nobody n' c orders' r' hcache' (hhosts ▸ hh)]
      exact ⟨rfl, ht⟩
    · have hh' : n'.hosts r'.wire.net ≠ [] := hhosts ▸ hh
      have hs := raced_twin h hone orders orders' root ht
      have hafter : Twin R (afterRace n r (raced n c orders root r).2)
          (afterRace n' r' (raced n' c orders' root r').2) := by
        have hraced : Twin R
            { r with
              wire := (raced n c orders root r).2.wire, tally := (raced n c orders root r).2.tally }
            { r' with
              wire := (raced n' c orders' root r').2.wire
              tally := (raced n' c orders' root r').2.tally } := ⟨hs.net, ht.cache, hs.tally⟩
        unfold afterRace
        rw [← hs.stale]
        exact hraced.pruneAll h _
      cases hwin : (raced n c orders root r).2.winner with
      | none =>
        rw [race_lost n c orders r hcache hh hwin,
          race_lost n' c orders' r' hcache' hh' (hs.winner.symm.trans hwin)]
        exact ⟨rfl, hafter⟩
      | some b =>
        rw [race_won n c orders r hcache hh hwin,
          race_won n' c orders' r' hcache' hh' (hs.winner.symm.trans hwin)]
        exact ⟨rfl, hafter.remember root b⟩

/-- recoveries that ask one host after the other go in step -/
theorem abreast_twin (hone : c.workers ≤ 1) (orders orders' : Orders) :
    Recovery.Abreast n c orders n' c orders' (Twin R) where
  claims refs _ _ ht := fetchAny_twin h refs ht
  searches root _ _ ht := race_twin h hone orders orders' root ht
  chunks _ _ _ _ ht := ⟨ht.net, ht.cache, ht.tally⟩

end

end Run

namespace Recovery

open Run

/-- two recoveries in step come to the same, with the same report, and leave the same hosts listed -/
theorem recover_twin {n : Network σ} {n' : Network σ'} {c : Settings} {R : σ → σ' → Prop}
    (h : n.Lockstep n' c R) (hone : c.workers ≤ 1) (orders orders' : Orders) (d : Descriptor)
    (sink : Sink) {r : Run σ} {r' : Run σ'} (ht : Twin R r r') :
    (recover n c orders d sink r).result = (recover n' c orders' d sink r').result
      ∧ (recover n c orders d sink r).sink = (recover n' c orders' d sink r').sink
      ∧ Twin R (recover n c orders d sink r).run (recover n' c orders' d sink r').run := by
  have hprepare : prepare n' d r'.wire.net = prepare n d r.wire.net := by
    unfold prepare
    rw [h.hosts _ _ ht.net]
  rw [recover_eq, recover_eq, hprepare]
  cases prepare n d r.wire.net with
  | error e => exact ⟨rfl, rfl, ht⟩
  | ok t =>
    obtain ⟨hresult, hsink, hafter⟩ :=
      recoverChunks_abreast (abreast_twin h hone orders orders') t 0 d.chunks 0 sink ht
    dsimp only
    refine ⟨?_, by rw [sink_reported, sink_reported, hsink], by
      rw [run_reported, run_reported]
      exact hafter⟩
    unfold reported
    rw [← hresult]
    split
    · rfl
    · rw [hafter.tally]

end Recovery

end Reclaim

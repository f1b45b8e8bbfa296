import Reclaim.Proofs.Recovery.Fetch

/-!
# What a race gives

* `RaceAccords`   a delivery of a race accords with what is expected of its host;
* `race_keeps`, `deliver_keeps`   every expectation is kept through a race, in any order of events;
* `race_rule`     a sector that is raced for is genuine;
* `race_finds`    a race finds the sector if one host serves it, whatever the others do.
-/

namespace Reclaim.Run

variable {σ : Type}

section
variable {n : Network σ} {c : Settings} {gone : HostKey → Prop} {r r' r'' : Run σ}

/-- the invariant of a race -/
structure Race.Sound (n : Network σ) (c : Settings) (gone : HostKey → Prop) (origin : Wire σ)
    (root : Hash256) (s : Race σ) : Prop where
  wire : Wire.Evolves n gone origin s.wire
  winner : ∀ b, s.winner = some b → Genuine c s.wire root b
  stale : ∀ host ∈ s.stale, gone host

/-- a burst of a race is one of the exchange with some host, as expected of that host -/
def RaceAccords (e : HostKey → Exchange.Expect) (c : Settings) (root : Hash256) (s : Race σ)
    (b : Burst Exchange.Task (HostKey × Except SectorError Bytes)) : Prop :=
  ∃ host b', b = told root host b' ∧ Exchange.Accords (e host) c ⟨host, root, false⟩ s.wire b'

theorem RaceAccords.mono {e : HostKey → Exchange.Expect} {root : Hash256} {s : Race σ} (s' : Race σ)
    (hw : Wire.Evolves n gone s.wire s'.wire)
    {b : Burst Exchange.Task (HostKey × Except SectorError Bytes)}
    (h : RaceAccords e c root s b) : RaceAccords e c root s' b := by
  obtain ⟨host, b', e, ha⟩ := h
  exact ⟨host, b', e, ha.mono hw⟩

theorem Race.Sound.evolve {origin w : Wire σ} {root : Hash256} {s : Race σ} (t : Tally)
    (h : s.Sound n c gone origin root) (hw : Wire.Evolves n gone s.wire w) :
    Race.Sound n c gone origin root { s with wire := w, tally := t } :=
  ⟨h.wire.trans hw, fun b hb => (h.winner b hb).mono hw, h.stale⟩

theorem race_keeps {origin : Wire σ} {root : Hash256} {e : HostKey → Exchange.Expect}
    (hm : ∀ host, Exchange.Meets n c gone origin ⟨host, root, false⟩ (e host)) :
    (raceWork n c root).Keeps (fun _ => True) (Race.Sound n c gone origin root)
      (RaceAccords e c root) where
  start := by
    intro host s _ hs
    obtain ⟨h1, h2⟩ := Exchange.start_good (hm host) hs.wire
    refine ⟨hs.evolve s.tally.addFetch h1, ⟨host, _, rfl, h2⟩, fun b hb => ?_⟩
    exact hb.mono ((raceWork n c root).start host s).2 h1
  resume := by
    intro ms t s hs ht
    obtain ⟨host, b', hb', ha⟩ := ht
    rw [eq_wait_of_told hb'.symm] at ha
    obtain ⟨h1, h2⟩ := Exchange.resume_good (hm host) hs.wire ha
    have hhost : t.goal.host = host := congrArg Exchange.Goal.host ha.1
    refine ⟨hs.evolve s.tally h1, ⟨host, _, ?_, h2⟩, fun b hb => ?_⟩
    · rw [← hhost]
      rfl
    · exact hb.mono ((raceWork n c root).resume t s).2 h1

/-- whoever has a result delivered keeps the invariant -/
theorem deliver_keeps {origin : Wire σ} {root : Hash256}
    (a : HostKey × Except SectorError Bytes) (s : Race σ) (hs : s.Sound n c gone origin root)
    (ha : RaceAccords (.spares gone) c root s (.done a)) :
    (raceDeliver root a s).2.Sound n c gone origin root
      ∧ ∀ b, RaceAccords (.spares gone) c root s b →
          RaceAccords (.spares gone) c root (raceDeliver root a s).2 b := by
  obtain ⟨host, b', hb', hacc⟩ := ha
  cases b' with
  | wait ms t => cases hb'
  | done ans =>
    cases hb'
    unfold raceDeliver
    cases hsec : ans.sector root with
    | ok sector =>
      refine ⟨⟨hs.wire, fun b hb => ?_, hs.stale⟩, fun b hb => hb⟩
      cases hb
      exact Exchange.genuine_of_accords hacc hsec
    | error err =>
      have hw : Wire.Evolves n gone s.wire (s.wire.note (.failed host root err)) :=
        .single (.note _ _)
      refine ⟨⟨hs.wire.trans hw, fun b hb => (hs.winner b hb).mono hw, fun k hk => ?_⟩,
        fun b hb => hb.mono (raceDeliver root (host, .error err) s).2 hw⟩
      dsimp only at hk
      split at hk
      · next he =>
        rcases List.mem_append.1 hk with hk | hk
        · exact hs.stale k hk
        · rw [List.mem_singleton.1 hk]
          rw [he] at hsec
          exact Exchange.gone_of_accords hacc hsec
      · exact hs.stale k hk

theorem leads_pruneAll (hosts : List HostKey) (h : ∀ host ∈ hosts, gone host) :
    Leads n c gone r (hosts.foldl (fun r host => prune n host r) r) := by
  induction hosts generalizing r with
  | nil => exact .refl
  | cons host rest ih =>
    exact Leads.trans (leads_prune (h host List.mem_cons_self))
      (ih fun k hk => h k (List.mem_cons_of_mem _ hk))

section
variable (n : Network σ) (c : Settings) (orders : Orders) (root : Hash256) (r : Run σ)

/-- how the race over all hosts ends -/
def raced : Bool × Race σ :=
  Pool.run (racePlan n c (orders r.wire.trace.length) root) false (n.hosts r.wire.net)
    ⟨r.wire.note (.raced root), r.tally.addRace, none, []⟩

/-- the run after a race, hosts without a record of their contract being given up -/
def afterRace (s : Race σ) : Run σ :=
  s.stale.foldl (fun r host => prune n host r) { r with wire := s.wire, tally := s.tally }

variable {root}

theorem race_cached {b : Bytes} (hc : r.cache.get? root = some b) :
    race n c orders root r = (some b, { r with tally := r.tally.addHit }) := by
  rw [race, hc]

theorem race_nobody (hc : r.cache.get? root = none) (hh : n.hosts r.wire.net = []) :
    race n c orders root r = (none, r) := by
  rw [race, hc]
  simp only [hh]
  rfl

theorem race_lost (hc : r.cache.get? root = none) (hh : n.hosts r.wire.net ≠ [])
    (hw : (raced n c orders root r).2.winner = none) :
    race n c orders root r = (none, afterRace n r (raced n c orders root r).2) := by
  have he : ¬(n.hosts r.wire.net).isEmpty = true := fun h => hh (List.isEmpty_iff.1 h)
  unfold raced at hw
  rw [race, hc]
  simp only [if_neg he, hw]
  rfl

theorem race_won {b : Bytes} (hc : r.cache.get? root = none) (hh : n.hosts r.wire.net ≠ [])
    (hw : (raced n c orders root r).2.winner = some b) :
    race n c orders root r
      = (some b, (afterRace n r (raced n c orders root r).2).remember root b) := by
  have he : ¬(n.hosts r.wire.net).isEmpty = true := fun h => hh (List.isEmpty_iff.1 h)
  unfold raced at hw
  rw [race, hc]
  simp only [if_neg he, hw]
  rfl

end

theorem begun_sound (root : Hash256) (t : Tally) :
    Race.Sound n c gone r.wire root ⟨r.wire.note (.raced root), t, none, []⟩ :=
  ⟨.single (.note _ _), fun b h => (by cases h), fun k hk => absurd hk List.not_mem_nil⟩

theorem raced_sound (hs : Spares n c gone r.wire) (orders : Orders) (root : Hash256) :
    (raced n c orders root r).2.Sound n c gone r.wire root :=
  (Pool.run_keeps (p := racePlan n c (orders r.wire.trace.length) root)
    (race_keeps fun host => hs host root) deliver_keeps _ (fun _ _ => trivial) _
    (begun_sound root _)).1

theorem leads_afterRace {root : Hash256} {s : Race σ} (hs : s.Sound n c gone r.wire root) :
    Leads n c gone r (afterRace n r s)
      ∧ ∀ b, s.winner = some b → Genuine c (afterRace n r s).wire root b := by
  have h1 : Leads n c gone r { r with wire := s.wire, tally := s.tally } :=
    leads_of_cache hs.wire rfl
  have h2 := leads_pruneAll (n := n) (c := c) (r := { r with wire := s.wire, tally := s.tally })
    s.stale hs.stale
  exact ⟨h1.trans h2, fun b hb => (hs.winner b hb).mono h2.wire⟩

/-- a sector that a race finds is genuine -/
theorem race_rule (hs : Spares n c gone r.wire) (orders : Orders) (root : Hash256) :
    Leads n c gone r (race n c orders root r).2
      ∧ ∀ b, (race n c orders root r).1 = some b → r.Sound c →
          Genuine c (race n c orders root r).2.wire root b := by
  cases hc : r.cache.get? root with
  | some sector =>
    rw [race_cached n c orders r hc]
    refine ⟨leads_of_cache .refl rfl, fun b h hr => ?_⟩
    cases h
    exact hr root sector hc
  | none =>
    by_cases hh : n.hosts r.wire.net = []
    · rw [race_nobody n c orders r hc hh]
      exact ⟨.refl, fun b h => by cases h⟩
    · obtain ⟨h1, h2⟩ := leads_afterRace (raced_sound hs orders root)
      cases hwin : (raced n c orders root r).2.winner with
      | none =>
        rw [race_lost n c orders r hc hh hwin]
        exact ⟨h1, fun b h => by cases h⟩
      | some sector =>
        have hg := h2 sector hwin
        rw [race_won n c orders r hc hh hwin]
        refine ⟨h1.trans (leads_remember root sector hg), fun b h _ => ?_⟩
        cases h
        exact hg

/-! ## a race that cannot be lost -/

/-- a burst on its way to the sector, or the sector itself -/
def OnItsWay (c : Settings) (host : HostKey) (root : Hash256) :
    Burst Exchange.Task (HostKey × Except SectorError Bytes) → Prop
  | .wait _ t => t.goal = ⟨host, root, false⟩
      ∧ t.stage.Accords (.serves c root) ⟨host, root, false⟩
  | .done a => ∃ b, a.2 = .ok b

theorem onItsWay_of_accords {host : HostKey} {root : Hash256} {w : Wire σ}
    {b : Burst Exchange.Task Answer}
    (h : Exchange.Accords (.serves c root) c ⟨host, root, false⟩ w b) :
    OnItsWay c host root (told root host b) := by
  cases b with
  | wait ms t => exact h
  | done a => exact Exchange.sector_of_accords h

/-- a race finds the sector if one of the hosts serves it, whatever the others do and in whatever
order -/
theorem race_finds (hs : Spares n c gone r.wire) (orders : Orders) {host : HostKey}
    {root : Hash256} (hhost : host ∈ n.hosts r.wire.net)
    (hserves : Serves n c gone r.wire host root) :
    ∃ b, (race n c orders root r).1 = some b := by
  cases hc : r.cache.get? root with
  | some sector => exact ⟨sector, by rw [race_cached n c orders r hc]⟩
  | none =>
    have hh : n.hosts r.wire.net ≠ [] := List.ne_nil_of_mem hhost
    have hkeeps := race_keeps fun host => hs host root
    have hstop : (raced n c orders root r).1 = true := by
      refine Pool.run_stops (p := racePlan n c (orders r.wire.trace.length) root) hkeeps
        deliver_keeps (OnItsWay c host root) host ?_ ?_ ?_ _
        (fun _ _ => trivial) hhost _ (begun_sound root _)
      · intro s hsound
        exact onItsWay_of_accords (Exchange.start_good hserves hsound.wire).2
      · intro ms t s hsound ht
        have hgoal : t.goal.host = host := congrArg Exchange.Goal.host ht.1
        have hacc : Exchange.Accords (.serves c root) c ⟨host, root, false⟩ s.wire (.wait ms t) := ht
        have := onItsWay_of_accords (Exchange.resume_good hserves hsound.wire hacc).2
        rw [← hgoal] at this
        rwa [← hgoal]
      · rintro ⟨k, res⟩ s _ ⟨b, hb⟩
        cases hb
        rfl
    obtain ⟨-, hend⟩ := Pool.run_keeps (p := racePlan n c (orders r.wire.trace.length) root) hkeeps
      deliver_keeps (n.hosts r.wire.net) (fun _ _ => trivial) _ (begun_sound root r.tally.addRace)
    obtain ⟨a, s', _, _, hdel, hfin⟩ := hend hstop
    have hwin : ∃ b, (raced n c orders root r).2.winner = some b := by
      have hfin : (raced n c orders root r).2 = (raceDeliver root a s').2 := hfin
      obtain ⟨k, res⟩ := a
      cases res with
      | error e => cases hdel
      | ok sector => exact ⟨sector, by rw [hfin]; rfl⟩
    obtain ⟨sector, hwin⟩ := hwin
    exact ⟨sector, by rw [race_won n c orders r hc hh hwin]⟩

end

end Reclaim.Run

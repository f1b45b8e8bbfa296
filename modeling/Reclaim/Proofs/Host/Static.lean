import Reclaim.Proofs.Host.Exchange

/-!
# Hosts that always answer the same

* `Talk`, `Network.Talks`   the answers of one exchange, other requests being made in between;
* `Talk.Ends`, `Talk.Stalls`   an exchange that is over within all limits, and one that never is;
* `Network.Static`   whenever a host under contract is asked for a sector, it says the same of it;
* `Underway`   a burst of an exchange that such answers explain; `start_underway` and
               `resume_underway` are the steps of an exchange;
* `Network.Static.verdict`   what an exchange with a host comes to is what the host says.
-/

namespace Reclaim

variable {σ : Type}

/-! ## requests -/

namespace Network

variable {n : Network σ} {gone gone' : HostKey → Prop} {a b s : σ}

theorem Reach.mono (h : n.Reach gone a b) (hg : ∀ host, gone host → gone' host) :
    n.Reach gone' a b := by
  induction h with
  | refl => exact .refl
  | dial s host _ ih => exact .dial s host ih
  | settings s host _ ih => exact .settings s host ih
  | read s host parts cost _ ih => exact .read s host parts cost ih
  | remove s host hgone _ ih => exact .remove s host (hg host hgone) ih

theorem Reach.trans (h : n.Reach gone a b) (h' : n.Reach gone b s) : n.Reach gone a s := by
  induction h' with
  | refl => exact h
  | dial s host _ ih => exact .dial s host ih
  | settings s host _ ih => exact .settings s host ih
  | read s host parts cost _ ih => exact .read s host parts cost ih
  | remove s host hgone _ ih => exact .remove s host hgone ih

/-- the states of the hosts that requests lead to, no contract being given up -/
abbrev Asked (n : Network σ) : σ → σ → Prop := n.Reach fun _ => False

theorem Asked.reach (h : n.Asked a b) : n.Reach gone a b := h.mono fun _ hf => hf.elim

end Network

/-! ## verdicts -/

/-- what a host says of a sector: that it serves it, that it knows no contract, or neither -/
inductive Verdict where
  | serves
  | denies
  | nothing
deriving DecidableEq

def SectorError.verdict : SectorError → Verdict
  | .contractMissing => .denies
  | _ => .nothing

theorem SectorError.verdict_eq_denies_iff {e : SectorError} :
    e.verdict = .denies ↔ e = .contractMissing := by
  cases e with
  | contractMissing => exact ⟨fun _ => rfl, fun _ => rfl⟩
  | notFound => exact ⟨fun h => (by cases h), fun h => (by cases h)⟩
  | transport m => exact ⟨fun h => (by cases h), fun h => (by cases h)⟩

theorem SectorError.verdict_ne_serves (e : SectorError) : e.verdict ≠ .serves := by
  cases e <;> exact fun h => by cases h

theorem classify_missing : classify (.rpc sectorMissingText) = .notFound := by decide +kernel

theorem classify_unknown : classify (.rpc contractMissingText) = .contractMissing := by
  decide +kernel

/-- what the result of an exchange says of the sector with the given root -/
def Settings.verdict (c : Settings) (root : Hash256) : Except SessionError Bytes → Verdict
  | .error e => (classify e).verdict
  | .ok b => if b.length = c.sectorSize ∧ sectorRoot b = root then .serves else .nothing

def Answer.verdict (root : Hash256) (a : Answer) : Verdict :=
  match a.sector root with
  | .ok _ => .serves
  | .error e => e.verdict

section
variable {root : Hash256} {a : Answer}

theorem Answer.sector_ok_iff : (∃ b, a.sector root = .ok b) ↔ a.verdict root = .serves := by
  unfold verdict
  cases a.sector root with
  | ok b => exact ⟨fun _ => rfl, fun _ => ⟨b, rfl⟩⟩
  | error e => exact ⟨fun ⟨_, h⟩ => (by cases h), fun h => absurd h e.verdict_ne_serves⟩

theorem Answer.sector_missing_iff :
    a.sector root = .error .contractMissing ↔ a.verdict root = .denies := by
  unfold verdict
  cases a.sector root with
  | ok b => exact ⟨fun h => (by cases h), fun h => (by cases h)⟩
  | error e =>
    simp only [SectorError.verdict_eq_denies_iff]
    exact ⟨fun h => Except.error.inj h, fun h => congrArg Except.error h⟩

variable (a root) in
/-- a check says of the sector what getting it would -/
theorem Answer.serves_eq : (a.serves root = .ok true ↔ a.verdict root = .serves)
    ∧ (a.serves root = .error .contractMissing ↔ a.verdict root = .denies) := by
  rw [← sector_ok_iff, ← sector_missing_iff]
  cases a with
  | failed e => exact ⟨⟨fun h => (by cases h), fun ⟨_, h⟩ => (by cases h)⟩, by
      rw [serves, sector]
      exact ⟨fun h => congrArg _ (Except.error.inj h), fun h => congrArg _ (Except.error.inj h)⟩⟩
  | given r =>
    cases r with
    | error e =>
      refine ⟨⟨fun h => ?_, fun ⟨_, h⟩ => by cases h⟩, ?_⟩
      · cases e <;> cases h
      · cases e with
        | notFound => exact ⟨fun h => (by cases h), fun h => (by cases h)⟩
        | contractMissing => exact ⟨fun _ => rfl, fun _ => rfl⟩
        | transport m => exact ⟨fun h => (by cases h), fun h => (by cases h)⟩
    | ok b =>
      rw [serves, sector]
      by_cases h : sectorRoot b = root
      · rw [if_pos h, decide_eq_true h]
        exact ⟨⟨fun _ => ⟨b, rfl⟩, fun _ => rfl⟩, fun h => (by cases h), fun h => (by cases h)⟩
      · rw [if_neg h, decide_eq_false h]
        exact ⟨⟨fun h => (by cases h), fun ⟨_, h⟩ => (by cases h)⟩, fun h => (by cases h),
          fun h => (by cases h)⟩

end

/-! ## the answers of one exchange -/

/-- the answers to the three requests of an exchange -/
structure Talk where
  dial : Reply Unit
  settings : Reply HostSettings
  read : Reply Bytes

/-- the answers a host gives in an exchange, other requests being made before and in between -/
inductive Network.Talks (n : Network σ) (c : Settings) (net : σ) (host : HostKey)
    (root : Hash256) : Talk → Prop
  | mk (s₁ s₂ s₃ : σ) (cost : Nat) (h₁ : n.Asked net s₁) (h₂ : n.Asked (n.dial host s₁).2 s₂)
      (h₃ : n.Asked (n.settings host s₂).2 s₃)
      (hcost : ∀ prices, (n.settings host s₂).1.result = .ok prices →
        cost = readCost prices [Exchange.wholeSector c root]) :
      Talks n c net host root ⟨(n.dial host s₁).1, (n.settings host s₂).1,
        (n.read host [Exchange.wholeSector c root] cost s₃).1⟩

/-- the exchange is over within every limit, also that of a whole check, with the given result -/
inductive Talk.Ends (c : Settings) (k : Talk) : Except SessionError Bytes → Prop
  | refused (d : Nat) (e : SessionError) (h : k.dial = ⟨some d, .error e⟩) (l : d ≤ c.dialLimit)
      (ht : d ≤ c.checkLimit) : Ends c k (.error e)
  | unpriced (d₁ d₂ : Nat) (e : SessionError) (h₁ : k.dial = ⟨some d₁, .ok ()⟩)
      (h₂ : k.settings = ⟨some d₂, .error e⟩) (l₁ : d₁ ≤ c.dialLimit) (l₂ : d₂ ≤ c.settingsLimit)
      (ht : d₁ + d₂ ≤ c.checkLimit) : Ends c k (.error e)
  | answered (d₁ d₂ d₃ : Nat) (prices : HostSettings) (r : Except SessionError Bytes)
      (h₁ : k.dial = ⟨some d₁, .ok ()⟩) (h₂ : k.settings = ⟨some d₂, .ok prices⟩)
      (h₃ : k.read = ⟨some d₃, r⟩) (l₁ : d₁ ≤ c.dialLimit) (l₂ : d₂ ≤ c.settingsLimit)
      (l₃ : d₃ ≤ c.readLimit) (ht : d₁ + d₂ + d₃ ≤ c.checkLimit) : Ends c k r

/-- the exchange waits for an answer that never comes -/
inductive Talk.Stalls (k : Talk) : Prop
  | dial (h : k.dial.delay = none)
  | settings (h₁ : k.dial.result = .ok ()) (h₂ : k.settings.delay = none)
  | read (prices : HostSettings) (h₁ : k.dial.result = .ok ()) (h₂ : k.settings.result = .ok prices)
      (h₃ : k.read.delay = none)

/-- hosts that say of each sector always the same, which `tells` gives, in exchanges that are over
within every limit or never; who knows of no contract says so of every sector; and contracts are
only lost by being given up -/
structure Network.Static (n : Network σ) (c : Settings) (net : σ)
    (tells : HostKey → Hash256 → Verdict) : Prop where
  /-- those with a contract are listed -/
  listed : ∀ s host, n.Reach (fun _ => True) net s →
    (host ∈ n.hosts s ↔ (n.contract? s host).isSome = true)
  /-- requests do not change who has a contract -/
  asked : ∀ s s' host, n.Reach (fun _ => True) net s → n.Asked s s' →
    ((n.contract? s' host).isSome = true ↔ (n.contract? s host).isSome = true)
  /-- giving up a contract makes none -/
  lost : ∀ s host k, n.Reach (fun _ => True) net s →
    (n.contract? (n.removeContract host s).2 k).isSome = true → (n.contract? s k).isSome = true
  /-- nor does it cost one with another host -/
  kept : ∀ s host k, n.Reach (fun _ => True) net s → k ≠ host →
    (n.contract? s k).isSome = true → (n.contract? (n.removeContract host s).2 k).isSome = true
  /-- and if it worked, the contract is gone -/
  removed : ∀ s host, n.Reach (fun _ => True) net s → (n.removeContract host s).1 = true →
    (n.contract? (n.removeContract host s).2 host).isSome = false
  /-- a host under contract says the same of a sector whenever it is asked for it -/
  talks : ∀ s host root k, n.Reach (fun _ => True) net s → (n.contract? s host).isSome = true →
    n.Talks c s host root k →
      (∃ r, k.Ends c r ∧ c.verdict root r = tells host root)
        ∨ (k.Stalls ∧ tells host root = .nothing)
  /-- who knows of no contract says so whatever it is asked for -/
  denies : ∀ host root root', tells host root = .denies → tells host root' = .denies

namespace Exchange

/-! ## what an exchange comes to -/

/-- whether more time was used up than an exchange has altogether -/
def overrun (c : Settings) (limited : Bool) (spent : Nat) : Bool :=
  limited && decide (c.checkLimit < spent)

end Exchange

open Exchange in
/-- what an exchange with these answers comes to -/
def Talk.answer (c : Settings) (limited : Bool) (k : Talk) : Answer :=
  let t₁ := k.dial.within "dial" c.dialLimit
  let t₂ := k.settings.within "settings" c.settingsLimit
  let t₃ := k.read.within "read" c.readLimit
  if overrun c limited t₁.1 then overdueAnswer c
  else
    match t₁.2 with
    | .error e => .failed e
    | .ok _ =>
      if overrun c limited (t₁.1 + t₂.1) then overdueAnswer c
      else
        match t₂.2 with
        | .error e => .given (.error e)
        | .ok _ =>
          if overrun c limited (t₁.1 + t₂.1 + t₃.1) then overdueAnswer c else accept c t₃.2

section
variable {α : Type} {what : String} {limit : Nat} {r : Reply α}

theorem Reply.result_of_within {a : α} (h : (r.within what limit).2 = .ok a) :
    r.result = .ok a := by
  unfold within at h
  split at h
  · cases h
  · split at h
    · cases h
    · split at h
      · next ha =>
        cases h
        exact ha
      · cases h

theorem Reply.within_of_le {d : Nat} {e : Except SessionError α} (h : r = ⟨some d, e⟩)
    (hd : d ≤ limit) : r.within what limit
      = (d, e.mapError classify) := by
  subst h
  refine (if_neg (Nat.not_lt.2 hd)).trans ?_
  cases e <;> rfl

theorem Reply.within_of_never (h : r.delay = none) :
    r.within what limit = (limit, .error (timedOut what limit)) := by
  unfold within
  rw [h]

variable (what limit) in
theorem Reply.within_of_ok {a : α} (h : r.result = .ok a) :
    (r.within what limit).2 = .ok a ∨ (r.within what limit).2 = .error (timedOut what limit) := by
  unfold within
  split
  · exact .inr rfl
  · split
    · exact .inr rfl
    · rw [h]
      exact .inl rfl

end

namespace Exchange

section
variable {c : Settings} {limited : Bool} {k : Talk} {root : Hash256}

theorem overrun_of_le {spent : Nat} (h : spent ≤ c.checkLimit) :
    overrun c limited spent = false := by
  rw [overrun, decide_eq_false (Nat.not_lt.2 h), Bool.and_false]

variable (limited) in
/-- an exchange that is over in time comes to its result: the session was refused, or this is what
the host answered -/
theorem answer_of_ends {r : Except SessionError Bytes} (h : k.Ends c r) :
    (∃ e, r = .error e ∧ k.answer c limited = .failed (classify e))
      ∨ k.answer c limited = accept c (r.mapError classify) := by
  unfold Talk.answer
  cases h with
  | refused d e h l ht =>
    refine .inl ⟨e, rfl, ?_⟩
    simp only [Reply.within_of_le h l, overrun_of_le ht, if_neg Bool.false_ne_true]
    rfl
  | unpriced d₁ d₂ e h₁ h₂ l₁ l₂ ht =>
    right
    simp only [Reply.within_of_le h₁ l₁, Reply.within_of_le h₂ l₂, overrun_of_le ht,
      overrun_of_le (Nat.le_of_add_right_le ht), if_neg Bool.false_ne_true]
    rfl
  | answered d₁ d₂ d₃ prices r h₁ h₂ h₃ l₁ l₂ l₃ ht =>
    right
    simp only [Reply.within_of_le h₁ l₁, Reply.within_of_le h₂ l₂, Reply.within_of_le h₃ l₃,
      overrun_of_le ht, overrun_of_le (Nat.le_of_add_right_le ht),
      overrun_of_le (Nat.le_of_add_right_le (Nat.le_of_add_right_le ht)),
      if_neg Bool.false_ne_true]
    rfl

theorem verdict_of_ends {r : Except SessionError Bytes} (h : k.Ends c r) :
    (k.answer c limited).verdict root = c.verdict root r := by
  rcases answer_of_ends limited h with ⟨e, rfl, ha⟩ | ha
  · rw [ha]
    rfl
  · rw [ha]
    cases r with
    | error e => rfl
    | ok b =>
      show (accept c (.ok b)).verdict root = _
      unfold accept Settings.verdict Answer.verdict Answer.sector
      by_cases hb : b.length = c.sectorSize
      · by_cases hr : sectorRoot b = root
        · simp only [if_pos hb, if_pos hr, if_pos (And.intro hb hr)]
        · simp only [if_pos hb, if_neg hr, if_neg fun h : _ ∧ _ => hr h.2]
          rfl
      · simp only [if_neg hb, if_neg fun h : _ ∧ _ => hb h.1]
        rfl

theorem verdict_of_stalls (h : k.Stalls) : (k.answer c limited).verdict root = .nothing := by
  unfold Talk.answer
  dsimp only
  split
  · rfl
  · cases h with
    | dial h =>
      rw [Reply.within_of_never h]
      rfl
    | settings h₁ h₂ =>
      rcases Reply.within_of_ok "dial" c.dialLimit h₁ with h₁ | h₁
      · rw [h₁, Reply.within_of_never h₂]
        dsimp only
        split <;> rfl
      · rw [h₁]
        rfl
    | read prices h₁ h₂ h₃ =>
      rcases Reply.within_of_ok "dial" c.dialLimit h₁ with h₁ | h₁
      · rw [h₁]
        dsimp only
        split
        · rfl
        · rcases Reply.within_of_ok "settings" c.settingsLimit h₂ with h₂ | h₂
          · rw [h₂, Reply.within_of_never h₃]
            dsimp only
            split <;> rfl
          · rw [h₂]
            rfl
      · rw [h₁]
        rfl

end

/-! ## exchanges under way -/

section
variable (n : Network σ) (c : Settings) (net : σ) (g : Goal)

/-- an answer that comes of the answers of the host -/
def Explained (a : Answer) : Prop :=
  ∃ k, n.Talks c net g.host g.root k ∧ k.answer c g.limited = a

/-- the session was asked for at `s₁`, with this outcome, and the exchange may go on -/
structure Dialed (s₁ : σ) (spent : Nat) (r : Except SectorError Unit) (now : σ) : Prop where
  before : n.Asked net s₁
  after : n.Asked (n.dial g.host s₁).2 now
  outcome : (n.dial g.host s₁).1.within "dial" c.dialLimit = (spent, r)
  inTime : overrun c g.limited spent = false

/-- so were the prices, at `s₂` -/
structure Settled (s₁ s₂ : σ) (spent ms : Nat) (r : Except SectorError HostSettings) (now : σ) :
    Prop where
  dialed : Dialed n c net g s₁ spent (.ok ()) s₂
  after : n.Asked (n.settings g.host s₂).2 now
  outcome : (n.settings g.host s₂).1.within "settings" c.settingsLimit = (ms, r)
  inTime : overrun c g.limited (spent + ms) = false

/-- a stage that answers of the host have led to -/
def Stage.Underway (now : σ) : Stage → Prop
  | .dialed spent r => ∃ s₁, Dialed n c net g s₁ spent r now
  | .settled spent r =>
    ∃ s₁ s₂ spent₁ ms, spent = spent₁ + ms ∧ Settled n c net g s₁ s₂ spent₁ ms r now
  | .received r => Explained n c net g (accept c r)
  | .overdue => Explained n c net g (overdueAnswer c)

/-- a burst of the exchange `g` that answers of the host have led to -/
def Underway (w : Wire σ) : Burst Task Answer → Prop
  | .wait _ t => t.goal = g ∧ t.stage.Underway n c net g w.net
  | .done a => Explained n c net g a

end

section
variable {n : Network σ} {c : Settings} {net : σ} {g : Goal} {s₁ s₂ now : σ} {spent ms : Nat}
  {w w' : Wire σ}

theorem Underway.mono (hw : n.Asked w.net w'.net) {b : Burst Task Answer}
    (h : Underway n c net g w b) : Underway n c net g w' b := by
  cases b with
  | done a => exact h
  | wait ms t =>
    obtain ⟨goal, stage⟩ := t
    refine ⟨h.1, ?_⟩
    cases stage with
    | dialed spent r =>
      obtain ⟨s₁, hd⟩ := h.2
      exact ⟨s₁, { hd with after := hd.after.trans hw }⟩
    | settled spent r =>
      obtain ⟨s₁, s₂, spent₁, ms, he, hs⟩ := h.2
      exact ⟨s₁, s₂, spent₁, ms, he, { hs with after := hs.after.trans hw }⟩
    | received r => exact h.2
    | overdue => exact h.2

theorem exists_cost (c : Settings) (root : Hash256) (r : Reply HostSettings) :
    ∃ cost, ∀ prices, r.result = .ok prices → cost = readCost prices [wholeSector c root] := by
  cases r.result with
  | error e => exact ⟨0, fun prices h => by cases h⟩
  | ok prices => exact ⟨_, fun prices' h => by cases h; rfl⟩

theorem explained_of_dialed (h₁ : n.Asked net s₁)
    {a : Answer} (ha : ∀ k : Talk, k.dial = (n.dial g.host s₁).1 → k.answer c g.limited = a) :
    Explained n c net g a := by
  obtain ⟨cost, hcost⟩ := exists_cost c g.root (n.settings g.host (n.dial g.host s₁).2).1
  exact ⟨_, .mk s₁ _ _ cost h₁ .refl .refl hcost, ha _ rfl⟩

theorem explained_of_settled (h₁ : n.Asked net s₁) (h₂ : n.Asked (n.dial g.host s₁).2 s₂)
    {a : Answer} (ha : ∀ k : Talk, k.dial = (n.dial g.host s₁).1 →
      k.settings = (n.settings g.host s₂).1 → k.answer c g.limited = a) :
    Explained n c net g a := by
  obtain ⟨cost, hcost⟩ := exists_cost c g.root (n.settings g.host s₂).1
  exact ⟨_, .mk s₁ s₂ _ cost h₁ h₂ .refl hcost, ha _ rfl rfl⟩

/-- waiting ends in what comes next, in waiting for it, or in the limit of the whole -/
theorem await_cases (P : Burst Task Answer → Wire σ → Prop) {stage : Stage}
    {now : Wire σ → Burst Task Answer × Wire σ} (hnow : ms = 0 → P (now w).1 (now w).2)
    (hwait : overrun c g.limited (spent + ms) = false → ∀ ms', P (.wait ms' ⟨g, stage⟩) w)
    (hover : overrun c g.limited (spent + ms) = true →
      P (.done (overdueAnswer c)) w ∧ ∀ ms', P (.wait ms' ⟨g, .overdue⟩) w) :
    P (await c g spent ms stage now w).1 (await c g spent ms stage now w).2 := by
  unfold await
  split
  · next h => exact hnow h
  · split
    · next h =>
      split
      · exact (hover h).1
      · exact (hover h).2 _
    · next h => exact hwait (Bool.eq_false_iff.2 h) _

theorem afterSettings_underway {r : Except SectorError HostSettings}
    (h : Settled n c net g s₁ s₂ spent ms r w.net) :
    Underway n c net g (afterSettings n c g (spent + ms) r w).2
      (afterSettings n c g (spent + ms) r w).1 := by
  unfold afterSettings
  cases r with
  | error e =>
    refine explained_of_settled h.dialed.before h.dialed.after fun k hd hs => ?_
    unfold Talk.answer
    simp only [hd, hs, h.dialed.outcome, h.outcome, h.dialed.inTime, h.inTime,
      if_neg Bool.false_ne_true]
  | ok prices =>
    have hprices := Reply.result_of_within (congrArg Prod.snd h.outcome)
    have hk : n.Talks c net g.host g.root _ := .mk s₁ s₂ w.net
      (readCost prices [wholeSector c g.root]) h.dialed.before h.dialed.after h.after
      fun p hp => by rw [hprices] at hp; cases hp; rfl
    have hans : ∀ a, (if overrun c g.limited (spent + ms
        + (((w.read n g.host (wholeSector c g.root)
          (readCost prices [wholeSector c g.root])).1.within "read" c.readLimit).1))
          then overdueAnswer c
          else accept c ((w.read n g.host (wholeSector c g.root)
            (readCost prices [wholeSector c g.root])).1.within "read" c.readLimit).2) = a →
        Explained n c net g a := by
      rintro a rfl
      refine ⟨_, hk, ?_⟩
      unfold Talk.answer
      simp only [h.dialed.outcome, h.outcome, h.dialed.inTime, h.inTime, if_neg Bool.false_ne_true]
      rfl
    refine await_cases (fun b w => Underway n c net g w b) (fun h0 => hans _ ?_)
      (fun ht ms' => ⟨rfl, hans _ ?_⟩) fun ht => ⟨hans _ ?_, fun ms' => ⟨rfl, hans _ ?_⟩⟩
    · rw [h0, Nat.add_zero, h.inTime, if_neg Bool.false_ne_true]
    · rw [ht, if_neg Bool.false_ne_true]
    · rw [ht, if_pos rfl]
    · rw [ht, if_pos rfl]

theorem afterDial_underway {r : Except SectorError Unit} (h : Dialed n c net g s₁ spent r w.net) :
    Underway n c net g (afterDial n c g spent r w).2 (afterDial n c g spent r w).1 := by
  unfold afterDial
  cases r with
  | error e =>
    refine explained_of_dialed h.before fun k hd => ?_
    unfold Talk.answer
    simp only [hd, h.outcome, h.inTime, if_neg Bool.false_ne_true]
  | ok _ =>
    have hsettled : ∀ ms r',
        (n.settings g.host w.net).1.within "settings" c.settingsLimit = (ms, r') →
        overrun c g.limited (spent + ms) = false →
        Settled n c net g s₁ w.net spent ms r' (n.settings g.host w.net).2 :=
      fun ms r' ho ht => ⟨h, .refl, ho, ht⟩
    refine await_cases (fun b w => Underway n c net g w b) (fun h0 => ?_)
      (fun ht ms' => ⟨rfl, s₁, w.net, spent, _, rfl, hsettled _ _ rfl ht⟩) fun ht => ?_
    · have ho : (n.settings g.host w.net).1.within "settings" c.settingsLimit = (0, _) :=
        Prod.ext h0 rfl
      have hnext : Settled n c net g s₁ w.net spent 0 _ (w.settings n g.host).2.net :=
        hsettled 0 _ ho h.inTime
      exact afterSettings_underway hnext
    · have hexp : Explained n c net g (overdueAnswer c) := by
        refine explained_of_settled h.before h.after fun k hd hs => ?_
        unfold Talk.answer
        simp only [hd, hs, h.outcome, h.inTime, if_neg Bool.false_ne_true]
        exact if_pos ht
      exact ⟨hexp, fun ms' => ⟨rfl, hexp⟩⟩

/-- an exchange begins in accord with the answers of the host -/
theorem start_underway (hw : n.Asked net w.net) :
    Underway n c net g (start n c g w).2 (start n c g w).1 := by
  have hdialed : ∀ ms r', (n.dial g.host w.net).1.within "dial" c.dialLimit = (ms, r') →
      overrun c g.limited ms = false →
      Dialed n c net g w.net ms r' (n.dial g.host w.net).2 :=
    fun ms r' ho ht => ⟨hw, .refl, ho, ht⟩
  unfold start
  refine await_cases (fun b w => Underway n c net g w b) (fun h0 => ?_)
    (fun ht ms' => ⟨rfl, w.net, hdialed _ _ rfl ?_⟩) fun ht => ?_
  · have ho : (n.dial g.host w.net).1.within "dial" c.dialLimit = (0, _) := Prod.ext h0 rfl
    exact afterDial_underway (w := (w.dial n g.host g.root).2)
      (hdialed 0 _ ho (overrun_of_le (Nat.zero_le _)))
  · rwa [Nat.zero_add] at ht
  · have hexp : Explained n c net g (overdueAnswer c) := by
      refine explained_of_dialed hw fun k hd => ?_
      unfold Talk.answer
      rw [Nat.zero_add] at ht
      rw [hd]
      exact if_pos ht
    exact ⟨hexp, fun ms' => ⟨rfl, hexp⟩⟩

/-- and goes on so -/
theorem resume_underway {t : Task} (h : Underway n c net g w (.wait ms t)) :
    Underway n c net g (resume n c t w).2 (resume n c t w).1 := by
  obtain ⟨goal, stage⟩ := t
  obtain ⟨hg, hs⟩ := h
  have hg : goal = g := hg
  subst hg
  cases stage with
  | dialed spent r =>
    obtain ⟨s₁, hd⟩ := hs
    exact afterDial_underway hd
  | settled spent r =>
    obtain ⟨s₁, s₂, spent₁, ms, rfl, hset⟩ := hs
    exact afterSettings_underway hset
  | received r => exact hs
  | overdue => exact hs

variable (g w) in
theorem start_asked : n.Asked w.net (start n c g w).2.net :=
  (start_good (meets_nothing n c (fun _ => False) w g) .refl).1.reach .refl

variable (w) in
theorem resume_asked (t : Task) : n.Asked w.net (resume n c t w).2.net := by
  obtain ⟨goal, stage⟩ := t
  have hm := meets_nothing n c (fun _ => False) w goal
  cases stage with
  | dialed spent r =>
    have hgood : Good n c _ goal .nothing w (afterDial n c goal spent r w).1
        (afterDial n c goal spent r w).2 := afterDial_good hm .refl trivial
    exact hgood.1.reach .refl
  | settled spent r =>
    have hgood : Good n c _ goal .nothing w (afterSettings n c goal spent r w).1
        (afterSettings n c goal spent r w).2 := afterSettings_good hm .refl trivial
    exact hgood.1.reach .refl
  | received r => exact (Wire.evolves_take goal.host r w).reach .refl
  | overdue => exact .refl

theorem exchange_underway (n : Network σ) (c : Settings) (net : σ) (g : Goal) :
    (work n c).Keeps (· = g) (fun w => n.Asked net w.net) (Underway n c net g) where
  start := by
    intro i w hi hw
    subst hi
    have hr := start_asked (n := n) (c := c) i w
    exact ⟨hw.trans hr, start_underway hw, fun _ hb => hb.mono hr⟩
  resume := by
    intro ms t w hw ht
    have hr := resume_asked (n := n) (c := c) w t
    exact ⟨hw.trans hr, resume_underway ht, fun _ hb => hb.mono hr⟩

end

end Exchange

theorem Network.reach_prune (n : Network σ) (host : HostKey) (w : Wire σ) :
    n.Reach (fun _ => True) w.net (w.prune n host).2.net :=
  (Wire.Step.prune w host trivial).reach .refl

/-! ## exchanges with hosts that always answer the same -/

namespace Network.Static

variable {n : Network σ} {c : Settings} {net s : σ} {tells : HostKey → Hash256 → Verdict}

theorem later (h : n.Static c net tells) (hs : n.Reach (fun _ => True) net s) :
    n.Static c s tells where
  listed s' host hr := h.listed s' host (hs.trans hr)
  asked s' s'' host hr := h.asked s' s'' host (hs.trans hr)
  lost s' host k hr := h.lost s' host k (hs.trans hr)
  kept s' host k hr := h.kept s' host k (hs.trans hr)
  removed s' host hr := h.removed s' host (hs.trans hr)
  talks s' host root k hr := h.talks s' host root k (hs.trans hr)
  denies := h.denies

/-- what an exchange with a host under contract comes to is what the host says of the sector -/
theorem verdict (h : n.Static c net tells) {g : Exchange.Goal}
    (hc : (n.contract? net g.host).isSome = true) {a : Answer}
    (ha : Exchange.Explained n c net g a) : a.verdict g.root = tells g.host g.root := by
  obtain ⟨k, hk, rfl⟩ := ha
  rcases h.talks net g.host g.root k .refl hc hk with ⟨r, hr, e⟩ | ⟨hs, e⟩
  · rw [Exchange.verdict_of_ends hr, e]
  · rw [Exchange.verdict_of_stalls hs, e]

/-- so is what getting the sector from the host comes to -/
theorem download (h : n.Static c net tells) {w : Wire σ} (hw : w.net = net) {host : HostKey}
    (hc : (n.contract? net host).isSome = true) (root : Hash256) :
    ((∃ b, (download n c host root w).1 = .ok b) ↔ tells host root = .serves)
      ∧ ((download n c host root w).1 = .error .contractMissing ↔ tells host root = .denies)
      ∧ n.Asked net (download n c host root w).2.net := by
  subst hw
  obtain ⟨hasked, hexp⟩ := Work.perform_keeps (Exchange.exchange_underway n c w.net
    ⟨host, root, false⟩) _ rfl w .refl
  have e := h.verdict hc hexp
  refine ⟨?_, ?_, hasked⟩
  · rw [← e]
    exact Answer.sector_ok_iff
  · rw [← e]
    exact Answer.sector_missing_iff

/-! ## contracts given up -/

theorem contract_prune {w : Wire σ} (h : n.Static c w.net tells) (host : HostKey) {k : HostKey}
    (hk : k ≠ host) :
    (n.contract? (w.prune n host).2.net k).isSome = true ↔ (n.contract? w.net k).isSome = true := by
  unfold Wire.prune
  split
  · exact Iff.rfl
  · exact ⟨h.lost w.net host k .refl, h.kept w.net host k .refl hk⟩

theorem no_contract_prune {w : Wire σ} (h : n.Static c w.net tells) {host : HostKey}
    (hw : (n.contract? w.net host).isSome = true → (n.removeContract host w.net).1 = true) :
    ¬(n.contract? (w.prune n host).2.net host).isSome = true := by
  unfold Wire.prune
  split
  · next hn =>
    rw [hn]
    exact Bool.false_ne_true
  · next hs =>
    rw [h.removed w.net host .refl (hw (by rw [hs]; rfl))]
    exact Bool.false_ne_true

end Network.Static

end Reclaim

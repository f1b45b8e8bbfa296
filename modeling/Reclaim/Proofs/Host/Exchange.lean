import Reclaim.Host.Exchange
import Reclaim.Proofs.Host.Wire
import Reclaim.Proofs.Pool.Rules

/-!
# What an exchange can come to

* `Expect`          what is known of the outcomes of the three steps of an exchange;
* `Meets`           a host that answers as expected, however the wire may have evolved;
* `Accords`         bursts of an exchange that are explained by outcomes as expected;
* `exchange_keeps`  an exchange with such a host only has such bursts;
* `download_rule`   what follows for a sector that is got from one host.
-/

namespace Reclaim

variable {σ : Type}

namespace Exchange

/-! ## expectations -/

/-- what is known of the outcomes of the steps of an exchange -/
structure Expect where
  dial : Except SectorError Unit → Prop
  settings : Except SectorError HostSettings → Prop
  read : Except SectorError Bytes → Prop

/-- nothing is known -/
def Expect.nothing : Expect := ⟨fun _ => True, fun _ => True, fun _ => True⟩

/-- whatever happens to the wire, the steps of an exchange come out as expected -/
structure Meets (n : Network σ) (c : Settings) (gone : HostKey → Prop) (origin : Wire σ)
    (g : Goal) (e : Expect) : Prop where
  dial : ∀ w, Wire.Evolves n gone origin w →
    e.dial ((w.dial n g.host g.root).1.within "dial" c.dialLimit).2
  settings : ∀ w, Wire.Evolves n gone origin w →
    e.settings ((w.settings n g.host).1.within "settings" c.settingsLimit).2
  read : ∀ w cost, Wire.Evolves n gone origin w →
    e.read ((w.read n g.host (wholeSector c g.root) cost).1.within "read" c.readLimit).2

theorem meets_nothing (n : Network σ) (c : Settings) (gone : HostKey → Prop) (origin : Wire σ)
    (g : Goal) : Meets n c gone origin g .nothing :=
  ⟨fun _ _ => trivial, fun _ _ => trivial, fun _ _ _ => trivial⟩

/-- an outcome that is waited for is as expected -/
def Stage.Accords (e : Expect) (g : Goal) : Stage → Prop
  | .dialed _ r => e.dial r
  | .settled _ r => e.settings r
  | .received r => e.read r
  | .overdue => g.limited = true

/-- an answer that comes from expected outcomes, a payload being on record -/
def Answer.Accords (e : Expect) (c : Settings) (g : Goal) (w : Wire σ) : Answer → Prop
  | .failed err =>
    e.dial (.error err) ∨ (g.limited = true ∧ Answer.failed err = overdueAnswer c)
  | .given r =>
    (∃ err, r = .error err ∧ e.settings (.error err))
      ∨ ∃ r', Answer.given r = accept c r' ∧ e.read r' ∧ ∀ b, r' = .ok b → b ∈ w.payloads

/-- a burst of the exchange `g` that expected outcomes explain -/
def Accords (e : Expect) (c : Settings) (g : Goal) (w : Wire σ) : Burst Task Answer → Prop
  | .wait _ t => t.goal = g ∧ t.stage.Accords e g
  | .done a => Answer.Accords e c g w a

section
variable {n : Network σ} {c : Settings} {gone : HostKey → Prop} {origin : Wire σ} {g : Goal}
  {e : Expect}

theorem Accords.mono {w w' : Wire σ} (hw : Wire.Evolves n gone w w') {b : Burst Task Answer}
    (h : Accords e c g w b) : Accords e c g w' b := by
  cases b with
  | wait ms t => exact h
  | done a =>
    cases a with
    | failed err => exact h
    | given r =>
      rcases h with h | ⟨r', h1, h2, h3⟩
      · exact .inl h
      · exact .inr ⟨r', h1, h2, fun b hb => hw.mem_payloads (h3 b hb)⟩

theorem await_rule (P : Burst Task Answer → Wire σ → Prop) {spent ms : Nat} {stage : Stage}
    {now : Wire σ → Burst Task Answer × Wire σ} {w : Wire σ} (hnow : P (now w).1 (now w).2)
    (hwait : ∀ ms, P (.wait ms ⟨g, stage⟩) w)
    (hover : g.limited = true → ∀ ms, P (.wait ms ⟨g, .overdue⟩) w)
    (hdone : g.limited = true → P (.done (overdueAnswer c)) w) :
    P (await c g spent ms stage now w).1 (await c g spent ms stage now w).2 := by
  unfold await
  split
  · exact hnow
  · split
    · next h =>
      have hl : g.limited = true := (Bool.and_eq_true_iff.1 h).1
      split
      · exact hdone hl
      · exact hover hl _
    · exact hwait _

/-! ## the steps of an exchange -/

/-- what every burst of an exchange leaves behind: an evolved wire, and a burst in accord with it -/
def Good (n : Network σ) (c : Settings) (gone : HostKey → Prop) (g : Goal) (e : Expect)
    (w : Wire σ) (b : Burst Task Answer) (w' : Wire σ) : Prop :=
  Wire.Evolves n gone w w' ∧ Accords e c g w' b

theorem Good.trans {w w' w'' : Wire σ} {b : Burst Task Answer} (hw : Wire.Evolves n gone w w')
    (h : Good n c gone g e w' b w'') : Good n c gone g e w b w'' :=
  ⟨hw.trans h.1, h.2⟩

theorem await_good {w : Wire σ} {spent ms : Nat} {stage : Stage}
    {now : Wire σ → Burst Task Answer × Wire σ} (hs : stage.Accords e g)
    (hnow : Good n c gone g e w (now w).1 (now w).2) :
    Good n c gone g e w (await c g spent ms stage now w).1 (await c g spent ms stage now w).2 := by
  refine await_rule (Good n c gone g e w) hnow (fun _ => ⟨.refl, rfl, hs⟩)
    (fun hl _ => ⟨.refl, rfl, hl⟩) fun hl => ⟨.refl, ?_⟩
  exact .inr ⟨hl, rfl⟩

theorem afterRead_good {r : Except SectorError Bytes} {w : Wire σ} (hr : e.read r) :
    Good n c gone g e w (afterRead c g r w).1 (afterRead c g r w).2 := by
  refine ⟨Wire.evolves_take g.host r w, .inr ⟨r, rfl, hr, ?_⟩⟩
  rintro b rfl
  exact Wire.mem_payloads_take g.host b w

section
variable (hm : Meets n c gone origin g e)
include hm

theorem afterSettings_good {r : Except SectorError HostSettings} {spent : Nat} {w : Wire σ}
    (hw : Wire.Evolves n gone origin w) (hr : e.settings r) :
    Good n c gone g e w (afterSettings n c g spent r w).1 (afterSettings n c g spent r w).2 := by
  unfold afterSettings
  cases r with
  | error err => exact ⟨.refl, .inl ⟨err, rfl, hr⟩⟩
  | ok prices =>
    have hread := hm.read w (readCost prices [wholeSector c g.root]) hw
    exact .trans (.single (.read w _ _ _)) (await_good hread (afterRead_good hread))

theorem afterDial_good {r : Except SectorError Unit} {spent : Nat} {w : Wire σ}
    (hw : Wire.Evolves n gone origin w) (hr : e.dial r) :
    Good n c gone g e w (afterDial n c g spent r w).1 (afterDial n c g spent r w).2 := by
  unfold afterDial
  cases r with
  | error err => exact ⟨.refl, .inl hr⟩
  | ok _ =>
    have hsettings := hm.settings w hw
    have hw' : Wire.Step n gone w (w.settings n g.host).2 := .settings w g.host
    exact .trans (.single hw')
      (await_good hsettings (afterSettings_good hm (hw.tail hw') hsettings))

theorem start_good {w : Wire σ} (hw : Wire.Evolves n gone origin w) :
    Good n c gone g e w (start n c g w).1 (start n c g w).2 := by
  have hdial := hm.dial w hw
  have hw' : Wire.Step n gone w (w.dial n g.host g.root).2 := .dial w g.host g.root
  exact .trans (.single hw') (await_good hdial (afterDial_good hm (hw.tail hw') hdial))

theorem resume_good {ms : Nat} {t : Task} {w : Wire σ} (hw : Wire.Evolves n gone origin w)
    (ht : Accords e c g w (.wait ms t)) :
    Good n c gone g e w (resume n c t w).1 (resume n c t w).2 := by
  obtain ⟨goal, stage⟩ := t
  obtain ⟨hg, hs⟩ := ht
  have hg : goal = g := hg
  subst hg
  cases stage with
  | dialed spent r => exact afterDial_good hm hw hs
  | settled spent r => exact afterSettings_good hm hw hs
  | received r => exact afterRead_good hs
  | overdue => exact ⟨.refl, .inr ⟨hs, rfl⟩⟩

/-- an exchange with a host that answers as expected only has bursts that this explains -/
theorem exchange_keeps :
    (work n c).Keeps (· = g) (Wire.Evolves n gone origin) (Accords e c g) where
  start := by
    rintro _ w rfl hw
    obtain ⟨h1, h2⟩ := start_good hm hw
    exact ⟨hw.trans h1, h2, fun _ hb => hb.mono h1⟩
  resume := by
    intro ms t w hw ht
    obtain ⟨h1, h2⟩ := resume_good hm hw ht
    exact ⟨hw.trans h1, h2, fun _ hb => hb.mono h1⟩

end

end

end Exchange

/-! ## sectors from one host -/

section
variable {n : Network σ} {c : Settings} {gone : HostKey → Prop} {origin w : Wire σ}
  {host : HostKey} {root : Hash256} {e : Exchange.Expect}

theorem download_evolves (n : Network σ) (c : Settings) (gone : HostKey → Prop) (host : HostKey)
    (root : Hash256) (w : Wire σ) : Wire.Evolves n gone w (download n c host root w).2 :=
  (Work.perform_keeps (Exchange.exchange_keeps (Exchange.meets_nothing n c gone w _)) _ rfl w
    .refl).1

/-- the sector or the failure comes from an answer that expected outcomes explain -/
theorem download_rule (hm : Exchange.Meets n c gone origin ⟨host, root, false⟩ e)
    (hw : Wire.Evolves n gone origin w) :
    ∃ a, (download n c host root w).1 = a.sector root
      ∧ Exchange.Answer.Accords e c ⟨host, root, false⟩ (download n c host root w).2 a :=
  ⟨_, rfl, (Work.perform_keeps (Exchange.exchange_keeps hm) _ rfl w hw).2⟩

end

end Reclaim

import Reclaim.Host.Folder
import Reclaim.Host.Script
import Reclaim.Proofs.Host.Static

/-!
# A check says what getting the sector would

An exchange on its own comes to what the three answers of the host come to, each of them cut at the
limit of its step.  A check is the same exchange with one more limit, and it only matters whether
the exchange is over when that limit is reached.

* `Network.talk`, `Talk.duration`   the answers of an exchange that nothing comes between, and how
                  long they take;
* `perform_work`  what the exchange comes to;
* `Talk.answer_limited`   the limit of the whole makes no difference but to an exchange that is
                  longer;
* `check_agrees_with_download`   a check tells of a sector what getting it would, or that it was
                  too late.
-/

namespace Reclaim

variable {σ : Type}

/-! ## exchanges on their own -/

/-- the answers of a host in an exchange that nothing comes between; the prices that are paid are
those the host asks for -/
def Network.talk (n : Network σ) (c : Settings) (host : HostKey) (root : Hash256) (s : σ) : Talk :=
  let d := n.dial host s
  let p := n.settings host d.2
  let part := Exchange.wholeSector c root
  let cost :=
    match p.1.result with
    | .ok prices => readCost prices [part]
    | .error _ => 0
  ⟨d.1, p.1, (n.read host [part] cost p.2).1⟩

/-- how long an exchange takes, each step cut at its own limit; it ends with the first that
fails -/
def Talk.duration (c : Settings) (k : Talk) : Nat :=
  let t₁ := k.dial.within "dial" c.dialLimit
  let t₂ := k.settings.within "settings" c.settingsLimit
  let t₃ := k.read.within "read" c.readLimit
  match t₁.2, t₂.2 with
  | .error _, _ => t₁.1
  | .ok _, .error _ => t₁.1 + t₂.1
  | .ok _, .ok _ => t₁.1 + t₂.1 + t₃.1

/-- every step of the exchange is done within its limit, and this payload comes of it -/
structure Talk.Pays (c : Settings) (k : Talk) (b : Bytes) : Prop where
  dial : (k.dial.within "dial" c.dialLimit).2 = .ok ()
  settings : ∃ prices, (k.settings.within "settings" c.settingsLimit).2 = .ok prices
  read : (k.read.within "read" c.readLimit).2 = .ok b

namespace Exchange

section
variable {n : Network σ} {c : Settings} {g : Goal} {spent ms : Nat} {w : Wire σ}

variable (n c) in
/-- what an exchange comes to that is carried on from a burst with nothing else going on -/
def outcome (r : Burst Task Answer × Wire σ) : Answer := ((work n c).finish r.1 r.2).1

theorem outcome_done (a : Answer) : outcome n c (.done a, w) = a := by
  rw [outcome, Work.finish]

theorem outcome_wait (ms : Nat) (t : Task) :
    outcome n c (.wait ms t, w) = outcome n c (resume n c t w) := by
  have hr : (work n c).resume t w = resume n c t w := rfl
  rw [outcome, Work.finish, hr]
  rcases h : resume n c t w with ⟨a | ⟨ms', t'⟩, w'⟩
  · exact (outcome_done a).symm
  · rfl

theorem outcome_await {stage : Stage} {now : Wire σ → Burst Task Answer × Wire σ}
    (ht : overrun c g.limited spent = false) (hnow : ms = 0 → now w = resume n c ⟨g, stage⟩ w) :
    outcome n c (await c g spent ms stage now w)
      = if overrun c g.limited (spent + ms) then overdueAnswer c
        else outcome n c (resume n c ⟨g, stage⟩ w) := by
  unfold await
  split
  · next h0 => rw [h0, Nat.add_zero, ht, if_neg Bool.false_ne_true, hnow h0]
  · have hover : overrun c g.limited (spent + ms)
        = (g.limited && decide (c.checkLimit < spent + ms)) := rfl
    rw [← hover]
    split
    · split
      · exact outcome_done _
      · rw [outcome_wait]
        exact outcome_done _
    · exact outcome_wait ms _

theorem outcome_afterSettings (r : Except SectorError HostSettings)
    (ht : overrun c g.limited spent = false) :
    outcome n c (afterSettings n c g spent r w)
      = match r with
        | .error e => .given (.error e)
        | .ok prices =>
          let part := wholeSector c g.root
          let t := (n.read g.host [part] (readCost prices [part]) w.net).1.within "read" c.readLimit
          if overrun c g.limited (spent + t.1) then overdueAnswer c else accept c t.2 := by
  cases r with
  | error e => exact outcome_done _
  | ok prices =>
    refine (outcome_await ht fun _ => rfl).trans ?_
    exact if_congr Iff.rfl rfl (outcome_done _)

theorem outcome_afterDial (r : Except SectorError Unit)
    (ht : overrun c g.limited spent = false) :
    outcome n c (afterDial n c g spent r w)
      = match r with
        | .error e => .failed e
        | .ok _ =>
          let t := (n.settings g.host w.net).1.within "settings" c.settingsLimit
          if overrun c g.limited (spent + t.1) then overdueAnswer c
          else outcome n c (afterSettings n c g (spent + t.1) t.2 (w.settings n g.host).2) := by
  cases r with
  | error e => exact outcome_done _
  | ok _ =>
    refine outcome_await ht fun h0 => ?_
    show _ = afterSettings n c g (spent + _) _ _
    rw [h0]
    rfl

theorem outcome_start : outcome n c (start n c g w)
    = let t := (n.dial g.host w.net).1.within "dial" c.dialLimit
      if overrun c g.limited t.1 then overdueAnswer c
      else outcome n c (afterDial n c g t.1 t.2 (w.dial n g.host g.root).2) := by
  refine (outcome_await (overrun_of_le (Nat.zero_le _)) fun h0 => ?_).trans ?_
  · show _ = afterDial n c g _ _ _
    rw [h0]
  · rw [Nat.zero_add]
    rfl

variable (n c g w) in
/-- an exchange on its own comes to what the answers of the host come to -/
theorem perform_work :
    ((work n c).perform g w).1 = (n.talk c g.host g.root w.net).answer c g.limited := by
  have h : ((work n c).perform g w).1 = outcome n c (start n c g w) := rfl
  rw [h, outcome_start]
  unfold Talk.answer Network.talk Wire.dial
  dsimp only
  refine if_ctx_congr Iff.rfl (fun _ => rfl) fun h₁ => ?_
  rw [outcome_afterDial _ (Bool.eq_false_iff.2 h₁)]
  cases ((n.dial g.host w.net).1.within "dial" c.dialLimit).2 with
  | error e => rfl
  | ok _ =>
    dsimp only
    refine if_ctx_congr Iff.rfl (fun _ => rfl) fun h₂ => ?_
    rw [outcome_afterSettings _ (Bool.eq_false_iff.2 h₂)]
    cases hs : ((n.settings g.host (n.dial g.host w.net).2).1.within "settings"
        c.settingsLimit).2 with
    | error e => rfl
    | ok prices =>
      rw [Reply.result_of_within hs]
      rfl

end

end Exchange

/-! ## the limit of a whole check -/

section
variable (c : Settings) (k : Talk)

theorem Talk.answer_unlimited : k.answer c false
    = match (k.dial.within "dial" c.dialLimit).2,
        (k.settings.within "settings" c.settingsLimit).2 with
      | .error e, _ => .failed e
      | .ok _, .error e => .given (.error e)
      | .ok _, .ok _ => Exchange.accept c (k.read.within "read" c.readLimit).2 := by
  unfold answer
  dsimp only
  rw [Exchange.overrun, Bool.false_and, if_neg Bool.false_ne_true]
  cases (k.dial.within "dial" c.dialLimit).2 with
  | error e => rfl
  | ok _ => cases (k.settings.within "settings" c.settingsLimit).2 <;> rfl

/-- an exchange that is over when the limit of the whole is reached does not feel it -/
theorem Talk.answer_limited : k.answer c true
    = if k.duration c ≤ c.checkLimit then k.answer c false
      else Exchange.overdueAnswer c := by
  have hover : ∀ spent, Exchange.overrun c true spent = decide (c.checkLimit < spent) :=
    fun _ => Bool.true_and _
  rw [answer_unlimited]
  unfold answer duration
  simp only [hover, decide_eq_true_eq]
  generalize k.dial.within "dial" c.dialLimit = t₁
  generalize k.settings.within "settings" c.settingsLimit = t₂
  generalize k.read.within "read" c.readLimit = t₃
  obtain ⟨d₁, r₁⟩ := t₁
  obtain ⟨d₂, r₂⟩ := t₂
  dsimp only
  cases r₁ with
  | error e => grind
  | ok _ =>
    cases r₂ with
    | error e => grind
    | ok prices => grind

variable {c k}

theorem Talk.answer_eq_payload_iff {b : Bytes} :
    k.answer c false = .given (.ok b) ↔ k.Pays c b ∧ b.length = c.sectorSize := by
  rw [answer_unlimited]
  constructor
  · intro h
    split at h
    · cases h
    · cases h
    · next u prices hd hs =>
      unfold Exchange.accept at h
      have h := Answer.given.inj h
      split at h
      · cases h
      · next b' hr =>
        split at h
        · next hl =>
          cases h
          exact ⟨⟨hd, ⟨prices, hs⟩, hr⟩, hl⟩
        · cases h
  · rintro ⟨⟨hd, ⟨prices, hs⟩, hr⟩, hl⟩
    rw [hd, hs, hr]
    exact congrArg Answer.given (if_pos hl)

end

/-! ## checks and downloads -/

/-- a session with the host is only refused by the line to it -/
def Network.RefusedByLine (n : Network σ) (host : HostKey) (s : σ) : Prop :=
  ∀ e, (n.dial host s).1.result = .error e → ∃ m, e = .transport m

theorem Memory.refusedByLine (host : HostKey) (h : Memory.Hosts) :
    Memory.network.RefusedByLine host h := by
  intro e he
  have he : (Memory.dial host h).1.result = .error e := he
  unfold Memory.dial at he
  dsimp only at he
  split at he
  · cases he
    exact ⟨_, rfl⟩
  · split at he
    · cases he
      exact ⟨_, rfl⟩
    · cases he

theorem Folder.refusedByLine (host : HostKey) (h : Folder.Hosts) :
    Folder.network.RefusedByLine host h := by
  intro e he
  have he : (Folder.dial host h).1.result = .error e := he
  unfold Folder.dial at he
  dsimp only at he
  split at he
  · cases he
    exact ⟨_, rfl⟩
  · split at he
    · cases he
    · cases he
      exact ⟨_, rfl⟩

section
variable {n : Network σ} {c : Settings} {k : Talk} {host : HostKey} {root : Hash256} {s : σ}

theorem Reply.ne_notFound_of_line {α : Type} {what : String} {limit : Nat} {r : Reply α}
    (hr : ∀ e, r.result = .error e → ∃ m, e = .transport m) {e : SectorError}
    (h : (r.within what limit).2 = .error e) : e ≠ .notFound := by
  unfold within at h
  split at h
  · cases h
    exact SectorError.noConfusion
  · split at h
    · cases h
      exact SectorError.noConfusion
    · split at h
      · cases h
      · next e' he =>
        obtain ⟨m, rfl⟩ := hr e' he
        cases h
        exact SectorError.noConfusion

theorem Talk.failed_ne_notFound (hr : ∀ e, k.dial.result = .error e → ∃ m, e = .transport m)
    {e : SectorError} (ha : k.answer c false = .failed e) : e ≠ .notFound := by
  rw [answer_unlimited] at ha
  split at ha
  · next hd =>
    cases ha
    exact Reply.ne_notFound_of_line hr hd
  · cases ha
  · cases ha

end

/-- getting the sector failed only because a payload as long as a sector has another root -/
def Talk.Misses (c : Settings) (k : Talk) (root : Hash256) (got : Except SectorError Bytes) :
    Prop :=
  ∃ b, k.Pays c b ∧ b.length = c.sectorSize ∧ sectorRoot b ≠ root
    ∧ got = .error (.transport s!"sector {root} has merkle root {sectorRoot b}")

/-- a check tells of a sector what getting it comes to -/
structure Talk.Agrees (c : Settings) (k : Talk) (root : Hash256)
    (seen : Except SectorError Bool) (got : Except SectorError Bytes) : Prop where
  present : seen = .ok true ↔ ∃ b, got = .ok b
  absent : seen = .ok false ↔ got = .error .notFound ∨ k.Misses c root got
  failed : ∀ e, seen = .error e ↔ got = .error e ∧ ¬(got = .error .notFound ∨ k.Misses c root got)

section
variable {a : Answer} {root : Hash256}

theorem Answer.serves_false_iff (hf : ∀ e, a = .failed e → e ≠ .notFound) :
    a.serves root = .ok false
      ↔ a.sector root = .error .notFound ∨ ∃ b, a = .given (.ok b) ∧ sectorRoot b ≠ root := by
  cases a with
  | failed e =>
    refine ⟨fun h => (by cases h), ?_⟩
    rintro (h | ⟨b, h, -⟩)
    · exact absurd (Except.error.inj h) (hf e rfl)
    · cases h
  | given r =>
    cases r with
    | error e =>
      refine ⟨fun h => .inl ?_, ?_⟩
      · cases e <;> first | rfl | cases h
      · rintro (h | ⟨b, h, -⟩)
        · cases h
          rfl
        · cases h
    | ok b =>
      rw [serves, sector]
      by_cases h : sectorRoot b = root
      · rw [if_pos h, decide_eq_true h]
        refine ⟨fun h' => (by cases h'), ?_⟩
        rintro (h' | ⟨b', h', hne⟩)
        · cases h'
        · cases h'
          exact absurd h hne
      · rw [if_neg h, decide_eq_false h]
        exact ⟨fun _ => .inr ⟨b, rfl, h⟩, fun _ => rfl⟩

variable (a root) in
theorem Answer.serves_error_iff (e : SectorError) :
    a.serves root = .error e ↔ a.sector root = .error e ∧ a.serves root ≠ .ok false := by
  have hsame : ∀ e' : SectorError, (.error e' : Except SectorError Bool) = .error e
      ↔ (.error e' : Except SectorError Bytes) = .error e
        ∧ (.error e' : Except SectorError Bool) ≠ .ok false :=
    fun e' => ⟨fun h => ⟨congrArg _ (Except.error.inj h), fun h' => by cases h'⟩,
      fun h => congrArg _ (Except.error.inj h.1)⟩
  cases a with
  | failed e' => exact hsame e'
  | given r =>
    cases r with
    | error e' =>
      cases e' with
      | notFound => exact ⟨fun h => (by cases h), fun h => absurd rfl h.2⟩
      | contractMissing => exact hsame .contractMissing
      | transport m => exact hsame (.transport m)
    | ok b =>
      rw [serves, sector]
      by_cases h : sectorRoot b = root
      · rw [if_pos h]
        exact ⟨fun h' => (by cases h'), fun h' => (by cases h'.1)⟩
      · rw [decide_eq_false h]
        exact ⟨fun h' => (by cases h'), fun h' => absurd rfl h'.2⟩

end

section
variable {c : Settings} {k : Talk} {root : Hash256}

theorem Talk.misses_iff : k.Misses c root ((k.answer c false).sector root)
    ↔ ∃ b, k.answer c false = .given (.ok b) ∧ sectorRoot b ≠ root := by
  constructor
  · rintro ⟨b, hp, hl, hne, -⟩
    exact ⟨b, answer_eq_payload_iff.2 ⟨hp, hl⟩, hne⟩
  · rintro ⟨b, ha, hne⟩
    obtain ⟨hp, hl⟩ := answer_eq_payload_iff.1 ha
    refine ⟨b, hp, hl, hne, ?_⟩
    rw [ha]
    exact if_neg hne

theorem Talk.answer_agrees (hr : ∀ e, k.dial.result = .error e → ∃ m, e = .transport m) :
    k.Agrees c root ((k.answer c false).serves root) ((k.answer c false).sector root) := by
  have habsent : (k.answer c false).serves root = .ok false ↔ _ :=
    Answer.serves_false_iff fun _ => failed_ne_notFound hr
  rw [← misses_iff] at habsent
  refine ⟨?_, habsent, fun e => ?_⟩
  · rw [(Answer.serves_eq root _).1, Answer.sector_ok_iff]
  · rw [← habsent]
    exact Answer.serves_error_iff _ root e

theorem Talk.sector_sound {b : Bytes} (h : (k.answer c false).sector root = .ok b) :
    b.length = c.sectorSize ∧ sectorRoot b = root := by
  cases ha : k.answer c false with
  | failed e =>
    rw [ha] at h
    cases h
  | given r =>
    cases r with
    | error e =>
      rw [ha] at h
      cases h
    | ok b' =>
      rw [ha, Answer.sector] at h
      split at h
      · next hroot =>
        cases h
        exact ⟨(answer_eq_payload_iff.1 ha).2, hroot⟩
      · cases h

end

section
variable (n : Network σ) (c : Settings) (host : HostKey) (root : Hash256) (w : Wire σ)

theorem download_eq : (download n c host root w).1
    = ((n.talk c host root w.net).answer c false).sector root :=
  congrArg (Answer.sector root) (Exchange.perform_work n c ⟨host, root, false⟩ w)

theorem check_eq : (check n c host root w).1
    = if (n.talk c host root w.net).duration c ≤ c.checkLimit
      then ((n.talk c host root w.net).answer c false).serves root
      else .error (timedOut "check" c.checkLimit) := by
  have h : (check n c host root w).1 = ((n.talk c host root w.net).answer c true).serves root :=
    congrArg (Answer.serves root) (Exchange.perform_work n c ⟨host, root, true⟩ w)
  rw [h, Talk.answer_limited, apply_ite (Answer.serves root)]
  rfl

end

/-- a check with a host and getting the sector from it, `k` being the answers of the host -/
structure Network.Consistent (n : Network σ) (c : Settings) (host : HostKey) (root : Hash256)
    (w : Wire σ) (k : Talk) : Prop where
  /-- an exchange that is over when the limit of a check is reached: both tell the same -/
  inTime : k.duration c ≤ c.checkLimit →
    k.Agrees c root (check n c host root w).1 (download n c host root w).1
  /-- one that is not: the check fails -/
  late : c.checkLimit < k.duration c → (check n c host root w).1
    = .error (.transport s!"check timed out after {Millis.text c.checkLimit}")
  /-- in any case a sector that comes is the one that was asked for -/
  sound : ∀ b, (download n c host root w).1 = .ok b → b.length = c.sectorSize ∧ sectorRoot b = root

/-- a check tells of a sector what getting it would, or that it took too long, with all hosts that
only the line to them refuses; the hosts in memory and those in a folder are of this kind -/
theorem check_agrees_with_download :
    (∀ host s, Memory.network.RefusedByLine host s)
      ∧ (∀ host s, Folder.network.RefusedByLine host s)
      ∧ ∀ {σ : Type} (n : Network σ) (c : Settings) (host : HostKey) (root : Hash256) (w : Wire σ),
        n.RefusedByLine host w.net →
          n.Consistent c host root w (n.talk c host root w.net) := by
  refine ⟨Memory.refusedByLine, Folder.refusedByLine, fun n c host root w hr => ?_⟩
  refine ⟨fun ht => ?_, fun ht => ?_, fun b hb => ?_⟩
  · rw [check_eq, if_pos ht, download_eq]
    exact Talk.answer_agrees hr
  · rw [check_eq, if_neg (Nat.not_le.2 ht)]
    rfl
  · rw [download_eq] at hb
    exact Talk.sector_sound hb

namespace Script

/-- one host that stores a sector and answers a read after some time -/
def slow (b : Bytes) (ms : Nat) : Hosts :=
  (Hosts.empty.setContract default true).set default
    { Host.plain with sectors := [(sectorRoot b, b)], reads := [⟨ms, none, none⟩] }

theorem talk_slow (c : Settings) (b : Bytes) (ms : Nat) :
    network.talk c default (sectorRoot b) (slow b ms)
      = ⟨.now (.ok ()), .now (.ok ⟨0, 0, 0⟩), ⟨some ms, .ok b⟩⟩ := by
  have hhost : (slow b ms).host default
      = { Host.plain with sectors := [(sectorRoot b, b)], reads := [⟨ms, none, none⟩] } := by
    simp [slow, Hosts.host, Hosts.set, Hosts.empty, Hosts.setContract, Table.put, Table.getOr]
  have hdial : (network.dial default (slow b ms)).1 = .now (.ok ()) := by
    show ((slow b ms).host default).dial.reply _ = _
    rw [hhost]
    rfl
  have hsettings : (network.settings default (slow b ms)).1 = .now (.ok ⟨0, 0, 0⟩) := by
    show ((slow b ms).host default).settings.reply _ = _
    rw [hhost]
    rfl
  have hread : ∀ cost, (network.read default [Exchange.wholeSector c (sectorRoot b)] cost
      (slow b ms)).1 = ⟨some ms, .ok b⟩ := by
    intro cost
    show (Script.read default _ cost (slow b ms)).1 = _
    unfold Script.read stored Exchange.wholeSector
    simp only [hhost, List.lookup_cons_self]
    rfl
  show Talk.mk (network.dial default (slow b ms)).1 (network.settings default (slow b ms)).1 _ = _
  rw [hdial, hsettings]
  exact congrArg _ (hread _)

theorem refusedByLine_slow (b : Bytes) (ms : Nat) :
    network.RefusedByLine default (slow b ms) := by
  intro e he
  have hd := congrArg Talk.dial (talk_slow .standard b ms)
  rw [show (network.dial default (slow b ms)).1 = .now (.ok ()) from hd] at he
  cases he

section
variable {c : Settings} {b : Bytes} {ms : Nat}

theorem duration_slow (h : ms ≤ c.readLimit) :
    (network.talk c default (sectorRoot b) (slow b ms)).duration c = ms := by
  rw [talk_slow]
  unfold Talk.duration Reply.now
  rw [Reply.within_of_le rfl (Nat.zero_le _), Reply.within_of_le rfl (Nat.zero_le _),
    Reply.within_of_le rfl h]
  exact Nat.zero_add ms

theorem answer_slow (h : ms ≤ c.readLimit) (hb : b.length = c.sectorSize) :
    (network.talk c default (sectorRoot b) (slow b ms)).answer c false = .given (.ok b) := by
  rw [talk_slow, Talk.answer_eq_payload_iff]
  unfold Reply.now
  refine ⟨⟨?_, ⟨⟨0, 0, 0⟩, ?_⟩, ?_⟩, hb⟩
  · rw [Reply.within_of_le rfl (Nat.zero_le _)]
    rfl
  · rw [Reply.within_of_le rfl (Nat.zero_le _)]
    rfl
  · rw [Reply.within_of_le rfl h]
    rfl

end

end Script

/-- sectors of 64 bytes, at most two seconds for a read, and one for a check -/
def Settings.hasty : Settings := ⟨1, 64, 60000, 60000, 2000, 1000⟩

/-- a check finds a sector that comes after half a second; for one that takes half a second more
than it has it is too late -/
theorem check_agrees_with_download_slow :
    let b : Bytes := List.replicate 64 7
    let w (ms : Nat) := Wire.fresh (Script.slow b ms)
    ((∀ ms, Script.network.RefusedByLine default (w ms).net)
      ∧ (download Script.network .hasty default (sectorRoot b) (w 500)).1 = .ok b)
      ∧ (check Script.network .hasty default (sectorRoot b) (w 500)).1 = .ok true
      ∧ (check Script.network .hasty default (sectorRoot b) (w 1500)).1
        = .error (.transport "check timed out after 1s") := by
  intro b w
  have hr := fun ms => Script.refusedByLine_slow b ms
  have hall := fun ms => check_agrees_with_download.2.2 Script.network .hasty default (sectorRoot b)
    (w ms) (hr ms)
  have hget : (download Script.network .hasty default (sectorRoot b) (w 500)).1 = .ok b := by
    rw [download_eq]
    exact (congrArg _ (Script.answer_slow (by decide) rfl)).trans (if_pos rfl)
  have hd : ∀ ms, ms ≤ 2000 →
      (Script.network.talk .hasty default (sectorRoot b) (w ms).net).duration .hasty = ms :=
    fun _ h => Script.duration_slow (c := .hasty) (b := b) h
  refine ⟨⟨hr, hget⟩, ?_, ?_⟩
  · exact (((hall 500).inTime ((hd 500 (by decide)).symm ▸ (by decide))).present).2 ⟨b, hget⟩
  · exact ((hall 1500).late ((hd 1500 (by decide)).symm ▸ (by decide))).trans (by decide +kernel)

/-- an answer that comes at the very moment at which the limit of a check is reached is taken: the
exchange is not over before that, and the check does not fail -/
theorem check_at_the_limit :
    let b : Bytes := List.replicate 64 7
    let w := Wire.fresh (Script.slow b 1000)
    Script.network.RefusedByLine default w.net
      ∧ ¬(Script.network.talk .hasty default (sectorRoot b) w.net).duration .hasty
        < Settings.hasty.checkLimit
      ∧ (check Script.network .hasty default (sectorRoot b) w).1 = .ok true := by
  intro b w
  have hd : (Script.network.talk .hasty default (sectorRoot b) w.net).duration .hasty = 1000 :=
    Script.duration_slow (by decide)
  refine ⟨Script.refusedByLine_slow b 1000, by rw [hd]; decide, ?_⟩
  rw [check_eq, hd, if_pos (show 1000 ≤ Settings.hasty.checkLimit from Nat.le_refl 1000)]
  refine (congrArg _ (Script.answer_slow (by decide) rfl)).trans ?_
  exact congrArg Except.ok (decide_eq_true rfl)

end Reclaim

import Reclaim.Proofs.Host.Exchange

/-!
# What exchanges put on record

* `Event.Exchanged`  the events of an exchange with a host: a session for the sector, and what
                     follows once there is one;
* `Wire.Records`     the events on record between two moments are such and such;
* `start_records`, `resume_records`   the steps of an exchange record nothing else;
* `download_records` nor does getting a sector from one host;
* `Wire.Opens`       the sessions opened between two moments were opened for certain sectors only;
* `download_opens`   getting a sector from one host opens one for that sector.
-/

namespace Reclaim

variable {σ : Type}

/-! ## events -/

/-- what a host is asked for in a session, and what it sends -/
inductive Event.Follows (host : HostKey) : Event → Prop
  | settings : Follows host (.settingsAsked host)
  | read (part : ReadSection) (cost : Nat) : Follows host (.readAsked host part cost)
  | received (b : Bytes) : Follows host (.received host b)

/-- an event of an exchange with a host about a sector -/
def Event.Exchanged (host : HostKey) (root : Hash256) (e : Event) : Prop :=
  e = .dialed host root ∨ e.Follows host

namespace Wire

/-- the events on record in between are as `P` says -/
def Records (P : Event → Prop) (w w' : Wire σ) : Prop :=
  ∃ later, w'.events = w.events ++ later ∧ ∀ e ∈ later, P e

section
variable {P Q : Event → Prop} {w w' w'' : Wire σ}

theorem Records.refl : Records P w w :=
  ⟨[], (List.append_nil _).symm, fun _ h => absurd h List.not_mem_nil⟩

theorem Records.trans (h : Records P w w') (h' : Records P w' w'') : Records P w w'' := by
  obtain ⟨l, e, hl⟩ := h
  obtain ⟨l', e', hl'⟩ := h'
  refine ⟨l ++ l', by rw [e', e, List.append_assoc], fun x hx => ?_⟩
  exact (List.mem_append.1 hx).elim (hl x) (hl' x)

theorem Records.mono (h : Records P w w') (hPQ : ∀ e, P e → Q e) : Records Q w w' := by
  obtain ⟨l, e, hl⟩ := h
  exact ⟨l, e, fun x hx => hPQ x (hl x hx)⟩

theorem records_event {e : Event} (he : w'.trace = e :: w.trace) (h : P e) : Records P w w' := by
  refine ⟨[e], ?_, fun x hx => ?_⟩
  · rw [events, he, List.reverse_cons]
    rfl
  · rw [List.mem_singleton.1 hx]
    exact h

theorem records_take {host : HostKey} (h : ∀ b, P (.received host b))
    (r : Except SectorError Bytes) (w : Wire σ) : Records P w (w.take host r) := by
  unfold take
  split
  · exact records_event rfl (h _)
  · exact .refl

end

end Wire

/-! ## exchanges -/

namespace Exchange

open Wire

section
variable {P : Event → Prop} {n : Network σ} {c : Settings} (g : Goal) (w : Wire σ)

theorem await_records {spent ms : Nat} {stage : Stage} {now : Wire σ → Burst Task Answer × Wire σ}
    (hnow : Records P w (now w).2) : Records P w (await c g spent ms stage now w).2 :=
  await_rule (fun _ w' => Records P w w') hnow (fun _ => .refl) (fun _ _ => .refl) fun _ => .refl

theorem afterSettings_records (spent : Nat) (r : Except SectorError HostSettings) :
    Records (Event.Follows g.host) w (afterSettings n c g spent r w).2 := by
  unfold afterSettings
  cases r with
  | error e => exact .refl
  | ok prices =>
    have hread : Records (Event.Follows g.host) w (w.read n g.host (wholeSector c g.root)
        (readCost prices [wholeSector c g.root])).2 := records_event rfl (.read _ _)
    exact hread.trans (await_records g _ (records_take (fun b => .received b) _ _))

theorem afterDial_records (spent : Nat) (r : Except SectorError Unit) :
    Records (Event.Follows g.host) w (afterDial n c g spent r w).2 := by
  unfold afterDial
  cases r with
  | error e => exact .refl
  | ok _ =>
    have hasked : Records (Event.Follows g.host) w (w.settings n g.host).2 :=
      records_event rfl .settings
    exact hasked.trans (await_records g _ (afterSettings_records ..))

/-- an exchange begins with a session for its sector -/
theorem start_records : Records (Event.Exchanged g.host g.root) w (start n c g w).2 := by
  have hdialed : Records (Event.Exchanged g.host g.root) w (w.dial n g.host g.root).2 :=
    records_event rfl (.inl rfl)
  exact hdialed.trans (await_records g _ ((afterDial_records ..).mono fun _ => .inr))

/-- and goes on without another -/
theorem resume_records (t : Task) : Records (Event.Follows t.goal.host) w (resume n c t w).2 := by
  unfold resume
  split
  · exact afterDial_records ..
  · exact afterSettings_records ..
  · exact records_take (fun b => .received b) _ _
  · exact .refl

theorem exchange_records (n : Network σ) (c : Settings) (origin : Wire σ) :
    (work n c).Keeps (· = g)
      (fun w => Evolves n (fun _ => False) origin w
        ∧ Records (Event.Exchanged g.host g.root) origin w)
      (Accords .nothing c g) where
  start := by
    rintro _ w rfl ⟨hw, hr⟩
    obtain ⟨h1, h2, h3⟩ := (exchange_keeps (meets_nothing n c _ origin _)).start _ w rfl hw
    exact ⟨⟨h1, hr.trans (start_records _ w)⟩, h2, h3⟩
  resume := by
    rintro ms t w ⟨hw, hr⟩ ht
    obtain ⟨h1, h2, h3⟩ := (exchange_keeps (meets_nothing n c _ origin g)).resume ms t w hw ht
    have hnext := resume_records (n := n) (c := c) w t
    rw [show t.goal = g from ht.1] at hnext
    exact ⟨⟨h1, hr.trans (hnext.mono fun _ => .inr)⟩, h2, h3⟩

end

end Exchange

/-- getting a sector from a host makes the requests of one exchange -/
theorem download_records (n : Network σ) (c : Settings) (host : HostKey) (root : Hash256)
    (w : Wire σ) :
    n.Reach (fun _ => False) w.net (download n c host root w).2.net
      ∧ Wire.Records (Event.Exchanged host root) w (download n c host root w).2 := by
  obtain ⟨⟨hw, hr⟩, -⟩ := Work.perform_keeps (Exchange.exchange_records ⟨host, root, false⟩ n c w)
    _ rfl w ⟨.refl, .refl⟩
  exact ⟨hw.reach .refl, hr⟩

/-! ## what sessions are opened for -/

namespace Wire

/-- the sessions that were opened in between were opened to get sectors with such roots -/
def Opens (P : Hash256 → Prop) (w w' : Wire σ) : Prop :=
  ∃ later, w'.trace = later ++ w.trace ∧ ∀ host root, Event.dialed host root ∈ later → P root

section
variable {P Q : Hash256 → Prop} {n : Network σ} {w w' w'' : Wire σ}

theorem Opens.refl : Opens P w w := ⟨[], rfl, fun _ _ h => absurd h List.not_mem_nil⟩

theorem Opens.trans (h : Opens P w w') (h' : Opens P w' w'') : Opens P w w'' := by
  obtain ⟨l, e, hl⟩ := h
  obtain ⟨l', e', hl'⟩ := h'
  refine ⟨l' ++ l, by rw [e', e, List.append_assoc], fun host root hm => ?_⟩
  exact (List.mem_append.1 hm).elim (hl' host root) (hl host root)

theorem Opens.mono (h : Opens P w w') (hPQ : ∀ root, P root → Q root) : Opens Q w w' := by
  obtain ⟨l, e, hl⟩ := h
  exact ⟨l, e, fun host root hm => hPQ root (hl host root hm)⟩

theorem opens_event {e : Event} (he : w'.trace = e :: w.trace)
    (hq : ∀ host root, e ≠ .dialed host root) : Opens P w w' := by
  refine ⟨[e], he, fun host root hm => ?_⟩
  exact absurd (List.mem_singleton.1 hm).symm (hq host root)

theorem opens_of_records {R : Event → Prop} (h : Records R w w')
    (hR : ∀ host root, R (.dialed host root) → P root) : Opens P w w' := by
  obtain ⟨l, e, hl⟩ := h
  refine ⟨l.reverse, ?_, fun host root hm => hR host root (hl _ (List.mem_reverse.1 hm))⟩
  have e' := congrArg List.reverse e
  rwa [events, events, List.reverse_append, List.reverse_reverse, List.reverse_reverse] at e'

theorem opens_failed (host : HostKey) (root : Hash256) (e : SectorError) :
    Opens P w (w.note (.failed host root e)) := opens_event rfl fun _ _ h => by cases h

theorem opens_raced (root : Hash256) : Opens P w (w.note (.raced root)) :=
  opens_event rfl fun _ _ h => by cases h

theorem opens_prune (n : Network σ) (host : HostKey) : Opens P w (w.prune n host).2 := by
  unfold prune
  split
  · exact .refl
  · exact opens_event rfl fun _ _ h => by cases h

end

end Wire

/-- getting a sector from a host opens sessions for that sector only -/
theorem download_opens (n : Network σ) (c : Settings) (host : HostKey) (root : Hash256)
    (w : Wire σ) : Wire.Opens (· = root) w (download n c host root w).2 := by
  refine Wire.opens_of_records (download_records n c host root w).2 fun _ _ hd => ?_
  rcases hd with hd | hd
  · cases hd
    rfl
  · cases hd

end Reclaim

import Reclaim.Proofs.Descriptor.Validate
import Reclaim.Proofs.Recovery.Chunks

/-!
# Recovering a whole file

* `recover_eq`, `recover_cases`   a recovery does nothing at all, or goes through the chunks;
* `recover_leads`   a sound run stays sound, and `recover_reach` what becomes of hosts;
* `Run.Reached`     the runs that any number of recoveries and fetches lead to, the hosts changing
                    in between as they like; all of them are sound (`Reached.sound`).
-/

namespace Reclaim

variable {σ : Type}

theorem wellformed_target {d : Descriptor} {coder : Coder} (hv : d.Valid)
    (hcoder : d.coder = .ok coder)
    (haligned : d.encoderType = 2 → d.pieceSize.toNat % stripeWidth = 0) (key : MasterKey) :
    (⟨d, coder, key⟩ : Recovery.Target).Wellformed := by
  obtain ⟨-, htag, hdata, hparity⟩ := Coder.ofTag_ok hcoder
  refine ⟨hdata, ?_, Nat.pos_of_ne_zero fun h0 => hv.pieceSize (UInt64.toNat_inj.1 h0), ?_⟩
  · rw [Coder.numPieces, hdata, hparity]
    rfl
  · intro hkind
    have hkind : coder.kind = .striped := hkind
    rw [hkind] at htag
    exact haligned (UInt32.toNat_inj.1 htag.symm)

namespace Recovery

/-- what a recovery comes to, apart from how the sectors were come by -/
def Outcome.gist (o : Outcome σ RecoveryReport) : Except RecoveryError (UInt64 × UInt64) :=
  o.result.map fun report => (report.chunks, report.bytesWritten)

/-- the outcome of a recovery that went through the chunks -/
def reported (d : Descriptor) (o : Outcome σ UInt64) : Outcome σ RecoveryReport :=
  match o.result with
  | .error e => ⟨.error e, o.sink, o.run⟩
  | .ok written => ⟨.ok ⟨UInt64.ofNat d.chunks.length, written, o.run.tally⟩, o.sink, o.run⟩

section
variable (d : Descriptor) (o : Outcome σ UInt64)

theorem sink_reported : (reported d o).sink = o.sink := by
  unfold reported
  split <;> rfl

theorem run_reported : (reported d o).run = o.run := by
  unfold reported
  split <;> rfl

theorem reported_error {e : RecoveryError} (h : (reported d o).result = .error e) :
    o.result = .error e := by
  unfold reported at h
  split at h
  · next he =>
    cases h
    exact he
  · cases h

theorem reported_ok {report : RecoveryReport} (h : (reported d o).result = .ok report) :
    ∃ w, o.result = .ok w := by
  unfold reported at h
  split at h
  · cases h
  · next w hw => exact ⟨w, hw⟩

theorem gist_reported :
    (reported d o).gist = o.result.map fun written => (UInt64.ofNat d.chunks.length, written) := by
  unfold reported Outcome.gist
  cases o.result <;> rfl

theorem ok_reported {w : UInt64} (h : o.result = .ok w) :
    ∃ report, (reported d o).result = .ok report := by
  unfold reported
  rw [h]
  exact ⟨_, rfl⟩

end

/-- an error that comes before the first chunk -/
def RecoveryError.Early (e : RecoveryError) : Prop :=
  ∀ chunk found required, e ≠ .unrecoverable chunk found required

/-- the errors of a descriptor or of its key, and that there is nobody to ask -/
inductive RecoveryError.Unprepared : RecoveryError → Prop
  | descriptor (e : DecodeError) : Unprepared (.descriptor e)
  | cipher (e : CipherError) : Unprepared (.cipher e)
  | noHosts : Unprepared .noHosts

theorem RecoveryError.Unprepared.early {e : RecoveryError} (h : Unprepared e) : Early e := by
  intro chunk found required he
  rw [he] at h
  cases h

/-- what is looked at before the first chunk -/
def prepare (n : Network σ) (d : Descriptor) (net : σ) : Except RecoveryError Target :=
  match d.validate with
  | .error e => .error (.descriptor e)
  | .ok _ =>
    match d.coder with
    | .error e => .error (.erasure e)
    | .ok coder =>
      match d.key with
      | .error e => .error (.cipher e)
      | .ok key => if (n.hosts net).isEmpty then .error .noHosts else .ok ⟨d, coder, key⟩

section
variable {n : Network σ} {d : Descriptor} {net : σ}

theorem prepare_eq_ok_iff {t : Target} : prepare n d net = .ok t
    ↔ d.validate = .ok () ∧ d.coder = .ok t.coder ∧ d.key = .ok t.key ∧ t.descriptor = d
      ∧ n.hosts net ≠ [] := by
  unfold prepare
  constructor
  · intro h
    split at h
    · cases h
    · next hv =>
      split at h
      · cases h
      · next coder hc =>
        split at h
        · cases h
        · next key hk =>
          split at h
          · cases h
          · next hh =>
            cases h
            exact ⟨hv, hc, hk, rfl, fun he => hh (List.isEmpty_iff.2 he)⟩
  · rintro ⟨hv, hc, hk, rfl, hh⟩
    simp only [hv, hc, hk, List.isEmpty_iff, if_neg hh]

theorem unprepared_of_prepare {e : RecoveryError} (h : prepare n d net = .error e) :
    RecoveryError.Unprepared e := by
  unfold prepare at h
  split at h
  · cases h
    exact .descriptor _
  · next hv =>
    obtain ⟨coder, hc⟩ := ((d.validate_eq_ok_iff).1 hv).coder
    rw [hc] at h
    dsimp only at h
    split at h
    · cases h
      exact .cipher _
    · split at h
      · cases h
        exact .noHosts
      · cases h

end

section
variable (n : Network σ) (c : Settings) (orders : Run.Orders) (d : Descriptor) (sink : Sink)
  (r : Run σ)

/-- a recovery does nothing at all, or it goes through the chunks -/
theorem recover_eq :
    recover n c orders d sink r
      = match prepare n d r.wire.net with
        | .error e => ⟨.error e, sink, r⟩
        | .ok t => reported d (recoverChunks n c orders t 0 0 d.chunks sink r) := by
  unfold recover prepare
  cases d.validate with
  | error e => rfl
  | ok _ =>
    cases d.coder with
    | error e => rfl
    | ok coder =>
      cases d.key with
      | error e => rfl
      | ok key =>
        cases (n.hosts r.wire.net).isEmpty with
        | true => rfl
        | false => rfl

theorem recover_go {coder : Coder} {key : MasterKey} (hv : d.validate = .ok ())
    (hc : d.coder = .ok coder) (hk : d.key = .ok key) (hh : n.hosts r.wire.net ≠ []) :
    recover n c orders d sink r
      = reported d (recoverChunks n c orders ⟨d, coder, key⟩ 0 0 d.chunks sink r) := by
  rw [recover_eq, (prepare_eq_ok_iff (t := ⟨d, coder, key⟩)).2 ⟨hv, hc, hk, rfl, hh⟩]

/-- a recovery does nothing at all, or it goes through the chunks of a descriptor that can be used -/
theorem recover_cases :
    (∃ e, RecoveryError.Early e ∧ recover n c orders d sink r = ⟨.error e, sink, r⟩)
      ∨ ∃ coder key, d.Valid ∧ d.coder = .ok coder ∧ d.key = .ok key
          ∧ recover n c orders d sink r
            = reported d (recoverChunks n c orders ⟨d, coder, key⟩ 0 0 d.chunks sink r) := by
  rw [recover_eq]
  cases h : prepare n d r.wire.net with
  | error e => exact .inl ⟨e, (unprepared_of_prepare h).early, rfl⟩
  | ok t =>
    obtain ⟨hv, hc, hk, ht, -⟩ := prepare_eq_ok_iff.1 h
    obtain ⟨_, coder, key⟩ := t
    obtain rfl : _ = d := ht
    exact .inr ⟨coder, key, (Descriptor.validate_eq_ok_iff _).1 hv, hc, hk, rfl⟩

end

theorem recover_leads {n : Network σ} {c : Settings} {gone : HostKey → Prop} (orders : Run.Orders)
    (d : Descriptor) (sink : Sink) (r : Run σ) (hs : Spares n c gone r.wire) (hr : r.Sound c) :
    Run.Leads n c gone r (recover n c orders d sink r).run := by
  rcases recover_cases n c orders d sink r with ⟨e, -, h⟩ | ⟨coder, key, hv, -, -, h⟩
  · rw [h]
    exact .refl
  · rw [h, run_reported]
    exact recoverChunks_leads orders d.chunks hv.slots 0 0 sink r hs hr

/-- whatever a recovery does to hosts, it does by requests and by giving up contracts -/
theorem recover_reach (n : Network σ) (c : Settings) (orders : Run.Orders)
    (d : Descriptor) (sink : Sink) (net : σ) (progress : Option Progress) :
    n.Reach (fun _ => True) net
      (recover n c orders d sink (Run.fresh net progress)).run.wire.net :=
  (recover_leads orders d sink (Run.fresh net progress) (spares_all n c _)
    (Run.sound_fresh c net progress)).wire.reach .refl

end Recovery

/-- the runs that recoveries and fetches with the same settings lead to, whatever becomes of the
hosts in between -/
inductive Run.Reached (n : Network σ) (c : Settings) : Run σ → Prop
  | fresh (net : σ) (progress : Option Progress) : Reached n c (Run.fresh net progress)
  | recover (r : Run σ) (orders : Run.Orders) (d : Descriptor) (sink : Sink) (h : Reached n c r) :
      Reached n c (Recovery.recover n c orders d sink r).run
  | fetch (r : Run σ) (host : HostKey) (root : Hash256) (h : Reached n c r) :
      Reached n c (Run.fetch n c host root r).2
  | meanwhile (r : Run σ) (net : σ) (h : Reached n c r) :
      Reached n c { r with wire := ⟨net, r.wire.trace⟩ }

theorem Run.Reached.sound {n : Network σ} {c : Settings} {r : Run σ} (h : r.Reached n c) :
    r.Sound c := by
  induction h with
  | fresh net progress => exact Run.sound_fresh c net progress
  | recover r orders d sink h ih =>
    exact (Recovery.recover_leads orders d sink r (spares_all n c r.wire) ih).sound ih
  | fetch r host root h ih => exact (Run.fetch_rule (spares_all n c r.wire) host root).1.sound ih
  | meanwhile r net h ih =>
    intro root b hb
    obtain ⟨h1, h2, h3⟩ := ih root b hb
    exact ⟨h1, h2, h3⟩

end Reclaim

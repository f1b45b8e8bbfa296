import Reclaim.Proofs.Host.Exchange
import Reclaim.Recovery.Run

/-!
# What fetching gives

* `Genuine`     a sector that a host sent and that has the root it was asked for under;
* `Spares`      only hosts that are `gone` answer that they know no contract;
* `Run.Sound`   every sector in the cache is genuine;
* `Run.Leads`   the wire evolves, and a sound run stays sound;
* `fetch_rule`, `fetchAny_rule`   a sector that is fetched is genuine.
-/

namespace Reclaim

variable {σ : Type}

/-- a sector that a host sent, of the right length and with the given root -/
structure Genuine (c : Settings) (w : Wire σ) (root : Hash256) (b : Bytes) : Prop where
  length : b.length = c.sectorSize
  root : sectorRoot b = root
  sent : b ∈ w.payloads

theorem Genuine.mono {c : Settings} {n : Network σ} {gone : HostKey → Prop} {w w' : Wire σ}
    {root : Hash256} {b : Bytes} (hw : Wire.Evolves n gone w w') (h : Genuine c w root b) :
    Genuine c w' root b :=
  ⟨h.length, h.root, hw.mem_payloads h.sent⟩

/-! ## two expectations -/

namespace Exchange

/-- that a contract is not known, only a host that is `gone` answers -/
def Expect.spares (gone : HostKey → Prop) (host : HostKey) : Expect where
  dial r := r = .error .contractMissing → gone host
  settings r := r = .error .contractMissing → gone host
  read r := r = .error .contractMissing → gone host

/-- every step succeeds in time, and the sector with the given root is sent -/
def Expect.serves (c : Settings) (root : Hash256) : Expect where
  dial r := r = .ok ()
  settings r := ∃ prices, r = .ok prices
  read r := ∃ b, r = .ok b ∧ b.length = c.sectorSize ∧ sectorRoot b = root

theorem Meets.mono {n : Network σ} {c : Settings} {gone : HostKey → Prop} {w w' : Wire σ} {g : Goal}
    {e : Expect} (hw : Wire.Evolves n gone w w') (h : Meets n c gone w g e) :
    Meets n c gone w' g e :=
  ⟨fun v hv => h.dial v (hw.trans hv), fun v hv => h.settings v (hw.trans hv),
    fun v cost hv => h.read v cost (hw.trans hv)⟩

theorem eq_error_of_accept {c : Settings} {r : Except SectorError Bytes}
    (h : Answer.given (.error .contractMissing) = accept c r) : r = .error .contractMissing := by
  unfold accept at h
  have h := Answer.given.inj h
  split at h
  · cases h
    rfl
  · split at h
    · cases h
    · cases h

theorem eq_ok_of_accept {c : Settings} {r : Except SectorError Bytes} {b : Bytes}
    (h : Answer.given (.ok b) = accept c r) : r = .ok b ∧ b.length = c.sectorSize := by
  unfold accept at h
  have h := Answer.given.inj h
  split at h
  · cases h
  · split at h
    · next hl =>
      cases h
      exact ⟨rfl, hl⟩
    · cases h

section
variable {c : Settings} {host : HostKey} {root : Hash256} {w : Wire σ} {a : Answer} {e : Expect}

theorem given_of_sector {b : Bytes} (h : a.sector root = .ok b) :
    a = .given (.ok b) ∧ sectorRoot b = root := by
  unfold Answer.sector at h
  split at h
  · cases h
  · cases h
  · next b' =>
    split at h
    · next hr =>
      cases h
      exact ⟨rfl, hr⟩
    · cases h

theorem genuine_of_accords (ha : Answer.Accords e c ⟨host, root, false⟩ w a) {b : Bytes}
    (h : a.sector root = .ok b) : Genuine c w root b := by
  obtain ⟨rfl, hr⟩ := given_of_sector h
  rcases ha with ⟨err, he, _⟩ | ⟨r', h1, _, h3⟩
  · cases he
  · obtain ⟨h4, h5⟩ := eq_ok_of_accept h1
    exact ⟨h5, hr, h3 b h4⟩

theorem gone_of_accords {gone : HostKey → Prop}
    (ha : Answer.Accords (.spares gone host) c ⟨host, root, false⟩ w a)
    (h : a.sector root = .error .contractMissing) : gone host := by
  unfold Answer.sector at h
  split at h
  · cases h
    rcases ha with ha | ⟨hl, _⟩
    · exact ha rfl
    · cases hl
  · cases h
    rcases ha with ⟨err, he, ha⟩ | ⟨r', h1, h2, _⟩
    · cases he
      exact ha rfl
    · exact h2 (eq_error_of_accept h1)
  · split at h
    · cases h
    · cases h

theorem sector_of_accords (ha : Answer.Accords (.serves c root) c ⟨host, root, false⟩ w a) :
    ∃ b, a.sector root = .ok b := by
  cases a with
  | failed err =>
    rcases ha with ha | ⟨hl, _⟩
    · cases ha
    · cases hl
  | given r =>
    rcases ha with ⟨err, _, prices, he⟩ | ⟨r', h1, ⟨b, rfl, hl, hr⟩, _⟩
    · cases he
    · refine ⟨b, ?_⟩
      rw [h1, accept]
      simp only [if_pos hl, Answer.sector, if_pos hr]

end

end Exchange

/-- that a contract is not known, only hosts that are `gone` answer -/
def Spares (n : Network σ) (c : Settings) (gone : HostKey → Prop) (origin : Wire σ) : Prop :=
  ∀ host root, Exchange.Meets n c gone origin ⟨host, root, false⟩ (.spares gone host)

/-- the host serves the sector whatever happens to the wire -/
def Serves (n : Network σ) (c : Settings) (gone : HostKey → Prop) (origin : Wire σ)
    (host : HostKey) (root : Hash256) : Prop :=
  Exchange.Meets n c gone origin ⟨host, root, false⟩ (.serves c root)

theorem Spares.mono {n : Network σ} {c : Settings} {gone : HostKey → Prop} {w w' : Wire σ}
    (hw : Wire.Evolves n gone w w') (h : Spares n c gone w) : Spares n c gone w' :=
  fun host root => (h host root).mono hw

/-- if any contract may be given up, then all hosts are spared -/
theorem spares_all (n : Network σ) (c : Settings) (origin : Wire σ) :
    Spares n c (fun _ => True) origin :=
  fun _ _ => ⟨fun _ _ _ => trivial, fun _ _ _ => trivial, fun _ _ _ _ => trivial⟩

namespace Run

/-- every sector in the cache is genuine -/
def Sound (c : Settings) (r : Run σ) : Prop :=
  ∀ root b, r.cache.get? root = some b → Genuine c r.wire root b

theorem sound_fresh (c : Settings) (net : σ) (progress : Option Progress) :
    (fresh net progress).Sound c := by
  intro root b h
  rw [fresh, Cache.get?_empty] at h
  cases h

/-- from one run to a later one: the wire evolves, and a sound run stays sound -/
structure Leads (n : Network σ) (c : Settings) (gone : HostKey → Prop) (r r' : Run σ) : Prop where
  wire : Wire.Evolves n gone r.wire r'.wire
  sound : r.Sound c → r'.Sound c

section
variable {n : Network σ} {c : Settings} {gone : HostKey → Prop} {r r' r'' : Run σ}

theorem Leads.refl : Leads n c gone r r := ⟨.refl, id⟩

theorem Leads.trans (h : Leads n c gone r r') (h' : Leads n c gone r' r'') : Leads n c gone r r'' :=
  ⟨h.wire.trans h'.wire, fun hr => h'.sound (h.sound hr)⟩

/-- a run with the same cache -/
theorem leads_of_cache (hw : Wire.Evolves n gone r.wire r'.wire) (hc : r'.cache = r.cache) :
    Leads n c gone r r' := by
  refine ⟨hw, fun hr root b h => ?_⟩
  rw [hc] at h
  exact (hr root b h).mono hw

/-- a genuine sector may be remembered -/
theorem leads_remember (root : Hash256) (b : Bytes) (hb : Genuine c r.wire root b) :
    Leads n c gone r (r.remember root b) := by
  refine ⟨.refl, fun hr root' b' h => ?_⟩
  rw [remember, Cache.get?_insert] at h
  split at h
  · next e =>
    rw [e]
    cases hc : r.cache.get? root with
    | none =>
      rw [hc] at h
      cases h
      exact hb
    | some b'' =>
      rw [hc] at h
      cases h
      exact hr root _ hc
  · exact hr root' b' h

theorem leads_notice (host : HostKey) (root : Hash256) (e : SectorError) :
    Leads n c gone r (r.notice host root e) :=
  leads_of_cache (.single (.note _ _)) rfl

theorem leads_prune {host : HostKey} (h : gone host) : Leads n c gone r (r.prune n host) :=
  leads_of_cache (.single (.prune _ _ h)) rfl

/-! ## one host -/

section
variable (n : Network σ) (c : Settings) (r : Run σ) {host : HostKey} {root : Hash256} {b : Bytes}
  {e : SectorError} {s : SectorRef} (rest : List SectorRef)

theorem fetch_cached (hc : r.cache.get? root = some b) :
    fetch n c host root r = (.ok b, { r with tally := r.tally.addHit }) := by
  rw [fetch, hc]

theorem fetch_ok (hc : r.cache.get? root = none) (hd : (download n c host root r.wire).1 = .ok b) :
    fetch n c host root r = (.ok b, Run.remember
      { r with wire := (download n c host root r.wire).2, tally := r.tally.addFetch } root b) := by
  rw [fetch, hc]
  simp only [hd]

theorem fetch_error (hc : r.cache.get? root = none)
    (hd : (download n c host root r.wire).1 = .error e) :
    fetch n c host root r = (.error e,
      { r with wire := (download n c host root r.wire).2, tally := r.tally.addFetch }) := by
  rw [fetch, hc]
  simp only [hd]

/-- whether a claimed copy is passed over: it is not at hand, and there is no contract -/
def passes (s : SectorRef) : Bool :=
  !r.cache.contains s.root && (n.contract? r.wire.net s.host).isNone

variable {n r} in
theorem passes_iff {s : SectorRef} : passes n r s = true
    ↔ r.cache.get? s.root = none ∧ n.contract? r.wire.net s.host = none := by
  rw [passes, Cache.contains, Bool.and_eq_true, Bool.not_eq_true', Option.isSome_eq_false_iff,
    Option.isNone_iff_eq_none, Option.isNone_iff_eq_none]

theorem fetchAny_pass (h : passes n r s = true) :
    fetchAny n c (s :: rest) r = fetchAny n c rest r := by
  rw [fetchAny]
  exact if_pos h

theorem fetchAny_ok (h : ¬passes n r s = true) (hf : (fetch n c s.host s.root r).1 = .ok b) :
    fetchAny n c (s :: rest) r = (some b, (fetch n c s.host s.root r).2) := by
  rw [fetchAny]
  refine (if_neg h).trans ?_
  simp only [hf]

/-- the run after a failed fetch -/
def blame (s : SectorRef) (e : SectorError) (r : Run σ) : Run σ :=
  if e = .contractMissing then prune n s.host (r.notice s.host s.root e)
  else r.notice s.host s.root e

theorem fetchAny_error (h : ¬passes n r s = true)
    (hf : (fetch n c s.host s.root r).1 = .error e) :
    fetchAny n c (s :: rest) r = fetchAny n c rest (blame n s e (fetch n c s.host s.root r).2) := by
  rw [fetchAny]
  refine (if_neg h).trans ?_
  simp only [hf]
  rfl

end

/-- a sector that is fetched is genuine, and only a host that is `gone` has no contract -/
theorem fetch_rule (hs : Spares n c gone r.wire) (host : HostKey) (root : Hash256) :
    Leads n c gone r (fetch n c host root r).2
      ∧ (∀ b, (fetch n c host root r).1 = .ok b → r.Sound c →
          Genuine c (fetch n c host root r).2.wire root b)
      ∧ ((fetch n c host root r).1 = .error .contractMissing → gone host) := by
  cases hc : r.cache.get? root with
  | some sector =>
    rw [fetch_cached n c r hc]
    refine ⟨leads_of_cache .refl rfl, fun b h hr => ?_, fun h => by cases h⟩
    cases h
    exact hr root sector hc
  | none =>
    have hw : Wire.Evolves n gone r.wire (download n c host root r.wire).2 :=
      download_evolves n c gone host root r.wire
    obtain ⟨a, hsec, ha⟩ := download_rule (hs host root) .refl
    cases hd : (download n c host root r.wire).1 with
    | error e =>
      rw [fetch_error n c r hc hd]
      refine ⟨leads_of_cache hw rfl, fun b h => (by cases h), fun h => ?_⟩
      cases h
      exact Exchange.gone_of_accords ha (hsec.symm.trans hd)
    | ok sector =>
      have hg := Exchange.genuine_of_accords ha (hsec.symm.trans hd)
      have hl : Leads n c gone r { r with
          wire := (download n c host root r.wire).2, tally := r.tally.addFetch } :=
        leads_of_cache hw rfl
      rw [fetch_ok n c r hc hd]
      refine ⟨hl.trans (leads_remember root sector hg), fun b h _ => ?_, fun h => by cases h⟩
      cases h
      exact hg

theorem leads_blame {s : SectorRef} {e : SectorError} (h : e = .contractMissing → gone s.host) :
    Leads n c gone r (blame n s e r) := by
  unfold blame
  split
  · next he => exact (leads_notice ..).trans (leads_prune (h he))
  · exact leads_notice ..

/-- a sector that is fetched from one of several claimed copies is genuine -/
theorem fetchAny_rule (hs : Spares n c gone r.wire) (refs : List SectorRef) :
    Leads n c gone r (fetchAny n c refs r).2
      ∧ ∀ b, (fetchAny n c refs r).1 = some b → r.Sound c →
          ∃ s ∈ refs, Genuine c (fetchAny n c refs r).2.wire s.root b := by
  induction refs generalizing r with
  | nil => exact ⟨.refl, fun b h => by cases h⟩
  | cons s rest ih =>
    have later : ∀ r', Leads n c gone r r' → Leads n c gone r (fetchAny n c rest r').2
        ∧ ∀ b, (fetchAny n c rest r').1 = some b → r.Sound c →
            ∃ s' ∈ s :: rest, Genuine c (fetchAny n c rest r').2.wire s'.root b := by
      intro r' hl
      obtain ⟨h1, h2⟩ := ih (hs.mono hl.wire)
      refine ⟨hl.trans h1, fun b h hr => ?_⟩
      obtain ⟨s', hs', hg⟩ := h2 b h (hl.sound hr)
      exact ⟨s', List.mem_cons_of_mem _ hs', hg⟩
    by_cases hp : passes n r s = true
    · rw [fetchAny_pass n c r rest hp]
      exact later r .refl
    · obtain ⟨h1, h2, h3⟩ := fetch_rule hs s.host s.root
      cases hf : (fetch n c s.host s.root r).1 with
      | ok sector =>
        rw [fetchAny_ok n c r rest hp hf]
        refine ⟨h1, fun b h hr => ⟨s, List.mem_cons_self, ?_⟩⟩
        cases h
        exact h2 sector hf hr
      | error e =>
        rw [fetchAny_error n c r rest hp hf]
        refine later _ (h1.trans (leads_blame fun he => ?_))
        rw [he] at hf
        exact h3 hf

end

end Run

end Reclaim

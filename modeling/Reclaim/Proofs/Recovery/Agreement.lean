import Reclaim.Proofs.Health.Survey
import Reclaim.Proofs.Recovery.Abreast
import Reclaim.Proofs.Recovery.Available

/-!
# The order of events does not show

Two recoveries of a file from hosts that always answer the same.  They may ask different numbers of
hosts at a time, and the requests of a race may end in different orders; then other hosts lose their
contracts, and others are asked in vain.  But the same sectors come to hand, one after the other.

* `Run.Gets`       how a sector is got from such hosts: it is at hand, or it is served and comes to
                   hand, or nobody serves it;
* `claim_gets`, `race_gets`   trying a claimed copy, and searching all hosts;
* `Run.Agree`      the same result, with the same sectors at hand; `abreast_agree` it stays so;
* `recover_any_order`   both recoveries come to the same and write the same.
-/

namespace Reclaim

variable {σ : Type}

namespace Run

/-! ## one recovery -/

/-- how a sector is got that is served if `P` holds -/
inductive Gets (n : Network σ) (c : Settings) (net : σ) (root : Hash256) (P : Prop) (r : Run σ) :
    Option Bytes × Run σ → Prop
  | cached (b : Bytes) (r' : Run σ) (old : r.cache.get? root = some b) (hc : r'.cache = r.cache) :
      Gets n c net root P r (some b, r')
  | served (b : Bytes) (r' : Run σ) (new : r.cache.get? root = none) (hp : P)
      (ha : n.Accepted c net root b) (hc : r'.cache = r.cache.insert root b) :
      Gets n c net root P r (some b, r')
  | missed (r' : Run σ) (new : r.cache.get? root = none) (hp : ¬P) (hc : r'.cache = r.cache) :
      Gets n c net root P r (none, r')

section
variable {n : Network σ} {c : Settings} {net : σ} {tells : HostKey → Hash256 → Verdict} {r : Run σ}

theorem cache_blame (s : SectorRef) (e : SectorError) (r : Run σ) :
    (blame n s e r).cache = r.cache := by
  unfold blame
  split <;> rfl

/-- a claimed copy is got if the host that is said to keep it serves it -/
theorem claim_gets (h : n.Static c net tells) (hl : r.Led n net tells) (s : SectorRef) :
    Gets n c net s.root (s.host ∈ n.hosts net ∧ tells s.host s.root = .serves) r
      (fetchAny n c [s] r) := by
  have hfound := (claim_led h hl s).2
  by_cases hp : passes n r s = true
  · rw [fetchAny_pass n c r [] hp] at hfound ⊢
    refine .missed r (passes_iff.1 hp).1 (fun hs => ?_) rfl
    obtain ⟨b, hb⟩ := hfound hs
    cases hb
  · cases hcache : r.cache.get? s.root with
    | some b =>
      have hf : fetch n c s.host s.root r = _ := fetch_cached n c r hcache
      rw [fetchAny_ok n c r [] hp (congrArg Prod.fst hf)]
      exact .cached b _ hcache (by rw [hf])
    | none =>
      have hcontract := (asked_of_not_passes hp).resolve_left fun ⟨b, hb⟩ => by
        rw [hcache] at hb
        cases hb
      cases hd : (download n c s.host s.root r.wire).1 with
      | error e =>
        have hf := fetch_error n c r hcache hd
        rw [fetchAny_error n c r [] hp (congrArg Prod.fst hf)] at hfound ⊢
        refine .missed _ hcache (fun hs => ?_) ((cache_blame s e _).trans (by rw [hf]))
        obtain ⟨b, hb⟩ := hfound hs
        cases hb
      | ok b =>
        have hf := fetch_ok n c r hcache hd
        rw [fetchAny_ok n c r [] hp (congrArg Prod.fst hf)]
        have hstatic := hl.static h
        refine .served b _ hcache ⟨hl.mem_hosts h ((hstatic.listed _ _ .refl).2 hcontract),
          (hstatic.download rfl hcontract s.root).1.1 ⟨b, hd⟩⟩ ?_ (by rw [hf]; rfl)
        exact (hstatic.accepted_download rfl hcontract hd).earlier
          (hl.reach.mono fun _ _ => trivial)

/-- a search gets a sector if it is available -/
theorem race_gets (h : n.Static c net tells) (hl : r.Led n net tells) (orders : Orders)
    (root : Hash256) :
    Gets n c net root (n.Available net tells root) r (race n c orders root r) := by
  have hfound := (race_led h hl orders root).2
  cases hc : r.cache.get? root with
  | some b =>
    rw [race_cached n c orders r hc]
    exact .cached b _ hc rfl
  | none =>
    by_cases hh : n.hosts r.wire.net = []
    · rw [race_nobody n c orders r hc hh] at hfound ⊢
      refine .missed r hc (fun ha => ?_) rfl
      obtain ⟨b, hb⟩ := hfound ha
      cases hb
    · have hquiet := (afterRace_quiet n (fun _ => True) r (raced n c orders root r).2).1
      cases hwin : (raced n c orders root r).2.winner with
      | none =>
        rw [race_lost n c orders r hc hh hwin] at hfound ⊢
        refine .missed _ hc (fun ha => ?_) hquiet
        obtain ⟨b, hb⟩ := hfound ha
        cases hb
      | some b =>
        obtain ⟨-, -, hwon, haccepted⟩ := raced_led (hl.static h) orders root
        obtain ⟨host, hhost, hs⟩ := hwon.1 ⟨b, hwin⟩
        rw [race_won n c orders r hc hh hwin]
        refine .served b _ hc ⟨host, hl.mem_hosts h hhost, hs⟩ ?_
          (congrArg (Cache.insert · root b) hquiet)
        exact (haccepted b hwin).earlier (hl.reach.mono fun _ _ => trivial)

end

/-! ## two recoveries -/

/-- the same result, with the same sectors at hand -/
def Agree {α : Type} (x x' : α × Run σ) : Prop := x.1 = x'.1 ∧ x.2.cache = x'.2.cache

theorem Gets.agree {n : Network σ} {c c' : Settings} {net : σ} {root : Hash256} {P : Prop}
    {r r' : Run σ} {x x' : Option Bytes × Run σ}
    (hone : ∀ b b', n.Accepted c net root b → n.Accepted c' net root b' → b = b')
    (hr : r.cache = r'.cache) (h : Gets n c net root P r x) (h' : Gets n c' net root P r' x') :
    Agree x x' := by
  cases h with
  | cached b s old hc =>
    rw [hr] at old hc
    cases h' with
    | cached b' s' old' hc' => exact ⟨old.symm.trans old', hc.trans hc'.symm⟩
    | served b' s' new' hp' ha' hc' =>
      rw [new'] at old
      cases old
    | missed s' new' hp' hc' =>
      rw [new'] at old
      cases old
  | served b s new hp ha hc =>
    rw [hr] at new hc
    cases h' with
    | cached b' s' old' hc' =>
      rw [new] at old'
      cases old'
    | served b' s' new' hp' ha' hc' =>
      obtain rfl := hone b b' ha ha'
      exact ⟨rfl, hc.trans hc'.symm⟩
    | missed s' new' hp' hc' => exact absurd hp hp'
  | missed s new hp hc =>
    rw [hr] at new hc
    cases h' with
    | cached b' s' old' hc' =>
      rw [new] at old'
      cases old'
    | served b' s' new' hp' ha' hc' => exact absurd hp' hp
    | missed s' new' hp' hc' => exact ⟨rfl, hc.trans hc'.symm⟩

end Run

namespace Recovery

open Run

section
variable {n : Network σ} {c c' : Settings} {net : σ} {tells : HostKey → Hash256 → Verdict}
  {r r' : Run σ} (h : n.Static c net tells) (h' : n.Static c' net tells)
  (hone : ∀ root b b', n.Accepted c net root b → n.Accepted c' net root b' → b = b')
  (orders orders' : Run.Orders) (t : Target) (chunk : Nat)
include h h' hone

theorem fetchAny_agree (refs : List SectorRef) (hl : r.Led n net tells) (hl' : r'.Led n net tells)
    (hr : r.cache = r'.cache) : Agree (fetchAny n c refs r) (fetchAny n c' refs r') := by
  induction refs generalizing r r' with
  | nil => exact ⟨rfl, hr⟩
  | cons s rest ih =>
    obtain ⟨he, hc⟩ := (claim_gets h hl s).agree (hone s.root) hr (claim_gets h' hl' s)
    rw [fetchAny_cons n c, fetchAny_cons n c', ← he]
    cases (fetchAny n c [s] r).1 with
    | some b => exact ⟨rfl, hc⟩
    | none => exact ih (claim_led h hl s).1 (claim_led h' hl' s).1 hc

theorem race_agree (root : Hash256) (hl : r.Led n net tells) (hl' : r'.Led n net tells)
    (hr : r.cache = r'.cache) : Agree (race n c orders root r) (race n c' orders' root r') :=
  (race_gets h hl orders root).agree (hone root) hr (race_gets h' hl' orders' root)

theorem abreast_agree : Abreast n c orders n c' orders' fun r r' =>
    r.Led n net tells ∧ r'.Led n net tells ∧ r.cache = r'.cache where
  claims := by
    rintro refs r r' ⟨hl, hl', hr⟩
    obtain ⟨he, hc⟩ := fetchAny_agree h h' hone refs hl hl' hr
    exact ⟨he, moves_led h hl (fetchAny_moves n c refs r),
      moves_led h' hl' (fetchAny_moves n c' refs r'), hc⟩
  searches := by
    rintro root r r' ⟨hl, hl', hr⟩
    obtain ⟨he, hc⟩ := race_agree h h' hone orders orders' root hl hl' hr
    exact ⟨he, (race_led h hl orders root).1, (race_led h' hl' orders' root).1, hc⟩
  chunks := by
    rintro t chunk r r' ⟨hl, hl', hr⟩
    exact ⟨hl.on .refl rfl, hl'.on .refl rfl, hr⟩

theorem recoverChunks_agree (ks : List Chunk) (written : UInt64) (sink : Sink)
    (hl : r.Led n net tells) (hl' : r'.Led n net tells) (hr : r.cache = r'.cache) :
    (recoverChunks n c orders t chunk written ks sink r).result
        = (recoverChunks n c' orders' t chunk written ks sink r').result
      ∧ (recoverChunks n c orders t chunk written ks sink r).sink
        = (recoverChunks n c' orders' t chunk written ks sink r').sink := by
  obtain ⟨hresult, hsink, -⟩ := recoverChunks_abreast (abreast_agree h h' hone orders orders') t
    chunk ks written sink ⟨hl, hl', hr⟩
  exact ⟨hresult, hsink⟩

end

theorem recover_agree {n : Network σ} {c c' : Settings} {net : σ}
    {tells : HostKey → Hash256 → Verdict} (h : n.Static c net tells) (h' : n.Static c' net tells)
    (hone : ∀ root b b', n.Accepted c net root b → n.Accepted c' net root b' → b = b')
    (d : Descriptor) (sink : Sink) (orders orders' : Run.Orders)
    (progress progress' : Option Progress) :
    (recover n c orders d sink (Run.fresh net progress)).gist
        = (recover n c' orders' d sink (Run.fresh net progress')).gist
      ∧ (recover n c orders d sink (Run.fresh net progress)).sink
        = (recover n c' orders' d sink (Run.fresh net progress')).sink := by
  rw [recover_eq, recover_eq]
  dsimp only [Run.fresh, Wire.fresh]
  cases prepare n d net with
  | error e => exact ⟨rfl, rfl⟩
  | ok t =>
    obtain ⟨hresult, hsink⟩ := recoverChunks_agree h h' hone orders orders' t 0 d.chunks 0 sink
      (Run.led_fresh n net tells progress) (Run.led_fresh n net tells progress') rfl
    dsimp only
    rw [sink_reported, sink_reported, gist_reported, gist_reported]
    exact ⟨congrArg _ hresult, hsink⟩

/-! ## how many hosts are asked at a time -/

section
variable {n : Network σ} {c : Settings} {net : σ} {tells : HostKey → Hash256 → Verdict}

theorem talks_workers (workers : Nat) {host : HostKey} {root : Hash256} {k : Talk} :
    n.Talks { c with workers := workers } net host root k ↔ n.Talks c net host root k :=
  ⟨fun ⟨s₁, s₂, s₃, cost, h₁, h₂, h₃, hcost⟩ => .mk s₁ s₂ s₃ cost h₁ h₂ h₃ hcost,
    fun ⟨s₁, s₂, s₃, cost, h₁, h₂, h₃, hcost⟩ => .mk s₁ s₂ s₃ cost h₁ h₂ h₃ hcost⟩

theorem ends_workers (workers : Nat) {k : Talk} {r : Except SessionError Bytes} :
    k.Ends { c with workers := workers } r ↔ k.Ends c r := by
  constructor
  · intro h
    cases h with
    | refused d e h l ht => exact .refused d e h l ht
    | unpriced d₁ d₂ e h₁ h₂ l₁ l₂ ht => exact .unpriced d₁ d₂ e h₁ h₂ l₁ l₂ ht
    | answered d₁ d₂ d₃ p _ h₁ h₂ h₃ l₁ l₂ l₃ ht => exact .answered d₁ d₂ d₃ p _ h₁ h₂ h₃ l₁ l₂ l₃ ht
  · intro h
    cases h with
    | refused d e h l ht => exact .refused d e h l ht
    | unpriced d₁ d₂ e h₁ h₂ l₁ l₂ ht => exact .unpriced d₁ d₂ e h₁ h₂ l₁ l₂ ht
    | answered d₁ d₂ d₃ p _ h₁ h₂ h₃ l₁ l₂ l₃ ht => exact .answered d₁ d₂ d₃ p _ h₁ h₂ h₃ l₁ l₂ l₃ ht

theorem static_workers (h : n.Static c net tells) (workers : Nat) :
    n.Static { c with workers := workers } net tells :=
  { h with
    talks := fun s host root k hr hc hk => by
      rcases h.talks s host root k hr hc ((talks_workers workers).1 hk) with ⟨r, he, hv⟩ | hs
      · exact .inl ⟨r, (ends_workers workers).2 he, hv⟩
      · exact .inr hs }

theorem accepted_of_workers {workers : Nat} {root : Hash256} {b : Bytes}
    (h : n.Accepted { c with workers := workers } net root b) : n.Accepted c net root b := by
  obtain ⟨s, host, k, hr, hc, hk, he, hv⟩ := h
  exact ⟨s, host, k, hr, hc, (talks_workers workers).1 hk, (ends_workers workers).1 he, hv⟩

end

/-- two recoveries of a file from hosts that always answer the same come to the same and write the
same, however many hosts are asked at a time and in whatever order the requests end -/
theorem recover_any_order (n : Network σ) (c : Settings) (net : σ)
    (tells : HostKey → Hash256 → Verdict) (h : n.Static c net tells)
    (hone : ∀ root b b', n.Accepted c net root b → n.Accepted c net root b' → b = b')
    (d : Descriptor) (sink : Sink) (workers workers' : Nat) (orders orders' : Run.Orders)
    (progress progress' : Option Progress) :
    (recover n { c with workers := workers } orders d sink (Run.fresh net progress)).gist
        = (recover n { c with workers := workers' } orders' d sink (Run.fresh net progress')).gist
      ∧ (recover n { c with workers := workers } orders d sink (Run.fresh net progress)).sink
        = (recover n { c with workers := workers' } orders' d sink
            (Run.fresh net progress')).sink := by
  have hone' : ∀ root b b', n.Accepted { c with workers := workers } net root b →
      n.Accepted { c with workers := workers' } net root b' → b = b' := fun root b b' hb hb' =>
    hone root b b' (accepted_of_workers hb) (accepted_of_workers hb')
  exact recover_agree (static_workers h workers) (static_workers h workers') hone' d sink orders
    orders' progress progress'

end Recovery

/-! ## a small case -/

namespace Memory

theorem read_of_accepted {c : Settings} {h : Hosts} {root : Hash256} {b : Bytes}
    (ha : network.Accepted c h root b) :
    ∃ host, (Memory.read host [Exchange.wholeSector c root] 0 h).1.result = .ok b := by
  obtain ⟨s, host, k, hr, -, hk, he, -⟩ := ha
  cases he with
  | answered d₁ d₂ d₃ prices r h₁ h₂ h₃ l₁ l₂ l₃ ht =>
    obtain ⟨s₁, s₂, s₃, cost, hs₁, hs₂, hs₃, -⟩ := hk
    have hreach : network.Reach (fun _ => True) h s₃ :=
      (Network.Reach.settings s₂ host ((Network.Reach.dial s₁ host (hr.trans hs₁.reach)).trans
        hs₂.reach)).trans hs₃.reach
    refine ⟨host, ?_⟩
    rw [← (alike_of_reach hreach).read host [Exchange.wholeSector c root] cost]
    exact congrArg Reply.result h₃

end Memory

namespace Health

theorem accepted_serverAndStale {root : Hash256} {b : Bytes}
    (h : Memory.network.Accepted byteSettings serverAndStale root b) : b = [7] := by
  obtain ⟨host, hb⟩ := Memory.read_of_accepted h
  have hbehavior : serverAndStale.behaviorOf host ≠ .corrupt := by
    show (List.lookup host [(HostKey.ofBytes [2], Memory.Behavior.contractMissing)]).getD .serve ≠ _
    rw [List.lookup_cons]
    cases host == HostKey.ofBytes [2] <;> exact fun h => by cases h
  have hserved : (Memory.served host [Exchange.wholeSector byteSettings root] id
      serverAndStale).result = .ok b := by
    unfold Memory.read at hb
    dsimp only at hb
    split at hb
    · cases hb
    · cases hb
    · cases hb
    · next hc => exact absurd hc hbehavior
    · exact hb
  have hstored : serverAndStale.sectors.getOr host [] = []
      ∨ serverAndStale.sectors.getOr host [] = [(sectorRoot [7], [7])] := by
    show (List.lookup host [(HostKey.ofBytes [1], [(sectorRoot [7], [7])])]).getD [] = []
      ∨ (List.lookup host [(HostKey.ofBytes [1], [(sectorRoot [7], [7])])]).getD [] = _
    rw [List.lookup_cons]
    cases host == HostKey.ofBytes [1]
    · exact .inl rfl
    · exact .inr rfl
  unfold Memory.served at hserved
  rcases hstored with he | he
  · rw [he] at hserved
    cases hserved
  · rw [he, Memory.payload, List.lookup_cons] at hserved
    dsimp only [Exchange.wholeSector] at hserved
    cases hroot : root == sectorRoot [7] with
    | false =>
      rw [hroot] at hserved
      cases hserved
    | true =>
      rw [hroot] at hserved
      cases hserved
      rfl

/-- whoever was asked last goes on first -/
def lastFirst : Run.Orders := fun _ _ times => times.length - 1

/-- recovering the byte, which a third host is said to keep, from these two -/
def recoverBySearch (workers : Nat) (orders : Run.Orders) :
    Recovery.Outcome Memory.Hosts RecoveryReport :=
  Recovery.recover Memory.network { byteSettings with workers := workers } orders
    (fileOfByte [⟨sectorRoot [7], HostKey.ofBytes [3]⟩]) (Sink.ofLimit none)
    (Run.fresh serverAndStale none)

theorem recover_any_order_stale :
    (∀ root b b', Memory.network.Accepted byteSettings serverAndStale root b →
        Memory.network.Accepted byteSettings serverAndStale root b' → b = b')
      ∧ (recoverBySearch 1 Run.Orders.byTime).gist = (recoverBySearch 2 lastFirst).gist
      ∧ (recoverBySearch 1 Run.Orders.byTime).sink = (recoverBySearch 2 lastFirst).sink := by
  have hone : ∀ root b b', Memory.network.Accepted byteSettings serverAndStale root b →
      Memory.network.Accepted byteSettings serverAndStale root b' → b = b' :=
    fun root b b' hb hb' => (accepted_serverAndStale hb).trans (accepted_serverAndStale hb').symm
  exact ⟨hone, Recovery.recover_any_order Memory.network byteSettings serverAndStale _
    (Memory.static byteSettings serverAndStale) hone _ _ 1 2 Run.Orders.byTime lastFirst none none⟩

end Health

end Reclaim

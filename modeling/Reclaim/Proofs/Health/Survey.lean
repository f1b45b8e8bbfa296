import Mathlib.Data.List.Nodup
import Mathlib.Data.List.ProdSigma
import Mathlib.Data.Prod.Basic
import Reclaim.Health
import Reclaim.Proofs.Descriptor.Image
import Reclaim.Proofs.Host.Memory
import Reclaim.Proofs.Pool.Ledger

/-!
# What the survey of a file finds

With hosts that always answer the same, the report on a file does not depend on the order in which
the checks are done, nor on how many are done at a time.

* `HostKey.sort_increasing`   sorting distinct keys;
* `Noted`, `check_booked`     the state of a survey in terms of the checks that are settled;
* `contract_pruneAll`         the contracts that are left when all checks are over;
* `FileHealth.Describes`      a report that lists exactly the hosts that serve each sector;
* `report_exact`              the survey of a file makes such a report;
* `check_reach`               it only asks hosts and gives up contracts.
-/

namespace Reclaim

variable {σ : Type}

/-! ## sorted keys -/

namespace HostKey

theorem sort_perm (ks : List HostKey) : (sort ks).Perm ks := List.mergeSort_perm ks _

theorem mem_sort {k : HostKey} {ks : List HostKey} : k ∈ sort ks ↔ k ∈ ks :=
  (sort_perm ks).mem_iff

theorem sort_pairwise (ks : List HostKey) : (sort ks).Pairwise (· ≤ ·) := by
  have htrans : ∀ a b c : HostKey, decide (a ≤ b) = true → decide (b ≤ c) = true →
      decide (a ≤ c) = true := by
    intro a b c hab hbc
    have hab : a.bytes ≤ b.bytes := of_decide_eq_true hab
    exact decide_eq_true (List.le_trans hab (of_decide_eq_true hbc))
  have htotal : ∀ a b : HostKey, (decide (a ≤ b) || decide (b ≤ a)) = true := by
    intro a b
    rw [Bool.or_eq_true, decide_eq_true_iff, decide_eq_true_iff]
    exact List.le_total a.bytes b.bytes
  exact (List.pairwise_mergeSort htrans htotal ks).imp fun hab => of_decide_eq_true hab

theorem sort_increasing {ks : List HostKey} (h : ks.Nodup) : (sort ks).Pairwise (· < ·) := by
  refine (sort_pairwise ks).imp₂ (fun a b hle hne => ?_) ((sort_perm ks).nodup_iff.2 h)
  by_contra hlt
  have hle : a.bytes ≤ b.bytes := hle
  exact hne (HostKey.ext (List.le_antisymm hle hlt))

end HostKey

namespace Health

/-! ## one check after the other -/

section
variable (n : Network σ) (c : Settings) (net : σ) (tells : HostKey → Hash256 → Verdict)

/-- what a survey has written down when the checks `l` are settled, the latest first -/
structure Noted (l : List (HostKey × Hash256)) (s : Survey σ) : Prop where
  asked : n.Asked net s.wire.net
  held : s.held = (l.filter fun i => tells i.1 i.2 = .serves).map Prod.swap
  stale : ∀ host, host ∈ s.stale ↔ ∃ root, (host, root) ∈ l ∧ tells host root = .denies

/-- a check that is under way, one that was left out since the host is known to have no record of
the contract, or one that came to what the host says -/
def Pending (i : HostKey × Hash256) (s : Survey σ) : Burst Exchange.Task Finding → Prop
  | .wait ms t => Exchange.Underway n c net ⟨i.1, i.2, true⟩ s.wire (.wait ms t)
  | .done f => (f = ⟨i.1, i.2, none⟩ ∧ tells i.1 i.2 = .denies ∧ i.1 ∈ s.stale)
      ∨ ∃ a : Answer, f = ⟨i.1, i.2, some (a.serves i.2)⟩ ∧ a.verdict i.2 = tells i.1 i.2

end

section
variable {n : Network σ} {c : Settings} {net : σ} {tells : HostKey → Hash256 → Verdict}
  {s s' : Survey σ} {i : HostKey × Hash256} {l : List (HostKey × Hash256)}

theorem Pending.evolve {w : Wire σ} (hw : n.Asked s.wire.net w.net)
    {b : Burst Exchange.Task Finding} (h : Pending n c net tells i s b) :
    Pending n c net tells i { s with wire := w } b := by
  cases b with
  | wait ms t =>
    have h : Exchange.Underway n c net ⟨i.1, i.2, true⟩ s.wire (.wait ms t) := h
    exact h.mono hw
  | done f => exact h

theorem Pending.mono (hw : s'.wire = s.wire) (hs : ∀ host ∈ s.stale, host ∈ s'.stale)
    {b : Burst Exchange.Task Finding} (h : Pending n c net tells i s b) :
    Pending n c net tells i s' b := by
  cases b with
  | wait ms t =>
    have h : Exchange.Underway n c net ⟨i.1, i.2, true⟩ s.wire (.wait ms t) := h
    rw [← hw] at h
    exact h
  | done f => exact h.imp (fun ⟨h1, h2, h3⟩ => ⟨h1, h2, hs _ h3⟩) id

theorem Noted.evolve {w : Wire σ} (h : Noted n net tells l s) (hw : n.Asked s.wire.net w.net) :
    Noted n net tells l { s with wire := w } :=
  ⟨h.asked.trans hw, h.held, h.stale⟩

theorem deliver_goes_on (f : Finding) (s : Survey σ) : (deliver f s).1 = false := by
  unfold deliver
  split <;> rfl

theorem deliver_other {f : Finding} (h1 : f.result ≠ some (.ok true))
    (h2 : f.result ≠ some (.error .contractMissing)) : (deliver f s).2 = s := by
  unfold deliver
  split
  · next h => exact absurd h h1
  · next h => exact absurd h h2
  · rfl

theorem denied_cons (host : HostKey) :
    (∃ root, (host, root) ∈ i :: l ∧ tells host root = .denies)
      ↔ (host = i.1 ∧ tells i.1 i.2 = .denies)
        ∨ ∃ root, (host, root) ∈ l ∧ tells host root = .denies := by
  constructor
  · rintro ⟨root, hm, ht⟩
    rcases List.mem_cons.1 hm with rfl | hm
    · exact .inl ⟨rfl, ht⟩
    · exact .inr ⟨root, hm, ht⟩
  · rintro (⟨rfl, ht⟩ | ⟨root, hm, ht⟩)
    · exact ⟨i.2, List.mem_cons_self, ht⟩
    · exact ⟨root, List.mem_cons_of_mem _ hm, ht⟩

theorem Noted.pass (h : Noted n net tells l s) (hs : tells i.1 i.2 ≠ .serves)
    (hd : tells i.1 i.2 = .denies → i.1 ∈ s.stale) : Noted n net tells (i :: l) s := by
  refine ⟨h.asked, ?_, fun host => ?_⟩
  · rw [List.filter_cons_of_neg (by simpa using hs), h.held]
  · rw [denied_cons, ← h.stale]
    exact ⟨.inr, fun h' => h'.elim (fun ⟨he, ht⟩ => he ▸ hd ht) id⟩

/-- a finding that says what the host says is written down -/
theorem Noted.deliver (h : Noted n net tells l s) {a : Answer}
    (ha : a.verdict i.2 = tells i.1 i.2) :
    Noted n net tells (i :: l) (deliver ⟨i.1, i.2, some (a.serves i.2)⟩ s).2
      ∧ (Health.deliver ⟨i.1, i.2, some (a.serves i.2)⟩ s).2.wire = s.wire
      ∧ ∀ host ∈ s.stale, host ∈ (Health.deliver ⟨i.1, i.2, some (a.serves i.2)⟩ s).2.stale := by
  obtain ⟨hserves, hdenies⟩ := Answer.serves_eq i.2 a
  rw [ha] at hserves hdenies
  cases ht : tells i.1 i.2 with
  | serves =>
    rw [hserves.2 ht]
    refine ⟨⟨h.asked, ?_, fun host => ?_⟩, rfl, fun _ hm => hm⟩
    · rw [List.filter_cons_of_pos (by simpa using ht), List.map_cons, ← h.held]
      rfl
    · rw [denied_cons, ht]
      exact (h.stale host).trans ⟨.inr, fun h' => h'.resolve_left fun h' => by cases h'.2⟩
  | denies =>
    rw [hdenies.2 ht]
    have hmem : ∀ host, host ∈ (if s.stale.contains i.1 then s.stale else s.stale ++ [i.1])
        ↔ host = i.1 ∨ host ∈ s.stale := by
      intro host
      split
      · next hc => exact ⟨.inr, fun h' => h'.elim (fun he => he ▸ List.contains_iff_mem.1 hc) id⟩
      · rw [List.mem_append, List.mem_singleton, or_comm]
    refine ⟨⟨h.asked, ?_, fun host => ?_⟩, rfl, fun host hm => (hmem host).2 (.inr hm)⟩
    · rw [List.filter_cons_of_neg (by rw [ht]; decide), ← h.held]
      rfl
    · rw [denied_cons, ← h.stale]
      exact (hmem host).trans (or_congr ⟨fun he => ⟨he, ht⟩, fun he => he.1⟩ Iff.rfl)
  | nothing =>
    have hsame : (Health.deliver ⟨i.1, i.2, some (a.serves i.2)⟩ s).2 = s := by
      refine deliver_other (fun he => ?_) fun he => ?_
      · rw [hserves.1 (Option.some.inj he)] at ht
        cases ht
      · rw [hdenies.1 (Option.some.inj he)] at ht
        cases ht
    rw [hsame]
    exact ⟨h.pass (by rw [ht]; decide) (fun hd => by rw [ht] at hd; cases hd), rfl, fun _ hm => hm⟩

/-- a burst of an exchange as part of a survey: the host and the sector go with the result -/
def told (i : HostKey × Hash256) : Burst Exchange.Task Answer → Burst Exchange.Task Finding
  | .done a => .done ⟨i.1, i.2, some (a.serves i.2)⟩
  | .wait ms next => .wait ms next

section
variable (n c i s)

/-- whether a check is left out -/
def leftOut : Bool := s.stale.contains i.1 || (n.contract? s.wire.net i.1).isNone

theorem start_left_out (h : leftOut n s i = true) :
    (work n c).start i s = (.done ⟨i.1, i.2, none⟩, s) := if_pos h

theorem start_eq (h : ¬leftOut n s i = true) :
    (work n c).start i s = (told i (Exchange.start n c ⟨i.1, i.2, true⟩ s.wire).1,
      { s with wire := (Exchange.start n c ⟨i.1, i.2, true⟩ s.wire).2 }) := by
  refine (if_neg h).trans (Prod.ext ?_ rfl)
  show _ = told i (Exchange.start n c ⟨i.1, i.2, true⟩ s.wire).1
  cases hb : (Exchange.start n c ⟨i.1, i.2, true⟩ s.wire).1 <;> simp only [Exchange.work, hb, told]

theorem resume_eq (t : Exchange.Task) :
    (work n c).resume t s = (told (t.goal.host, t.goal.root) (Exchange.resume n c t s.wire).1,
      { s with wire := (Exchange.resume n c t s.wire).2 }) := by
  refine Prod.ext ?_ rfl
  show _ = told _ (Exchange.resume n c t s.wire).1
  cases hb : (Exchange.resume n c t s.wire).1 <;> simp only [work, Exchange.work, hb, told]

end

theorem pending_told (h : n.Static c net tells) (hc : (n.contract? net i.1).isSome = true)
    {b : Burst Exchange.Task Answer} (hb : Exchange.Underway n c net ⟨i.1, i.2, true⟩ s.wire b) :
    Pending n c net tells i s (told i b) := by
  cases b with
  | wait ms t => exact hb
  | done a => exact .inr ⟨a, rfl, h.verdict hc hb⟩

theorem start_keeps (h : n.Static c net tells) (hi : (n.contract? net i.1).isSome = true)
    (hn : Noted n net tells l s) :
    Noted n net tells l ((work n c).start i s).2
      ∧ Pending n c net tells i ((work n c).start i s).2 ((work n c).start i s).1
      ∧ ∀ j b, Pending n c net tells j s b →
          Pending n c net tells j ((work n c).start i s).2 b := by
  by_cases hs : leftOut n s i = true
  · rw [start_left_out n c s i hs]
    have hcontract := (h.asked net _ i.1 .refl hn.asked).2 hi
    have hstale : i.1 ∈ s.stale := by
      rcases Bool.or_eq_true_iff.1 hs with hs | hs
      · exact List.contains_iff_mem.1 hs
      · rw [Option.isNone_iff_eq_none.1 hs] at hcontract
        cases hcontract
    obtain ⟨root, -, hd⟩ := (hn.stale i.1).1 hstale
    exact ⟨hn, .inl ⟨rfl, h.denies _ _ _ hd, hstale⟩, fun _ _ hb => hb⟩
  · rw [start_eq n c s i hs]
    have hasked := Exchange.start_asked (n := n) (c := c) ⟨i.1, i.2, true⟩ s.wire
    exact ⟨hn.evolve hasked, pending_told h hi (Exchange.start_underway hn.asked),
      fun _ _ hb => hb.evolve hasked⟩

theorem resume_keeps (h : n.Static c net tells) (hi : (n.contract? net i.1).isSome = true)
    (hn : Noted n net tells l s) {ms : Nat} {t : Exchange.Task}
    (hb : Pending n c net tells i s (.wait ms t)) :
    Noted n net tells l ((work n c).resume t s).2
      ∧ Pending n c net tells i ((work n c).resume t s).2 ((work n c).resume t s).1
      ∧ ∀ j b, Pending n c net tells j s b →
          Pending n c net tells j ((work n c).resume t s).2 b := by
  have hb : Exchange.Underway n c net ⟨i.1, i.2, true⟩ s.wire (.wait ms t) := hb
  have hasked := Exchange.resume_asked (n := n) (c := c) s.wire t
  have hitem : (t.goal.host, t.goal.root) = i := by rw [show t.goal = ⟨i.1, i.2, true⟩ from hb.1]
  rw [resume_eq, hitem]
  exact ⟨hn.evolve hasked, pending_told h hi (Exchange.resume_underway hb),
    fun _ _ hj => hj.evolve hasked⟩

/-- checks keep the books -/
theorem check_booked (h : n.Static c net tells) (schedule : Schedule) :
    Pool.Booked (plan n c schedule) (fun i => (n.contract? net i.1).isSome = true)
      (Noted n net tells) (Pending n c net tells) where
  start _ _ _ hi hn := start_keeps h hi hn
  resume _ _ _ _ _ hi hn hb := resume_keeps h hi hn hb
  deliver i f l s _ hn hb _ := by
    rcases hb with ⟨rfl, hd, hstale⟩ | ⟨a, rfl, ha⟩
    · exact ⟨hn.pass (by rw [hd]; decide) fun _ => hstale, fun _ _ hb => hb⟩
    · obtain ⟨h1, h2, h3⟩ := hn.deliver ha
      exact ⟨h1, fun _ _ hj => hj.mono h2 h3⟩

theorem survey_noted (h : n.Static c net tells) (schedule : Schedule)
    (items : List (HostKey × Hash256)) (hi : ∀ i ∈ items, (n.contract? net i.1).isSome = true)
    {w : Wire σ} (hw : w.net = net) :
    ∃ settled, settled.Perm items
      ∧ Noted n net tells settled (Pool.run (plan n c schedule) false items ⟨w, [], []⟩).2 := by
  have hzero : Noted n net tells [] (⟨w, [], []⟩ : Survey σ) := by
    refine ⟨?_, rfl, fun host => ⟨fun hm => absurd hm List.not_mem_nil, fun ⟨_, hm, _⟩ => ?_⟩⟩
    · show n.Asked net w.net
      rw [hw]
      exact .refl
    · exact absurd hm List.not_mem_nil
  obtain ⟨hfull, hcut⟩ := Pool.run_books (check_booked h schedule) items hi _ hzero
  refine hfull (Bool.eq_false_iff.2 fun hstop => ?_)
  obtain ⟨_, _, f, s', _, _, _, hd, _⟩ := hcut hstop
  rw [show ((plan n c schedule).deliver f s').1 = false from deliver_goes_on f s'] at hd
  cases hd

end

end Health

/-! ## contracts given up -/

/-- giving up a contract always works -/
def Network.Forgets (n : Network σ) (net : σ) : Prop :=
  ∀ s host, n.Reach (fun _ => True) net s → (n.contract? s host).isSome = true →
    (n.removeContract host s).1 = true

theorem Network.reach_pruneAll (n : Network σ) (hosts : List HostKey) (w : Wire σ) :
    n.Reach (fun _ => True) w.net (hosts.foldl (fun w host => (w.prune n host).2) w).net := by
  induction hosts generalizing w with
  | nil => exact .refl
  | cons host rest ih => exact (n.reach_prune host w).trans (ih _)

/-- who loses the contract when several are given up -/
theorem Network.Static.contract_pruneAll {n : Network σ} {c : Settings}
    {tells : HostKey → Hash256 → Verdict} {w : Wire σ} (h : n.Static c w.net tells)
    (hf : n.Forgets w.net) (hosts : List HostKey) (k : HostKey) :
    (n.contract? (hosts.foldl (fun w host => (w.prune n host).2) w).net k).isSome = true
      ↔ (n.contract? w.net k).isSome = true ∧ k ∉ hosts := by
  induction hosts generalizing w with
  | nil => exact ⟨fun hk => ⟨hk, List.not_mem_nil⟩, fun hk => hk.1⟩
  | cons host rest ih =>
    have hr := n.reach_prune host w
    rw [List.foldl_cons, ih (h.later hr) fun s k hs => hf s k (hr.trans hs), List.mem_cons, not_or]
    by_cases hk : k = host
    · subst hk
      exact ⟨fun h' => absurd h'.1 (h.no_contract_prune (hf w.net k .refl)),
        fun h' => absurd rfl h'.2.1⟩
    · rw [h.contract_prune host hk]
      exact ⟨fun h' => ⟨h'.1, hk, h'.2⟩, fun h' => ⟨h'.1, h'.2.2⟩⟩

/-! ## the report -/

/-- a report on a file that lists, for each claimed copy in order, exactly the hosts of which
`holds` is true, and that counts the pieces and tells of the file what follows from them -/
structure FileHealth.Describes (f : FileHealth) (d : Descriptor)
    (holds : Hash256 → HostKey → Prop) : Prop where
  entries : f.chunks.map (fun k => k.pieces.map (List.map PieceHealth.root))
    = d.chunks.map fun k => k.slots.map (List.map SectorRef.root)
  increasing : ∀ k ∈ f.chunks, ∀ slot ∈ k.pieces, ∀ p ∈ slot, p.hosts.Pairwise (· < ·)
  hosts : ∀ k ∈ f.chunks, ∀ slot ∈ k.pieces, ∀ p ∈ slot, ∀ host,
    host ∈ p.hosts ↔ holds p.root host
  minPieces : ∀ k ∈ f.chunks, k.minPieces = d.dataPieces.toNat
  available : ∀ k ∈ f.chunks,
    k.availablePieces = k.pieces.countP fun slot => slot.any fun p => !p.hosts.isEmpty
  recoverable : f.recoverable = true ↔
    ∀ k ∈ f.chunks, d.dataPieces.toNat ≤ k.availablePieces

namespace Health

section
variable {held : List (Hash256 × HostKey)} {root : Hash256} {host : HostKey}

theorem mem_holders : host ∈ holders held root ↔ (root, host) ∈ held := by
  rw [holders, HostKey.mem_sort, List.mem_map]
  constructor
  · rintro ⟨⟨r, k⟩, hm, rfl⟩
    obtain ⟨hm, hr⟩ := List.mem_filter.1 hm
    have hr : r = root := of_decide_eq_true hr
    rwa [← hr]
  · intro hm
    exact ⟨(root, host), List.mem_filter.2 ⟨hm, decide_eq_true rfl⟩, rfl⟩

theorem holders_increasing (h : held.Nodup) (root : Hash256) :
    (holders held root).Pairwise (· < ·) := by
  refine HostKey.sort_increasing (List.Nodup.map_on (fun a ha b hb e => ?_) (h.filter _))
  have ha : a.1 = root := of_decide_eq_true (List.mem_filter.1 ha).2
  have hb : b.1 = root := of_decide_eq_true (List.mem_filter.1 hb).2
  exact Prod.ext (ha.trans hb.symm) e

theorem mem_report {d : Descriptor} {k : ChunkHealth} {slot : List PieceHealth} {p : PieceHealth}
    (hk : k ∈ (report held d).chunks) (hs : slot ∈ k.pieces) (hp : p ∈ slot) :
    p.root ∈ d.distinctSectors ∧ p.hosts = holders held p.root := by
  obtain ⟨chunk, hchunk, rfl⟩ := List.mem_map.1 hk
  obtain ⟨refs, hrefs, rfl⟩ := List.mem_map.1 hs
  obtain ⟨s, hs, rfl⟩ := List.mem_map.1 hp
  refine ⟨(Descriptor.mem_firstSeen _ _).2 (List.mem_map.2 ⟨s, ?_, rfl⟩), rfl⟩
  exact List.mem_flatMap.2 ⟨chunk, hchunk, List.mem_flatten.2 ⟨refs, hrefs, hs⟩⟩

theorem report_describes (hn : held.Nodup) (d : Descriptor) {holds : Hash256 → HostKey → Prop}
    (hh : ∀ root ∈ d.distinctSectors, ∀ host, (root, host) ∈ held ↔ holds root host) :
    (report held d).Describes d holds where
  entries := by
    simp only [report, List.map_map]
    refine List.map_congr_left fun k _ => ?_
    simp only [Function.comp_apply, ofChunk, List.map_map]
    refine List.map_congr_left fun slot _ => ?_
    simp only [Function.comp_apply, List.map_map]
    rfl
  increasing k hk slot hs p hp := by
    rw [(mem_report hk hs hp).2]
    exact holders_increasing hn p.root
  hosts k hk slot hs p hp host := by
    obtain ⟨hroot, e⟩ := mem_report hk hs hp
    rw [e, mem_holders, hh p.root hroot]
  minPieces k hk := by
    obtain ⟨chunk, -, rfl⟩ := List.mem_map.1 hk
    rfl
  available k hk := by
    obtain ⟨chunk, -, rfl⟩ := List.mem_map.1 hk
    rfl
  recoverable := by
    refine List.all_eq_true.trans (forall₂_congr fun k hk => ?_)
    obtain ⟨chunk, -, rfl⟩ := List.mem_map.1 hk
    exact decide_eq_true_iff

end

/-! ## the whole survey -/

section
variable {n : Network σ} {c : Settings} {d : Descriptor} {tells : HostKey → Hash256 → Verdict}
  {w : Wire σ}

/-- all checks there are to be done -/
def checks (hosts : List HostKey) (sectors : List Hash256) : List (HostKey × Hash256) :=
  hosts.flatMap fun host => sectors.map fun root => (host, root)

theorem mem_checks {hosts : List HostKey} {sectors : List Hash256} {i : HostKey × Hash256} :
    i ∈ checks hosts sectors ↔ i.1 ∈ hosts ∧ i.2 ∈ sectors := List.mem_product

theorem nodup_checks {hosts : List HostKey} {sectors : List Hash256} (hh : hosts.Nodup)
    (hs : sectors.Nodup) : (checks hosts sectors).Nodup := hh.product hs

/-- the survey of a file makes a report of what the hosts say, and gives up the contracts of those
that deny it -/
theorem check_report (h : n.Static c w.net tells) (schedule : Schedule)
    (hv : d.validate = .ok ()) (hh : n.hosts w.net ≠ []) :
    ∃ s : Survey σ,
      check n c schedule d w
          = (.ok (report s.held d), s.stale.foldl (fun w host => (w.prune n host).2) s.wire)
        ∧ n.Asked w.net s.wire.net
        ∧ ((n.hosts w.net).Nodup → s.held.Nodup)
        ∧ (∀ root ∈ d.distinctSectors, ∀ host,
            (root, host) ∈ s.held ↔ host ∈ n.hosts w.net ∧ tells host root = .serves)
        ∧ ∀ host, host ∈ s.stale
            ↔ host ∈ n.hosts w.net ∧ ∃ root ∈ d.distinctSectors, tells host root = .denies := by
  have hitems : ∀ i ∈ checks (n.hosts w.net) d.distinctSectors,
      (n.contract? w.net i.1).isSome = true :=
    fun i hi => (h.listed w.net i.1 .refl).1 (mem_checks.1 hi).1
  obtain ⟨settled, hperm, hnoted⟩ := survey_noted h schedule _ hitems rfl
  have hmem : ∀ i, i ∈ settled ↔ i.1 ∈ n.hosts w.net ∧ i.2 ∈ d.distinctSectors :=
    fun i => hperm.mem_iff.trans mem_checks
  refine ⟨_, ?_, hnoted.asked, fun hn => ?_, fun root hroot host => ?_, fun host => ?_⟩
  · have he : ¬(n.hosts w.net).isEmpty = true := fun he => hh (List.isEmpty_iff.1 he)
    rw [check, hv]
    exact if_neg he
  · rw [hnoted.held]
    have hs := hperm.nodup_iff.2 (nodup_checks hn (Descriptor.nodup_firstSeen _))
    exact (hs.filter _).map Prod.swap_injective
  · rw [hnoted.held, List.mem_map]
    constructor
    · rintro ⟨i, hi, e⟩
      cases e
      obtain ⟨hi, ht⟩ := List.mem_filter.1 hi
      exact ⟨((hmem i).1 hi).1, of_decide_eq_true ht⟩
    · rintro ⟨hhost, ht⟩
      exact ⟨(host, root), List.mem_filter.2 ⟨(hmem _).2 ⟨hhost, hroot⟩, decide_eq_true ht⟩, rfl⟩
  · rw [hnoted.stale]
    constructor
    · rintro ⟨root, hm, ht⟩
      exact ⟨((hmem _).1 hm).1, root, ((hmem _).1 hm).2, ht⟩
    · rintro ⟨hhost, root, hroot, ht⟩
      exact ⟨root, (hmem _).2 ⟨hhost, hroot⟩, ht⟩

/-- the survey of a file lists exactly the hosts that serve each sector, whatever the schedule and
however many checks are done at a time; afterwards exactly those hosts have lost their contract
that have no record of it -/
theorem report_exact (n : Network σ) (c : Settings) (schedule : Schedule) (d : Descriptor)
    (w : Wire σ) (tells : HostKey → Hash256 → Verdict) (h : n.Static c w.net tells)
    (hv : d.validate = .ok ()) (hh : n.hosts w.net ≠ []) (hn : (n.hosts w.net).Nodup)
    (hf : n.Forgets w.net) :
    (∃ report, (check n c schedule d w).1 = .ok report
        ∧ report.Describes d fun root host =>
            host ∈ n.hosts w.net ∧ tells host root = .serves)
      ∧ (d.refs ≠ [] → ∀ host, host ∈ n.hosts (check n c schedule d w).2.net
          ↔ host ∈ n.hosts w.net ∧ ∀ root, tells host root ≠ .denies) := by
  obtain ⟨s, e, hasked, hnodup, hheld, hstale⟩ := check_report h schedule hv hh
  rw [e]
  refine ⟨⟨_, rfl, report_describes (hnodup hn) d hheld⟩, fun hrefs host => ?_⟩
  obtain ⟨ref, href⟩ := List.exists_mem_of_ne_nil _ hrefs
  have hroot : ref.root ∈ d.distinctSectors :=
    (Descriptor.mem_firstSeen _ _).2 (List.mem_map_of_mem href)
  have hreach : n.Reach (fun _ => True) w.net s.wire.net := hasked.reach
  have hlater := h.later hreach
  have hpruned := n.reach_pruneAll s.stale s.wire
  rw [(hlater.later hpruned).listed _ host .refl,
    hlater.contract_pruneAll (fun s' k hr => hf s' k (hreach.trans hr)), hstale,
    h.asked w.net _ host .refl hasked, ← h.listed w.net host .refl]
  refine and_congr_right fun hhost => ?_
  constructor
  · intro hnot root ht
    exact hnot ⟨hhost, ref.root, hroot, h.denies _ _ _ ht⟩
  · rintro hnot ⟨-, root, -, ht⟩
    exact hnot root ht

end

/-! ## what becomes of hosts -/

/-- whatever a check does to hosts, it does by requests and by giving up contracts -/
theorem check_reach (n : Network σ) (c : Settings) (schedule : Schedule)
    (d : Descriptor) (w : Wire σ) :
    n.Reach (fun _ => True) w.net (check n c schedule d w).2.net := by
  have hkeeps : (work n c).Keeps (fun _ => True)
      (fun s : Survey σ => n.Asked w.net s.wire.net) (fun _ _ => True) := by
    refine ⟨fun i s _ hs => ⟨?_, trivial, fun _ _ => trivial⟩,
      fun _ t s hs _ => ⟨?_, trivial, fun _ _ => trivial⟩⟩
    · by_cases hleft : leftOut n s i = true
      · rw [start_left_out n c s i hleft]
        exact hs
      · rw [start_eq n c s i hleft]
        exact hs.trans (Exchange.start_asked ⟨i.1, i.2, true⟩ s.wire)
    · rw [resume_eq]
      exact hs.trans (Exchange.resume_asked s.wire t)
  have hasked : ∀ items, n.Asked w.net
      (Pool.run (plan n c schedule) false items ⟨w, [], []⟩).2.wire.net := by
    intro items
    refine (Pool.run_keeps (p := plan n c schedule) hkeeps ?_ items (fun _ _ => trivial) _ .refl).1
    intro f s hs _
    refine ⟨?_, fun _ _ => trivial⟩
    show n.Asked w.net (deliver f s).2.wire.net
    unfold deliver
    split <;> exact hs
  unfold check
  split
  · exact .refl
  · dsimp only
    split
    · exact .refl
    · exact (hasked _).reach.trans (n.reach_pruneAll _ _)

/-! ## a small case -/

/-- a file of one byte that has one piece, which is not encrypted, with these claimed copies -/
def fileOfByte (refs : List SectorRef) : Descriptor where
  fileSize := 1
  pieceSize := 1
  encoderType := 1
  dataPieces := 1
  parityPieces := 0
  masterKey := []
  masterKeyType := CipherKind.plaintext.name
  skylinks := []
  chunks := [⟨[refs]⟩]

/-- settings for sectors of one byte -/
def byteSettings : Settings := { Settings.standard with sectorSize := 1 }

/-- a host that stores a byte, and one that knows no contract -/
def serverAndStale : Memory.Hosts :=
  (((Memory.Hosts.empty.addHost (HostKey.ofBytes [1])).addHost (HostKey.ofBytes [2])).putSector
    (HostKey.ofBytes [1]) (sectorRoot [7]) [7]).setBehavior (HostKey.ofBytes [2]) .contractMissing

theorem report_exact_stale :
    (∃ report, (check Memory.network byteSettings Schedule.byTime
          (fileOfByte [⟨sectorRoot [7], HostKey.ofBytes [1]⟩]) (Wire.fresh serverAndStale)).1
            = .ok report
        ∧ ∀ k ∈ report.chunks, ∀ slot ∈ k.pieces, ∀ p ∈ slot, HostKey.ofBytes [2] ∉ p.hosts)
      ∧ HostKey.ofBytes [2] ∉ Memory.network.hosts
          (check Memory.network byteSettings Schedule.byTime
            (fileOfByte [⟨sectorRoot [7], HostKey.ofBytes [1]⟩])
            (Wire.fresh serverAndStale)).2.net := by
  have hstale : ∀ root, Memory.tells byteSettings serverAndStale (HostKey.ofBytes [2]) root
      = .denies := fun root => rfl
  obtain ⟨⟨report, hreport, hd⟩, hafter⟩ := report_exact Memory.network byteSettings
    Schedule.byTime (fileOfByte [⟨sectorRoot [7], HostKey.ofBytes [1]⟩])
    (Wire.fresh serverAndStale) _ (Memory.static byteSettings serverAndStale) (by decide +kernel)
    (by decide) (by decide) fun _ _ _ _ => rfl
  refine ⟨⟨report, hreport, fun k hk slot hs p hp hm => ?_⟩, fun hm => ?_⟩
  · have ht := ((hd.hosts k hk slot hs p hp _).1 hm).2
    rw [hstale] at ht
    cases ht
  · exact ((hafter (List.cons_ne_nil _ _) _).1 hm).2 Hash256.zero (hstale _)

end Health

end Reclaim

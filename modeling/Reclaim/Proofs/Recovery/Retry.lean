import Mathlib.Data.Prod.Lex
import Mathlib.Order.WithBot
import Reclaim.Proofs.Health.Survey
import Reclaim.Proofs.Recovery.Available
import Reclaim.Proofs.Recovery.Integrity

/-!
# Trying again

Every sector that came to hand once is at hand when a file is tried again, whatever has become of
the hosts.  The claimed copies are tried in order, and other pieces may be taken than before; but
where a copy is at hand a piece is found.

* `standing`       how far a recovery came: to the chunk that lacked pieces, with so many of them;
* `ground`         how far the sectors at hand lead;
* `recoverChunks_standing`   a recovery comes as far as the sectors at hand lead before it, and no
                   farther than they lead after it;
* `Tries`          one file being tried again and again with the same run;
* `tries_never_lose_ground`   no try comes less far than one before.
-/

namespace Reclaim

variable {σ : Type}

/-! ## what is at hand -/

namespace Cache

/-- a piece with these claimed copies is at hand -/
def holds (k : Cache) (slot : List SectorRef) : Bool := slot.any fun s => k.contains s.root

/-- all that is at hand in the one is in the other -/
def Grows (k k' : Cache) : Prop := ∀ root b, k.get? root = some b → k'.get? root = some b

theorem holds_iff {k : Cache} {slot : List SectorRef} :
    k.holds slot = true ↔ ∃ s ∈ slot, ∃ b, k.get? s.root = some b := by
  simp only [holds, contains, List.any_eq_true, Option.isSome_iff_exists]

theorem Grows.holds {k k' : Cache} (h : k.Grows k') {slot : List SectorRef}
    (hs : k.holds slot = true) : k'.holds slot = true := by
  obtain ⟨s, hm, b, hb⟩ := holds_iff.1 hs
  exact holds_iff.2 ⟨s, hm, b, h _ _ hb⟩

/-- the number of pieces at hand -/
def count (k : Cache) (claims : List (List SectorRef)) : Nat := claims.countP k.holds

theorem Grows.count_le {k k' : Cache} (h : k.Grows k') (claims : List (List SectorRef)) :
    k.count claims ≤ k'.count claims := List.countP_mono_left fun _ _ => h.holds

end Cache

namespace Run

variable {n : Network σ} {c : Settings} {r r' : Run σ}

theorem later_grows (h : Later n c r r') : r.cache.Grows r'.cache := (later_keeps h).1

theorem fetchAny_holds {refs : List SectorRef} (h : r.cache.holds refs = true) :
    ∃ b, (fetchAny n c refs r).1 = some b := by
  induction refs generalizing r with
  | nil => cases h
  | cons s rest ih =>
    cases hs : r.cache.get? s.root with
    | some b =>
      have hp : ¬passes n r s = true := fun hp => by
        rw [(passes_iff.1 hp).1] at hs
        cases hs
      have hf : (fetch n c s.host s.root r).1 = .ok b := by rw [fetch_cached n c r hs]
      rw [fetchAny_ok n c r rest hp hf]
      exact ⟨b, rfl⟩
    | none =>
      rw [Recovery.fetchAny_cons]
      cases hf : (fetchAny n c [s] r).1 with
      | some b => exact ⟨b, rfl⟩
      | none =>
        refine ih ((later_grows (later_of_moves (.single (.claim r s)))).holds ?_)
        obtain ⟨s', hm, b, hb⟩ := Cache.holds_iff.1 h
        rcases List.mem_cons.1 hm with rfl | hm
        · rw [hs] at hb
          cases hb
        · exact Cache.holds_iff.2 ⟨s', hm, b, hb⟩

end Run

namespace Recovery

open Run

section
variable {n : Network σ} {c : Settings} {orders : Run.Orders} {t : Target} {chunk : Nat}
  {claims : List (List SectorRef)} {r : Run σ}

/-! ## one chunk -/

variable (n orders chunk) in
theorem count_le_gathered (hr : r.Sound c) (hlen : claims.length = t.descriptor.numPieces) :
    t.descriptor.minPieces ≤ (gathered n c orders t chunk claims r).1.found
      ∨ r.cache.count claims ≤ (gathered n c orders t chunk claims r).1.found := by
  obtain ⟨-, hsound, -⟩ := gathered_rule orders t chunk (spares_all n c r.wire) hr hlen
  have hfirst := tryClaims_finds t chunk (Collected.none t.descriptor.numPieces)
    (fun r' => r.cache.Grows r'.cache) (fun slot => r.cache.holds slot = true)
    (fun h => by cases h)
    (fun slot r' hw root b hb =>
      later_grows (later_of_moves (fetchAny_moves n c slot r')) _ _ (hw root b hb))
    (fun slot r' hw hs => fetchAny_holds (hw.holds hs)) (fun _ _ h => h) claims 0 rfl
  rcases hfirst with hfull | hfound
  · refine .inl ?_
    unfold gathered
    dsimp only
    rwa [if_neg (Nat.not_lt.2 hfull)]
  · refine .inr ?_
    rw [← hsound.count]
    refine countP_le_filled _ claims r.cache.holds (hsound.length.trans hlen.symm) fun i hi ho => ?_
    refine hfound i (Nat.zero_le i) hi ?_
    unfold gathered at ho
    dsimp only at ho
    split at ho
    · exact open_of_open_search ho
    · exact ho

variable (n orders chunk) in
theorem gathered_le_count (hr : r.Sound c) (hlen : claims.length = t.descriptor.numPieces) :
    (gathered n c orders t chunk claims r).1.found
      ≤ (gathered n c orders t chunk claims r).2.cache.count claims := by
  obtain ⟨-, hsound, -⟩ := gathered_rule orders t chunk (spares_all n c r.wire) hr hlen
  have hhand : (gathered n c orders t chunk claims r).1.AtHand t chunk claims
    (gathered n c orders t chunk claims r).2 := gathered_atHand orders
  rw [← hsound.count]
  refine filled_le_countP _ claims _ (hsound.length.trans hlen.symm) fun i b hb => ?_
  obtain ⟨s, hs, sector, hget, -⟩ := hhand i b hb
  exact Cache.holds_iff.2 ⟨s, hs, sector, hget⟩

/-! ## how far it goes -/

/-- the chunk that lacks pieces and how many of them there are, or beyond all chunks -/
abbrev Standing := WithTop (ℕ ×ₗ ℕ)

/-- chunk number `i` lacks pieces, there being `found` of them -/
def lacking (i found : Nat) : Standing := (toLex (i, found) : ℕ ×ₗ ℕ)

theorem lacking_le_lacking {i j found found' : Nat} :
    lacking i found ≤ lacking j found' ↔ i < j ∨ i = j ∧ found ≤ found' :=
  WithTop.coe_le_coe.trans Prod.Lex.toLex_le_toLex

/-- how far a recovery came, if it went through the chunks -/
def standing {α : Type} : Except RecoveryError α → Option Standing
  | .ok _ => some ⊤
  | .error (.unrecoverable i found _) => some (lacking i found)
  | .error _ => none

/-- how far the sectors at hand lead through the chunks from number `i` on -/
def ground (need : Nat) (k : Cache) (i : Nat) : List Chunk → Standing
  | [] => ⊤
  | chunk :: rest =>
    if need ≤ k.count chunk.slots then ground need k (i + 1) rest
    else lacking i (k.count chunk.slots)

section
variable {need i : Nat} {k k' : Cache} {ch : Chunk} {rest : List Chunk}

theorem ground_enough (h : need ≤ k.count ch.slots) :
    ground need k i (ch :: rest) = ground need k (i + 1) rest := if_pos h

theorem ground_lacking (h : k.count ch.slots < need) :
    ground need k i (ch :: rest) = lacking i (k.count ch.slots) := if_neg (Nat.not_le.2 h)

theorem lacking_le_ground (need : Nat) (k : Cache) {i j : Nat} (h : i < j) (found : Nat)
    (ks : List Chunk) : lacking i found ≤ ground need k j ks := by
  induction ks generalizing j with
  | nil => exact le_top
  | cons ch rest ih =>
    rcases Nat.lt_or_ge (k.count ch.slots) need with hfew | hmany
    · rw [ground_lacking hfew]
      exact lacking_le_lacking.2 (.inl h)
    · rw [ground_enough hmany]
      exact ih (Nat.lt_succ_of_lt h)

theorem lacking_le_ground_cons {found : Nat} (h : found ≤ k.count ch.slots) :
    lacking i found ≤ ground need k i (ch :: rest) := by
  rcases Nat.lt_or_ge (k.count ch.slots) need with hfew | hmany
  · rw [ground_lacking hfew]
    exact lacking_le_lacking.2 (.inr ⟨rfl, h⟩)
  · rw [ground_enough hmany]
    exact lacking_le_ground need k (Nat.lt_succ_self i) found rest

theorem ground_cons_le (need : Nat) (k : Cache) (i : Nat) (ch : Chunk) (rest : List Chunk) :
    ground need k i (ch :: rest) ≤ ground need k (i + 1) rest := by
  rcases Nat.lt_or_ge (k.count ch.slots) need with hfew | hmany
  · rw [ground_lacking hfew]
    exact lacking_le_ground need k (Nat.lt_succ_self i) _ rest
  · rw [ground_enough hmany]

theorem ground_mono (need i : Nat) (h : k.Grows k') (ks : List Chunk) :
    ground need k i ks ≤ ground need k' i ks := by
  induction ks generalizing i with
  | nil => exact le_rfl
  | cons ch rest ih =>
    have hle := h.count_le ch.slots
    rcases Nat.lt_or_ge (k.count ch.slots) need with hfew | hmany
    · rw [ground_lacking hfew]
      exact lacking_le_ground_cons hle
    · rw [ground_enough hmany, ground_enough (hmany.trans hle)]
      exact ih (i + 1)

end

/-- a chunk that ends a recovery had no more pieces at hand before than were found, and has no less
afterwards -/
theorem standing_of_short (hr : r.Sound c) {k : Chunk}
    (hk : k.slots.length = t.descriptor.numPieces) (rest : List Chunk)
    (hfew : (gathered n c orders t chunk k.slots r).1.found < t.descriptor.minPieces) :
    ground t.descriptor.minPieces r.cache chunk (k :: rest)
        ≤ lacking chunk (gathered n c orders t chunk k.slots r).1.found
      ∧ lacking chunk (gathered n c orders t chunk k.slots r).1.found
        ≤ ground t.descriptor.minPieces (gathered n c orders t chunk k.slots r).2.cache chunk
            (k :: rest) := by
  have hbefore := (count_le_gathered n orders chunk hr hk).resolve_left (Nat.not_le.2 hfew)
  refine ⟨?_, lacking_le_ground_cons (gathered_le_count n orders chunk hr hk)⟩
  rw [ground_lacking (hbefore.trans_lt hfew)]
  exact lacking_le_lacking.2 (.inr ⟨rfl, hbefore⟩)

/-- a recovery of chunks comes as far as the sectors at hand lead before it, and no farther than they
lead after it -/
theorem recoverChunks_standing (ht : t.Wellformed) (hsize : t.width ≤ c.sectorSize)
    (ks : List Chunk) (hlen : ∀ k ∈ ks, k.slots.length = t.descriptor.numPieces) (i : Nat)
    (written : UInt64) (sink : Sink) (hroom : sink.room = none) (r : Run σ) (hr : r.Sound c) :
    ∃ x, standing (recoverChunks n c orders t i written ks sink r).result = some x
      ∧ ground t.descriptor.minPieces r.cache i ks ≤ x
      ∧ x ≤ ground t.descriptor.minPieces
          (recoverChunks n c orders t i written ks sink r).run.cache i ks := by
  induction ks generalizing i written sink r with
  | nil => exact ⟨⊤, rfl, le_rfl, le_rfl⟩
  | cons k rest ih =>
    have hk := hlen k List.mem_cons_self
    cases hc : (collect n c orders t i k.slots r).1 with
    | error e =>
      rw [recoverChunks_stop n c orders t i written rest sink r hc, run_collect]
      obtain ⟨hfew, rfl⟩ := collect_eq_error_iff.1 hc
      exact ⟨_, rfl, standing_of_short hr hk rest hfew⟩
    | ok slots =>
      have hmoves := later_of_moves (collect_moves n c orders t i k.slots r)
      have hsound := later_sound hmoves hr
      obtain ⟨hd, hroom'⟩ := decode_collected ht hsize hr hk hc sink hroom
      rw [recoverChunks_go n c orders t i written rest sink r hc hd]
      obtain ⟨x, hx, hlow, hhigh⟩ := ih (fun k' h => hlen k' (List.mem_cons_of_mem _ h)) (i + 1)
        (written + UInt64.ofNat (t.descriptor.chunkLen i)) _ hroom'
        (chunkDone t i (collect n c orders t i k.slots r).2) hsound
      refine ⟨x, hx, ?_, ?_⟩
      · calc ground t.descriptor.minPieces r.cache i (k :: rest)
            ≤ ground t.descriptor.minPieces r.cache (i + 1) rest := ground_cons_le ..
          _ ≤ ground t.descriptor.minPieces (collect n c orders t i k.slots r).2.cache (i + 1)
                rest := ground_mono _ _ (later_grows hmoves) rest
          _ ≤ x := hlow
      · have hlater := later_grows (later_of_moves (recoverChunks_moves n c orders t (i + 1) rest
          (written + UInt64.ofNat (t.descriptor.chunkLen i))
          (t.coder.recover slots (t.descriptor.chunkLen i) sink).sink
          (chunkDone t i (collect n c orders t i k.slots r).2)))
        have hafter := gathered_le_count n orders i hr hk
        rw [← run_collect] at hafter
        obtain ⟨hmany, -⟩ := collect_eq_ok_iff.1 hc
        rw [ground_enough (hmany.trans (hafter.trans (hlater.count_le k.slots)))]
        exact hhigh

end

/-! ## one try after the other -/

theorem standing_reported (d : Descriptor) (o : Outcome σ UInt64) :
    standing (reported d o).result = standing o.result := by
  unfold reported
  cases o.result with
  | ok written => rfl
  | error e => cases e <;> rfl

/-- one try to recover a file: the hosts that were under contract when it began, and its result -/
structure Try where
  hosts : List HostKey
  result : Except RecoveryError RecoveryReport

/-- the file is tried again and again with the same run, every time writing to a sink without bounds,
whatever happens before and in between -/
inductive Tries (n : Network σ) (c : Settings) (d : Descriptor) : Run σ → List Try → Prop
  | nil (r : Run σ) : Tries n c d r []
  | cons {r r' : Run σ} (h : Later n c r r') (orders : Run.Orders) (sink : Sink)
      (hroom : sink.room = none) {rest : List Try}
      (ht : Tries n c d (recover n c orders d sink r').run rest) :
      Tries n c d r (⟨n.hosts r'.wire.net, (recover n c orders d sink r').result⟩ :: rest)

section
variable {n : Network σ} {c : Settings} {d : Descriptor} (hv : d.validate = .ok ())
  (hkey : ∃ key, d.key = .ok key) (hsize : d.pieceSize.toNat ≤ c.sectorSize)
  (haligned : d.encoderType = 2 → d.pieceSize.toNat % stripeWidth = 0)
include hv hkey hsize haligned

theorem recover_standing (orders : Run.Orders) (sink : Sink) (hroom : sink.room = none) (r : Run σ)
    (hr : r.Sound c) :
    (n.hosts r.wire.net = [] ∧ recover n c orders d sink r = ⟨.error .noHosts, sink, r⟩)
      ∨ (n.hosts r.wire.net ≠ [] ∧ ∃ x, standing (recover n c orders d sink r).result = some x
          ∧ ground d.minPieces r.cache 0 d.chunks ≤ x
          ∧ x ≤ ground d.minPieces (recover n c orders d sink r).run.cache 0 d.chunks) := by
  have hvalid := (Descriptor.validate_eq_ok_iff d).1 hv
  obtain ⟨coder, hcoder⟩ := hvalid.coder
  obtain ⟨key, hkey⟩ := hkey
  by_cases hh : n.hosts r.wire.net = []
  · refine .inl ⟨hh, ?_⟩
    unfold recover
    simp only [hv, hcoder, hkey, hh, List.isEmpty_nil, if_true]
  · refine .inr ⟨hh, ?_⟩
    rw [recover_go n c orders d sink r hv hcoder hkey hh, standing_reported, run_reported]
    exact recoverChunks_standing (wellformed_target hvalid hcoder haligned key) hsize d.chunks
      hvalid.slots 0 0 sink hroom r hr

theorem ground_le_tries {r : Run σ} {tries : List Try} (h : Tries n c d r tries) (hr : r.Sound c) :
    ∀ a ∈ tries, (a.hosts = [] ∧ a.result = .error .noHosts)
      ∨ (a.hosts ≠ [] ∧ ∃ x, standing a.result = some x
          ∧ ground d.minPieces r.cache 0 d.chunks ≤ x) := by
  induction h with
  | nil r => exact fun a ha => absurd ha List.not_mem_nil
  | @cons r r' hlater orders sink hroom rest _ ih =>
    have hr' := later_sound hlater hr
    have hmoves := later_of_moves (recover_moves n c orders d sink r')
    refine List.forall_mem_cons.2 ⟨?_, fun a ha => ?_⟩
    · rcases recover_standing hv hkey hsize haligned orders sink hroom r' hr' with
        ⟨hh, he⟩ | ⟨hh, x, hx, hlow, -⟩
      · exact .inl ⟨hh, by rw [he]⟩
      · exact .inr ⟨hh, x, hx, (ground_mono _ 0 (later_grows hlater) _).trans hlow⟩
    · refine (ih (later_sound hmoves hr') a ha).imp id fun ⟨hh, x, hx, hlow⟩ => ⟨hh, x, hx, ?_⟩
      exact (ground_mono _ 0 (later_grows (hlater.trans hmoves)) _).trans hlow

theorem tries_pairwise {r : Run σ} {tries : List Try} (h : Tries n c d r tries) (hr : r.Sound c) :
    tries.Pairwise fun a b => ∀ x, standing a.result = some x → b.hosts ≠ [] →
      ∃ y, standing b.result = some y ∧ x ≤ y := by
  induction h with
  | nil r => exact .nil
  | @cons r r' hlater orders sink hroom rest ht ih =>
    have hr' := later_sound hlater hr
    have hdone := later_sound (later_of_moves (recover_moves n c orders d sink r')) hr'
    refine .cons (fun b hb x hx hh => ?_) (ih hdone)
    rcases recover_standing hv hkey hsize haligned orders sink hroom r' hr' with
      ⟨-, he⟩ | ⟨-, x', hx', -, hhigh⟩
    · rw [he] at hx
      cases hx
    · obtain rfl : x' = x := Option.some.inj (hx'.symm.trans hx)
      obtain ⟨-, y, hy, hlow⟩ := (ground_le_tries hv hkey hsize haligned ht hdone b hb).resolve_left
        fun hnobody => hh hnobody.1
      exact ⟨y, hy, hhigh.trans hlow⟩

/-- however often a file is tried again, and whatever becomes of the hosts: a try finds nobody to ask,
or it lacks pieces of some chunk, or it succeeds; and leaving out those that find nobody, none comes
less far than one before.  After a success there are only successes, as long as there is somebody to
ask -/
theorem tries_never_lose_ground (net : σ) (progress : Option Progress) (tries : List Try)
    (h : Tries n c d (Run.fresh net progress) tries) :
    (∀ a ∈ tries, (a.hosts = [] ∧ a.result = .error .noHosts)
        ∨ (a.hosts ≠ [] ∧ (standing a.result).isSome))
      ∧ (tries.filterMap fun a => standing a.result).Pairwise (· ≤ ·)
      ∧ tries.Pairwise fun a b => (∃ report, a.result = .ok report) → b.hosts ≠ [] →
          ∃ report, b.result = .ok report := by
  have hr := Run.sound_fresh c net progress
  have hall := ground_le_tries hv hkey hsize haligned h hr
  have hpair := tries_pairwise hv hkey hsize haligned h hr
  refine ⟨fun a ha => ?_,
    List.pairwise_filterMap.2 (hpair.imp_of_mem fun {a b} _ hb hab x hx y hy => ?_),
    hpair.imp fun {a b} hab ⟨report, hok⟩ hh => ?_⟩
  · exact (hall a ha).imp id fun ⟨hh, x, hx, _⟩ => ⟨hh, Option.isSome_iff_exists.2 ⟨x, hx⟩⟩
  · rcases hall b hb with ⟨-, he⟩ | ⟨hh, -⟩
    · rw [he] at hy
      cases hy
    · obtain ⟨y', hy', hle⟩ := hab x hx hh
      obtain rfl : y' = y := Option.some.inj (hy'.symm.trans hy)
      exact hle
  · obtain ⟨y, hy, hle⟩ := hab ⊤ (by rw [hok]; rfl) hh
    obtain rfl : y = ⊤ := top_le_iff.1 hle
    unfold standing at hy
    split at hy
    · next report he => exact ⟨report, he⟩
    · cases hy
    · cases hy

end

/-! ## a small case -/

/-- a byte that a host is said to keep -/
def singleByte : Descriptor := Health.fileOfByte [⟨sectorRoot [7], HostKey.ofBytes [1]⟩]

/-- recovering it -/
def byteTried (r : Run Memory.Hosts) : Outcome Memory.Hosts RecoveryReport :=
  recover Memory.network Health.byteSettings Run.Orders.byTime singleByte (Sink.ofLimit none) r

def byteTry (r : Run Memory.Hosts) : Try := ⟨Memory.network.hosts r.wire.net, (byteTried r).result⟩

/-- the run in which it was recovered, the host having been replaced by one that stores nothing -/
def hostReplaced : Run Memory.Hosts :=
  let r := (byteTried (Run.fresh Memory.Hosts.single none)).run
  { r with wire := ⟨Memory.Hosts.empty.addHost (HostKey.ofBytes [2]), r.wire.trace⟩ }

/-- the byte is recovered once more -/
theorem tries_never_lose_ground_replaced :
    Tries Memory.network Health.byteSettings singleByte (Run.fresh Memory.Hosts.single none)
        [byteTry (Run.fresh Memory.Hosts.single none), byteTry hostReplaced]
      ∧ ∃ report, (byteTried hostReplaced).result = .ok report := by
  have hreplaced : Later Memory.network Health.byteSettings
      (byteTried (Run.fresh Memory.Hosts.single none)).run hostReplaced := .single (.meanwhile ..)
  have htries : Tries Memory.network Health.byteSettings singleByte
      (Run.fresh Memory.Hosts.single none)
      [byteTry (Run.fresh Memory.Hosts.single none), byteTry hostReplaced] :=
    .cons .refl Run.Orders.byTime (Sink.ofLimit none) rfl
      (.cons hreplaced Run.Orders.byTime (Sink.ofLimit none) rfl (.nil _))
  have hfirst : (byteTried (Run.fresh Memory.Hosts.single none)).result.toOption.isSome = true := by
    decide +kernel
  obtain ⟨-, -, hpair⟩ := tries_never_lose_ground (by decide +kernel) ⟨_, rfl⟩ (by decide)
    (by decide) Memory.Hosts.single none _ htries
  exact ⟨htries, (List.pairwise_cons.1 hpair).1 _ (List.mem_singleton.2 rfl)
    ⟨_, eq_ok_of_isSome hfirst⟩ (by decide)⟩

end Recovery

end Reclaim

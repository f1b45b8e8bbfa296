import Reclaim.Proofs.Erasure.Lengths
import Reclaim.Proofs.Recovery.Moments

/-!
# How much a recovery writes

Whatever the hosts do, a recovery writes whole chunks to a sink that does not fail: all of them, or
those before the one with which it came to an error.

* `Run.Within`      sessions are opened for certain sectors only, and no chunk is counted;
* `Through`         a number of chunks were written, and they are counted;
* `recoverChunks_through`   a recovery that succeeds is through with all chunks;
* `Broke`, `recoverChunks_broke`   a recovery that fails is through with the chunks before the one it
                    fails with, and does not look at those behind;
* `recover_length_exact`    how much is written, opened and counted, whatever the recovery comes to;
* `length_of_recover_ok`    what a recovery that succeeds has written, however much room there was.
-/

namespace Reclaim

variable {σ : Type}

/-- the chunks and the bytes that were counted -/
def Progress.done (g : Progress) : UInt64 × UInt64 := (g.chunks, g.bytes)

/-! ## moves that count no chunk -/

namespace Run

/-- sessions were opened for such sectors only, and no chunk was counted -/
structure Within (P : Hash256 → Prop) (r r' : Run σ) : Prop where
  opens : Wire.Opens P r.wire r'.wire
  done : r'.progress.map Progress.done = r.progress.map Progress.done

section
variable {n : Network σ} {c : Settings} {P Q : Hash256 → Prop} {r r' r'' : Run σ}

theorem Within.refl : Within P r r := ⟨.refl, rfl⟩

theorem Within.trans (h : Within P r r') (h' : Within P r' r'') : Within P r r'' :=
  ⟨h.opens.trans h'.opens, h'.done.trans h.done⟩

theorem Within.mono (h : Within P r r') (hPQ : ∀ root, P root → Q root) : Within Q r r' :=
  ⟨h.opens.mono hPQ, h.done⟩

theorem Within.remember (h : Within P r r') (root : Hash256) (b : Bytes) :
    Within P r (r'.remember root b) := by
  refine ⟨h.opens, ?_⟩
  rw [← h.done, Run.remember, Option.map_map]
  rfl

theorem fetch_within (n : Network σ) (c : Settings) (host : HostKey) (root : Hash256)
    (r : Run σ) : Within (· = root) r (fetch n c host root r).2 := by
  cases hc : r.cache.get? root with
  | some b =>
    rw [fetch_cached n c r hc]
    exact ⟨.refl, rfl⟩
  | none =>
    have hd : Within (· = root) r { r with
        wire := (download n c host root r.wire).2, tally := r.tally.addFetch } :=
      ⟨download_opens n c host root r.wire, rfl⟩
    cases hr : (download n c host root r.wire).1 with
    | error e =>
      rw [fetch_error n c r hc hr]
      exact hd
    | ok b =>
      rw [fetch_ok n c r hc hr]
      exact hd.remember root b

theorem blame_within (n : Network σ) (s : SectorRef) (e : SectorError) (r : Run σ) :
    Within P r (blame n s e r) := by
  unfold blame
  split
  · exact ⟨(Wire.opens_failed ..).trans (Wire.opens_prune n s.host), rfl⟩
  · exact ⟨Wire.opens_failed .., rfl⟩

theorem claim_within (n : Network σ) (c : Settings) (s : SectorRef) (r : Run σ) :
    Within (· = s.root) r (fetchAny n c [s] r).2 := by
  by_cases hp : passes n r s = true
  · rw [fetchAny_pass n c r [] hp]
    exact .refl
  · have hf := fetch_within n c s.host s.root r
    cases hr : (fetch n c s.host s.root r).1 with
    | ok b =>
      rw [fetchAny_ok n c r [] hp hr]
      exact hf
    | error e =>
      rw [fetchAny_error n c r [] hp hr]
      exact hf.trans (blame_within ..)

theorem race_within (n : Network σ) (c : Settings) (orders : Orders) (root : Hash256) (r : Run σ) :
    Within (· = root) r (race n c orders root r).2 := by
  cases hc : r.cache.get? root with
  | some b =>
    rw [race_cached n c orders r hc]
    exact ⟨.refl, rfl⟩
  | none =>
    by_cases hh : n.hosts r.wire.net = []
    · rw [race_nobody n c orders r hc hh]
      exact .refl
    · obtain ⟨-, hp, ho⟩ := afterRace_quiet n (· = root) r (raced n c orders root r).2
      have hafter : Within (· = root) r (afterRace n r (raced n c orders root r).2) :=
        ⟨(race_opens n c orders root r).trans ho, by rw [hp]⟩
      cases hwin : (raced n c orders root r).2.winner with
      | none =>
        rw [race_lost n c orders r hc hh hwin]
        exact hafter
      | some b =>
        rw [race_won n c orders r hc hh hwin]
        exact hafter.remember root b

theorem seeks_within {refs : List SectorRef} (h : Seeks n c refs r r') :
    Within (fun root => ∃ s ∈ refs, s.root = root) r r' := by
  induction h with
  | refl => exact .refl
  | tail _ hs ih =>
    cases hs with
    | claim s hm => exact ih.trans ((claim_within n c s _).mono fun root hr => ⟨s, hm, hr.symm⟩)
    | race orders s hm =>
      exact ih.trans ((race_within n c orders s.root _).mono fun root hr => ⟨s, hm, hr.symm⟩)

end

end Run

/-- the errors that come of chunk number `i` -/
inductive RecoveryError.At (d : Descriptor) (i : Nat) : RecoveryError → Prop
  | short (found : Nat) (h : found < d.minPieces) : At d i (.unrecoverable i found d.minPieces)
  | undecoded (e : ErasureError) : At d i (.erasure e)

namespace Recovery

open Run

/-- a sector that some of these chunks claim -/
def Wanted (ks : List Chunk) (root : Hash256) : Prop := ∃ k ∈ ks, ∃ s ∈ k.refs, s.root = root

theorem wanted_mono {ks ks' : List Chunk} (h : ks ⊆ ks') {root : Hash256} :
    Wanted ks root → Wanted ks' root := fun ⟨k, hk, hs⟩ => ⟨k, h hk, hs⟩

/-- the first `i` chunks were written, and they are counted -/
structure Through (d : Descriptor) (sink₀ : Sink) (p₀ : Option Progress) (i : Nat) (sink : Sink)
    (p : Option Progress) : Prop where
  took : Sink.Took (d.before i) sink₀ sink
  done : p.map Progress.done
    = p₀.map fun g => (g.chunks + UInt64.ofNat i, g.bytes + UInt64.ofNat (d.before i))

section
variable {d : Descriptor} {sink₀ sink sink' : Sink} {p₀ p p' : Option Progress} {i : Nat}

theorem through_zero (hroom : sink₀.room = none) : Through d sink₀ p₀ 0 sink₀ p₀ := by
  refine ⟨?_, ?_⟩
  · rw [d.before_zero]
    exact Sink.took_zero hroom
  · rw [d.before_zero]
    cases p₀ with
    | none => rfl
    | some g => exact congrArg some (Prod.ext (UInt64.add_zero _).symm (UInt64.add_zero _).symm)

theorem Through.on (h : Through d sink₀ p₀ i sink p)
    (hp : p'.map Progress.done = p.map Progress.done) : Through d sink₀ p₀ i sink p' :=
  ⟨h.took, hp.trans h.done⟩

theorem Through.next (h : Through d sink₀ p₀ i sink p) (ht : Sink.Took (d.chunkLen i) sink sink') :
    Through d sink₀ p₀ (i + 1) sink'
      (p.map fun g => (g.addChunk).addBytes (UInt64.ofNat (d.chunkLen i))) := by
  refine ⟨?_, ?_⟩
  · rw [← d.before_add_chunkLen]
    exact h.took.trans ht
  · have hone : ∀ g : Progress, ((g.addChunk).addBytes (UInt64.ofNat (d.chunkLen i))).done
        = (g.done.1 + 1, g.done.2 + UInt64.ofNat (d.chunkLen i)) := fun _ => rfl
    have hdone : (p.map Progress.done).map
        (fun x => (x.1 + 1, x.2 + UInt64.ofNat (d.chunkLen i)))
          = p.map fun g => ((g.addChunk).addBytes (UInt64.ofNat (d.chunkLen i))).done := by
      rw [Option.map_map]
      rfl
    rw [Option.map_map, ← d.before_add_chunkLen]
    refine hdone.symm.trans ?_
    rw [h.done, Option.map_map]
    congr 1
    funext g
    show (g.chunks + UInt64.ofNat i + 1, g.bytes + UInt64.ofNat (d.before i) + _) = _
    rw [UInt64.ofNat_add, UInt64.ofNat_add, UInt64.add_assoc, UInt64.add_assoc]
    rfl

end

section
variable (n : Network σ) (c : Settings) (orders : Run.Orders) (t : Target)

theorem collect_within (i : Nat) (k : Chunk) (r : Run σ) :
    Within (Wanted [k]) r (collect n c orders t i k.slots r).2 :=
  (seeks_within (collect_seeks n c orders t i k.slots r)).mono fun _ hs =>
    ⟨k, List.mem_singleton.2 rfl, hs⟩

theorem at_of_collect {i : Nat} {slots : List (List SectorRef)} {r : Run σ} {e : RecoveryError}
    (h : (collect n c orders t i slots r).1 = .error e) : e.At t.descriptor i := by
  obtain ⟨hshort, rfl⟩ := collect_eq_error_iff.1 h
  exact .short _ hshort

theorem recoverChunks_opens (ks : List Chunk) (i : Nat) (written : UInt64) (sink : Sink)
    (r : Run σ) :
    Wire.Opens (Wanted ks) r.wire (recoverChunks n c orders t i written ks sink r).run.wire := by
  induction ks generalizing i written sink r with
  | nil => exact .refl
  | cons k rest ih =>
    have hk := (collect_within n c orders t i k r).opens.mono fun root =>
      wanted_mono (List.cons_subset_cons k (List.nil_subset rest))
    cases hc : (collect n c orders t i k.slots r).1 with
    | error e =>
      rw [recoverChunks_stop n c orders t i written rest sink r hc]
      exact hk
    | ok slots =>
      cases hd : (t.coder.recover slots (t.descriptor.chunkLen i) sink).result with
      | error e =>
        rw [recoverChunks_fail n c orders t i written rest sink r hc hd]
        exact hk
      | ok _ =>
        rw [recoverChunks_go n c orders t i written rest sink r hc hd]
        exact hk.trans ((ih ..).mono fun root => wanted_mono (List.subset_cons_self k rest))

variable {sink₀ : Sink} {p₀ : Option Progress}

/-- a chunk that is done is written as a whole -/
theorem Through.chunk {i : Nat} {sink : Sink} {r : Run σ} {k : Chunk} {slots : Slots}
    (h : Through t.descriptor sink₀ p₀ i sink r.progress)
    (hd : (t.coder.recover slots (t.descriptor.chunkLen i) sink).result = .ok ()) :
    Through t.descriptor sink₀ p₀ (i + 1)
      (t.coder.recover slots (t.descriptor.chunkLen i) sink).sink
      (chunkDone t i (collect n c orders t i k.slots r).2).progress := by
  rcases t.coder.recover_took slots (t.descriptor.chunkLen i) sink h.took.1 with
    ⟨e, he, -⟩ | ⟨-, htook⟩
  · rw [hd] at he
    cases he
  · exact (h.on (collect_within n c orders t i k r).done).next htook

/-- a recovery that succeeds is through with all chunks -/
theorem recoverChunks_through (ks : List Chunk) (i : Nat) (sink : Sink) (r : Run σ)
    (h : Through t.descriptor sink₀ p₀ i sink r.progress) {written w : UInt64}
    (hw : written = UInt64.ofNat (t.descriptor.before i))
    (hok : (recoverChunks n c orders t i written ks sink r).result = .ok w) :
    w = UInt64.ofNat (t.descriptor.before (i + ks.length))
      ∧ Through t.descriptor sink₀ p₀ (i + ks.length)
          (recoverChunks n c orders t i written ks sink r).sink
          (recoverChunks n c orders t i written ks sink r).run.progress := by
  induction ks generalizing i written sink r with
  | nil =>
    cases hok
    exact ⟨hw, h⟩
  | cons k rest ih =>
    cases hc : (collect n c orders t i k.slots r).1 with
    | error e =>
      rw [recoverChunks_stop n c orders t i written rest sink r hc] at hok
      cases hok
    | ok slots =>
      cases hd : (t.coder.recover slots (t.descriptor.chunkLen i) sink).result with
      | error e =>
        rw [recoverChunks_fail n c orders t i written rest sink r hc hd] at hok
        cases hok
      | ok _ =>
        rw [recoverChunks_go n c orders t i written rest sink r hc hd] at hok ⊢
        rw [List.length_cons, Nat.add_comm rest.length 1, ← Nat.add_assoc]
        refine ih (i + 1) _ _ (h.chunk n c orders t hd) ?_ hok
        rw [hw, ← UInt64.ofNat_add, t.descriptor.before_add_chunkLen]

/-- the recovery of the chunks `ks`, from number `i` on, fails with the one `j` places on: those
before it are recovered, nothing else is written or counted, and what comes behind it does not
matter -/
structure Broke (i : Nat) (written : UInt64) (ks : List Chunk) (sink : Sink) (r : Run σ)
    (e : RecoveryError) (j : Nat) : Prop where
  lt : j < ks.length
  error : e.At t.descriptor (i + j)
  front : ∃ w, (recoverChunks n c orders t i written (ks.take j) sink r).result = .ok w
  sink_eq : (recoverChunks n c orders t i written ks sink r).sink
    = (recoverChunks n c orders t i written (ks.take j) sink r).sink
  done : (recoverChunks n c orders t i written ks sink r).run.progress.map Progress.done
    = (recoverChunks n c orders t i written (ks.take j) sink r).run.progress.map Progress.done
  blind : ∀ later, recoverChunks n c orders t i written (ks.take (j + 1) ++ later) sink r
    = recoverChunks n c orders t i written ks sink r

section
variable {i : Nat} {written : UInt64} {k : Chunk} {rest : List Chunk} {sink : Sink} {r : Run σ}
  {e : RecoveryError}

theorem broke_here (he : e.At t.descriptor i)
    (hall : ∀ later, recoverChunks n c orders t i written (k :: later) sink r
      = ⟨.error e, sink, (collect n c orders t i k.slots r).2⟩) :
    Broke n c orders t i written (k :: rest) sink r e 0 := by
  refine ⟨Nat.succ_pos _, he, ⟨written, rfl⟩, ?_, ?_, fun later => (hall later).trans (hall rest).symm⟩
  · rw [hall rest]
    rfl
  · rw [hall rest]
    exact (collect_within n c orders t i k r).done

theorem Broke.next {written' : UInt64} {sink' : Sink} {r' : Run σ} {j : Nat}
    (hall : ∀ later, recoverChunks n c orders t i written (k :: later) sink r
      = recoverChunks n c orders t (i + 1) written' later sink' r')
    (h : Broke n c orders t (i + 1) written' rest sink' r' e j) :
    Broke n c orders t i written (k :: rest) sink r e (j + 1) := by
  refine ⟨Nat.succ_lt_succ h.lt, ?_, ?_, ?_, ?_, fun later => ?_⟩
  · have herror := h.error
    rwa [Nat.add_assoc, Nat.add_comm 1 j] at herror
  · rw [List.take_succ_cons, hall]
    exact h.front
  · rw [List.take_succ_cons, hall, hall]
    exact h.sink_eq
  · rw [List.take_succ_cons, hall, hall]
    exact h.done
  · rw [List.take_succ_cons, List.cons_append, hall, hall]
    exact h.blind later

end

theorem recoverChunks_broke (ks : List Chunk) (i : Nat) (written : UInt64) (sink : Sink)
    (hroom : sink.room = none) (r : Run σ) {e : RecoveryError}
    (herr : (recoverChunks n c orders t i written ks sink r).result = .error e) :
    ∃ j, Broke n c orders t i written ks sink r e j := by
  induction ks generalizing i written sink r with
  | nil => cases herr
  | cons k rest ih =>
    cases hc : (collect n c orders t i k.slots r).1 with
    | error e' =>
      have hall := fun later => recoverChunks_stop n c orders t i written later sink r hc
      rw [hall rest] at herr
      cases herr
      exact ⟨0, broke_here n c orders t (at_of_collect n c orders t hc) hall⟩
    | ok slots =>
      have htook := t.coder.recover_took slots (t.descriptor.chunkLen i) sink hroom
      cases hd : (t.coder.recover slots (t.descriptor.chunkLen i) sink).result with
      | error e' =>
        have hall := fun later => recoverChunks_fail n c orders t i written later sink r hc hd
        rw [hall rest] at herr
        cases herr
        obtain ⟨-, -, hsink⟩ := htook.resolve_right fun h => by
          rw [hd] at h
          cases h.1
        rw [hsink] at hall
        exact ⟨0, broke_here n c orders t (.undecoded e') hall⟩
      | ok _ =>
        have hall := fun later => recoverChunks_go n c orders t i written later sink r hc hd
        obtain ⟨-, hroom', -⟩ := htook.resolve_left fun ⟨e', h, _⟩ => by
          rw [hd] at h
          cases h
        rw [hall rest] at herr
        obtain ⟨j, hj⟩ := ih (i + 1) _ _ hroom' _ herr
        exact ⟨j + 1, hj.next n c orders t hall⟩

end

/-! ## the whole file -/

/-- a recovery that fails with chunk number `i`: exactly the chunks before it were written, all of
them full, and counted; sessions were opened for the sectors of the chunks up to it only, and
whatever other chunks came behind it, it would have been the same -/
structure Failed (n : Network σ) (c : Settings) (orders : Run.Orders) (d : Descriptor) (sink : Sink)
    (r : Run σ) (t : Target) (e : RecoveryError) (i : Nat) : Prop where
  lt : i < d.chunks.length
  error : e.At d i
  took : Sink.Took (i * (d.pieceSize.toNat * d.dataPieces.toNat)) sink
    (recover n c orders d sink r).sink
  done : (recover n c orders d sink r).run.progress.map Progress.done
    = r.progress.map fun g => (g.chunks + UInt64.ofNat i,
        g.bytes + UInt64.ofNat (i * (d.pieceSize.toNat * d.dataPieces.toNat)))
  whole : ∃ w, (recoverChunks n c orders t 0 0 (d.chunks.take i) sink r).result = .ok w
    ∧ (recoverChunks n c orders t 0 0 (d.chunks.take i) sink r).sink
      = (recover n c orders d sink r).sink
  opens : Wire.Opens (Wanted (d.chunks.take (i + 1))) r.wire (recover n c orders d sink r).run.wire
  blind : ∀ later,
    reported d (recoverChunks n c orders t 0 0 (d.chunks.take (i + 1) ++ later) sink r)
      = recover n c orders d sink r

section
variable {n : Network σ} {c : Settings} {orders : Run.Orders} {d : Descriptor} {sink : Sink}
  {r : Run σ} {t : Target} (hroom : sink.room = none) (hp : prepare n d r.wire.net = .ok t)
include hroom hp

theorem through_of_prepare {ks : List Chunk} {w : UInt64}
    (hok : (recoverChunks n c orders t 0 0 ks sink r).result = .ok w) :
    w = UInt64.ofNat (d.before ks.length)
      ∧ Through d sink r.progress ks.length (recoverChunks n c orders t 0 0 ks sink r).sink
          (recoverChunks n c orders t 0 0 ks sink r).run.progress := by
  obtain ⟨-, -, -, rfl, -⟩ := prepare_eq_ok_iff.1 hp
  have hzero : (0 : UInt64) = UInt64.ofNat (t.descriptor.before 0) := by
    rw [Descriptor.before_zero]
    rfl
  have h := recoverChunks_through n c orders t ks 0 sink r (through_zero hroom) hzero hok
  rwa [Nat.zero_add] at h

/-- a recovery that succeeds has written the whole file -/
theorem took_of_recover_ok {report : RecoveryReport}
    (hok : (recover n c orders d sink r).result = .ok report) :
    Sink.Took d.fileSize.toNat sink (recover n c orders d sink r).sink
      ∧ report.bytesWritten = d.fileSize
      ∧ report.chunks.toNat = d.chunks.length
      ∧ (recover n c orders d sink r).run.progress.map Progress.done
        = r.progress.map fun g => (g.chunks + UInt64.ofNat d.chunks.length, g.bytes + d.fileSize) := by
  have hv := (Descriptor.validate_eq_ok_iff d).1 (prepare_eq_ok_iff.1 hp).1
  have hrec := recover_eq n c orders d sink r
  rw [hp] at hrec
  rw [hrec] at hok ⊢
  obtain ⟨w, hw⟩ := reported_ok _ _ hok
  obtain ⟨hwritten, htook, hdone⟩ := through_of_prepare hroom hp hw
  rw [hv.before_length] at hwritten htook hdone
  rw [UInt64.ofNat_toNat] at hwritten hdone
  have hgist := gist_reported d (recoverChunks n c orders t 0 0 d.chunks sink r)
  rw [Outcome.gist, hok, hw, hwritten] at hgist
  obtain ⟨hchunks, hbytes⟩ := Prod.mk.inj (Except.ok.inj hgist)
  refine ⟨?_, hbytes, ?_, ?_⟩
  · rw [sink_reported]
    exact htook
  · rw [hchunks]
    exact UInt64.toNat_ofNat_of_lt' hv.length_lt
  · rw [run_reported]
    exact hdone

theorem failed_of_recover_error {e : RecoveryError}
    (herr : (recover n c orders d sink r).result = .error e) :
    ∃ i, Failed n c orders d sink r t e i := by
  have hrec := recover_eq n c orders d sink r
  rw [hp] at hrec
  rw [hrec] at herr
  obtain ⟨i, hi⟩ := recoverChunks_broke n c orders t _ 0 0 sink hroom r (reported_error _ _ herr)
  have hv := (Descriptor.validate_eq_ok_iff d).1 (prepare_eq_ok_iff.1 hp).1
  have hlt := hi.lt
  obtain ⟨w, hw⟩ := hi.front
  obtain ⟨-, htook, hdone⟩ := through_of_prepare hroom hp hw
  rw [List.length_take, Nat.min_eq_left (Nat.le_of_lt hlt), hv.before_of_lt hlt] at htook hdone
  have herror := hi.error
  rw [Nat.zero_add, (prepare_eq_ok_iff.1 hp).2.2.2.1] at herror
  refine ⟨i, hlt, herror, ?_, ?_, ⟨w, hw, ?_⟩, ?_, fun later => ?_⟩
  · rw [hrec, sink_reported, hi.sink_eq]
    exact htook
  · rw [hrec, run_reported, hi.done]
    exact hdone
  · rw [hrec, sink_reported, hi.sink_eq]
  · have hblind := hi.blind []
    rw [List.append_nil] at hblind
    rw [hrec, run_reported, ← hblind]
    exact recoverChunks_opens n c orders t _ 0 0 sink r
  · rw [hrec, hi.blind later]

end

/-- on a sink that does not fail, a recovery either writes the whole file, or it fails with some chunk
and writes the full chunks before it, or it fails before the first and does nothing at all -/
theorem recover_length_exact (n : Network σ) (c : Settings) (orders : Run.Orders) (d : Descriptor)
    (sink : Sink) (hroom : sink.room = none) (r : Run σ) :
    (∀ report, (recover n c orders d sink r).result = .ok report →
        Sink.Took d.fileSize.toNat sink (recover n c orders d sink r).sink
          ∧ report.bytesWritten = d.fileSize
          ∧ report.chunks.toNat = d.chunks.length
          ∧ (recover n c orders d sink r).run.progress.map Progress.done
            = r.progress.map fun g => (g.chunks + UInt64.ofNat d.chunks.length,
                g.bytes + d.fileSize))
      ∧ ∀ e, (recover n c orders d sink r).result = .error e →
        (RecoveryError.Unprepared e ∧ (recover n c orders d sink r).sink = sink
            ∧ (recover n c orders d sink r).run = r)
          ∨ ∃ t i, prepare n d r.wire.net = .ok t ∧ Failed n c orders d sink r t e i := by
  cases hp : prepare n d r.wire.net with
  | error e =>
    have hrec := recover_eq n c orders d sink r
    rw [hp] at hrec
    rw [hrec]
    refine ⟨fun report h => (by cases h), fun e' h => ?_⟩
    cases h
    exact .inl ⟨unprepared_of_prepare hp, rfl, rfl⟩
  | ok t =>
    refine ⟨fun report hok => took_of_recover_ok hroom hp hok, fun e herr => .inr ?_⟩
    obtain ⟨i, hi⟩ := failed_of_recover_error hroom hp herr
    exact ⟨t, i, rfl, hi⟩

/-! ## a sink with too little room -/

/-- two bytes in two chunks, no copy of the second being known -/
def halfLost : Descriptor where
  fileSize := 2
  pieceSize := 1
  encoderType := 1
  dataPieces := 1
  parityPieces := 0
  masterKey := []
  masterKeyType := CipherKind.plaintext.name
  skylinks := []
  chunks := [⟨[[⟨sectorRoot [7], HostKey.ofBytes [1]⟩]]⟩, ⟨[[]]⟩]

/-- recovering them from a host that stores the first -/
def halfRecovered : Outcome Memory.Hosts RecoveryReport :=
  recover Memory.network { Settings.standard with sectorSize := 1 } Run.Orders.byTime halfLost
    (Sink.ofLimit none) (Run.fresh Memory.Hosts.single (some Progress.zero))

theorem recover_length_exact_half :
    (Sink.ofLimit none).room = none
      ∧ halfRecovered.result = .error (.unrecoverable 1 0 1)
      ∧ halfRecovered.sink.bytes.length = 1
      ∧ halfRecovered.run.progress.map Progress.done = some (1, 1) := by
  have hresult : halfRecovered.result = .error (.unrecoverable 1 0 1) := by decide +kernel
  obtain ⟨-, herr⟩ := recover_length_exact Memory.network
    { Settings.standard with sectorSize := 1 } Run.Orders.byTime halfLost (Sink.ofLimit none) rfl
    (Run.fresh Memory.Hosts.single (some Progress.zero))
  rcases herr _ hresult with ⟨h, -, -⟩ | ⟨t, i, -, h⟩
  · cases h
  · obtain rfl : 1 = i := by
      have hat := h.error
      cases hat
      rfl
    obtain ⟨-, out, hlen, hbytes⟩ := h.took
    refine ⟨rfl, hresult, ?_, h.done⟩
    show (recover _ _ _ _ _ _).sink.bytes.length = 1
    rw [hbytes]
    exact hlen

end Recovery

end Reclaim

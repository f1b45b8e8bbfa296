import Reclaim.Proofs.Erasure.AnyPieces
import Reclaim.Proofs.Recovery.Collect

/-!
# Recovering chunk by chunk

* `Target.Wellformed`   a target whose coder and sizes belong together;
* `Codes`               a chunk whose claims stand for the pieces of given data;
* `decode_claimed`      claimed pieces, as many as are needed, lead to the chunk being written;
* `recoverChunks_leads` a run stays sound;
* `recoverChunks_writes`    what is written is the data of the first chunks, and a recovery that ends
                        early does so for want of pieces of the next one;
* `recoverChunks_succeeds`  if enough pieces of every chunk are offered, all chunks are recovered.
-/

namespace Reclaim.Recovery

variable {σ : Type}

/-- the length of a full piece -/
def Target.width (t : Target) : Nat := t.descriptor.pieceSize.toNat

/-- a target whose coder is the one of its descriptor and can work with the length of its pieces -/
structure Target.Wellformed (t : Target) : Prop where
  data : t.coder.data = t.descriptor.minPieces
  pieces : t.coder.numPieces = t.descriptor.numPieces
  fits : t.coder.Fits t.width

theorem Target.Wellformed.chunkLen_le {t : Target} (h : t.Wellformed) (i : Nat) :
    t.descriptor.chunkLen i ≤ t.width * t.coder.data := by
  have e : t.width * t.coder.data = t.descriptor.pieceSize.toNat * t.descriptor.dataPieces.toNat := by
    rw [h.data]
    rfl
  rw [e]
  unfold Descriptor.chunkLen Descriptor.chunkSize
  omega

/-- the claims of a chunk stand for the pieces of `d`: whatever sector goes under one of their
roots (`P`), the piece in it is the one of that place -/
structure Codes (t : Target) (P : Hash256 → Bytes → Prop) (chunk : Nat) (k : Chunk) (d : Bytes) :
    Prop where
  length : d.length = t.width * t.coder.data
  slots : k.slots.length = t.descriptor.numPieces
  piece : ∀ i, ∀ s ∈ k.slots.getD i [], ∀ sector, P s.root sector →
    (t.coder.pieces t.width d)[i]? = some (t.piece chunk i sector)

/-- the same of all chunks from number `chunk` on -/
def AllCode (t : Target) (P : Hash256 → Bytes → Prop) (chunk : Nat) :
    List Chunk → List Bytes → Prop
  | [], [] => True
  | k :: ks, d :: ds => Codes t P chunk k d ∧ AllCode t P (chunk + 1) ks ds
  | _, _ => False

/-- what is to be written for each chunk from number `chunk` on -/
def outputs (t : Target) (chunk : Nat) : List Bytes → List Bytes
  | [] => []
  | d :: ds => d.take (t.descriptor.chunkLen chunk) :: outputs t (chunk + 1) ds

section
variable {n : Network σ} {c : Settings} {gone : HostKey → Prop} {orders : Run.Orders} {t : Target}
  {P : Hash256 → Bytes → Prop}

/-! ## one chunk -/

/-- claimed pieces, as many as are needed, lead to the chunk being written -/
theorem decode_claimed (ht : t.Wellformed) {chunk : Nat} {k : Chunk} {d : Bytes}
    (hk : Codes t P chunk k d) {w : Wire σ} (hP : ∀ root b, Genuine c w root b → P root b)
    {slots : Slots} (hl : slots.length = t.descriptor.numPieces)
    (hmin : t.descriptor.minPieces ≤ (slots.filterMap id).length)
    (hc : ∀ i b, slots[i]? = some (some b) → Claimed c t chunk k.slots w i b) (sink : Sink)
    (hroom : sink.room = none) :
    (t.coder.recover slots (t.descriptor.chunkLen chunk) sink).result = .ok ()
      ∧ (t.coder.recover slots (t.descriptor.chunkLen chunk) sink).sink.room = none
      ∧ (t.coder.recover slots (t.descriptor.chunkLen chunk) sink).sink.bytes
          = sink.bytes ++ d.take (t.descriptor.chunkLen chunk) := by
  have hkept : Coder.Kept (t.coder.pieces t.width d) slots := by
    refine Coder.kept_of_getElem? ?_ fun i b hb => ?_
    · rw [hl, Coder.length_pieces, ht.pieces]
    · obtain ⟨s, hs, sector, hg, rfl⟩ := hc i b hb
      exact hk.piece i s hs sector (hP _ _ hg)
  obtain ⟨slots', blocks, hrec, hblocks⟩ := Coder.recover_of_kept t.coder t.width ht.fits d hk.length
    hkept (by rw [ht.data]; exact hmin) _ (ht.chunkLen_le chunk) sink
  obtain ⟨hok, hroom'⟩ := Coder.written_ok slots' sink hroom (t.descriptor.chunkLen chunk) blocks
  obtain ⟨-, -, hbytes⟩ := Sink.writeBlocks_unbounded sink hroom
    (t.descriptor.chunkLen chunk) blocks
  rw [hblocks] at hbytes
  rw [hrec]
  exact ⟨hok, hroom', hbytes⟩

/-- the run after a chunk is done -/
def chunkDone (t : Target) (chunk : Nat) (r : Run σ) : Run σ :=
  { r with
    progress := r.progress.map fun g =>
      (g.addChunk).addBytes (UInt64.ofNat (t.descriptor.chunkLen chunk)) }

theorem leads_chunkDone (t : Target) (chunk : Nat) (r : Run σ) :
    Run.Leads n c gone r (chunkDone t chunk r) := Run.leads_of_cache .refl rfl

section
variable (n c orders t) (chunk : Nat) (written : UInt64) {k : Chunk} (rest : List Chunk)
  (sink : Sink) (r : Run σ) {slots : Slots}

theorem recoverChunks_stop {e : RecoveryError}
    (h : (collect n c orders t chunk k.slots r).1 = .error e) :
    recoverChunks n c orders t chunk written (k :: rest) sink r
      = ⟨.error e, sink, (collect n c orders t chunk k.slots r).2⟩ := by
  rw [recoverChunks]
  simp only [h]

theorem recoverChunks_fail {e : ErasureError}
    (h : (collect n c orders t chunk k.slots r).1 = .ok slots)
    (hd : (t.coder.recover slots (t.descriptor.chunkLen chunk) sink).result = .error e) :
    recoverChunks n c orders t chunk written (k :: rest) sink r
      = ⟨.error (.erasure e), (t.coder.recover slots (t.descriptor.chunkLen chunk) sink).sink,
          (collect n c orders t chunk k.slots r).2⟩ := by
  rw [recoverChunks]
  simp only [h, hd]

theorem recoverChunks_go (h : (collect n c orders t chunk k.slots r).1 = .ok slots)
    (hd : (t.coder.recover slots (t.descriptor.chunkLen chunk) sink).result = .ok ()) :
    recoverChunks n c orders t chunk written (k :: rest) sink r
      = recoverChunks n c orders t (chunk + 1)
          (written + UInt64.ofNat (t.descriptor.chunkLen chunk)) rest
          (t.coder.recover slots (t.descriptor.chunkLen chunk) sink).sink
          (chunkDone t chunk (collect n c orders t chunk k.slots r).2) := by
  rw [recoverChunks]
  simp only [h, hd]
  rfl

end

/-! ## all chunks -/

theorem recoverChunks_leads (orders : Run.Orders) (ks : List Chunk)
    (hlen : ∀ k ∈ ks, k.slots.length = t.descriptor.numPieces) (chunk : Nat) (written : UInt64)
    (sink : Sink) (r : Run σ) (hs : Spares n c gone r.wire) (hr : r.Sound c) :
    Run.Leads n c gone r (recoverChunks n c orders t chunk written ks sink r).run := by
  induction ks generalizing chunk written sink r with
  | nil => exact .refl
  | cons k rest ih =>
    obtain ⟨hl, -, -⟩ := collect_rule orders t chunk hs hr
      (hlen k List.mem_cons_self)
    cases hc : (collect n c orders t chunk k.slots r).1 with
    | error e =>
      rw [recoverChunks_stop n c orders t chunk written rest sink r hc]
      exact hl
    | ok slots =>
      cases hd : (t.coder.recover slots (t.descriptor.chunkLen chunk) sink).result with
      | error e =>
        rw [recoverChunks_fail n c orders t chunk written rest sink r hc hd]
        exact hl
      | ok _ =>
        rw [recoverChunks_go n c orders t chunk written rest sink r hc hd]
        have hdone := hl.trans (leads_chunkDone t chunk _)
        exact hdone.trans (ih (fun k' h => hlen k' (List.mem_cons_of_mem _ h)) _ _ _ _
          (hs.mono hdone.wire) (hdone.sound hr))

theorem AllCode.slots {chunk : Nat} {ks : List Chunk} {ds : List Bytes}
    (h : AllCode t P chunk ks ds) : ∀ k ∈ ks, k.slots.length = t.descriptor.numPieces := by
  induction ks generalizing chunk ds with
  | nil => exact fun k hk => absurd hk List.not_mem_nil
  | cons k ks ih =>
    cases ds with
    | nil => exact h.elim
    | cons d ds =>
      intro k' hk'
      rcases List.mem_cons.1 hk' with rfl | hk'
      · exact h.1.slots
      · exact ih h.2 k' hk'

theorem AllCode.length_eq {chunk : Nat} {ks : List Chunk} {ds : List Bytes}
    (h : AllCode t P chunk ks ds) : ks.length = ds.length := by
  induction ks generalizing chunk ds with
  | nil =>
    cases ds with
    | nil => rfl
    | cons d ds => exact h.elim
  | cons k ks ih =>
    cases ds with
    | nil => exact h.elim
    | cons d ds => exact congrArg Nat.succ (ih h.2)

/-- what is written is the data of the first chunks, and a recovery that ends early does so for want
of pieces of the next one -/
theorem recoverChunks_writes (ht : t.Wellformed) (ks : List Chunk) (ds : List Bytes) (chunk : Nat)
    (h : AllCode t P chunk ks ds) (written : UInt64) (sink : Sink) (hroom : sink.room = none)
    (r : Run σ) (hs : Spares n c gone r.wire) (hr : r.Sound c)
    (hP : ∀ root b,
      Genuine c (recoverChunks n c orders t chunk written ks sink r).run.wire root b → P root b) :
    ∃ j ≤ ks.length,
      (recoverChunks n c orders t chunk written ks sink r).sink.bytes
          = sink.bytes ++ ((outputs t chunk ds).take j).flatten
        ∧ (∀ w, (recoverChunks n c orders t chunk written ks sink r).result = .ok w → j = ks.length)
        ∧ ∀ e, (recoverChunks n c orders t chunk written ks sink r).result = .error e →
            j < ks.length ∧ ∃ found, e = .unrecoverable (chunk + j) found t.descriptor.minPieces := by
  induction ks generalizing chunk ds written sink r with
  | nil =>
    refine ⟨0, Nat.le_refl 0, ?_, fun _ _ => rfl, fun e he => (by cases he)⟩
    rw [List.take_zero, List.flatten_nil, List.append_nil]
    rfl
  | cons k ks ih =>
    cases ds with
    | nil => exact h.elim
    | cons d ds =>
      obtain ⟨hcode, hrest⟩ := h
      obtain ⟨hl, hok, herr⟩ := collect_rule orders t chunk hs hr hcode.slots
      cases hc : (collect n c orders t chunk k.slots r).1 with
      | error e =>
        rw [recoverChunks_stop n c orders t chunk written ks sink r hc]
        refine ⟨0, Nat.zero_le _, ?_, fun w hw => (by cases hw), fun e' he' => ?_⟩
        · rw [List.take_zero, List.flatten_nil, List.append_nil]
        · cases he'
          exact ⟨Nat.succ_pos _, herr e hc⟩
      | ok slots =>
        obtain ⟨hslots, hmin, hclaimed⟩ := hok slots hc
        cases hd : (t.coder.recover slots (t.descriptor.chunkLen chunk) sink).result with
        | error e =>
          rw [recoverChunks_fail n c orders t chunk written ks sink r hc hd] at hP
          rw [(decode_claimed ht hcode hP hslots hmin hclaimed sink hroom).1] at hd
          cases hd
        | ok _ =>
          rw [recoverChunks_go n c orders t chunk written ks sink r hc hd] at hP ⊢
          have hdone := hl.trans (leads_chunkDone t chunk (collect n c orders t chunk k.slots r).2)
          have hlater := recoverChunks_leads orders ks hrest.slots (chunk + 1)
            (written + UInt64.ofNat (t.descriptor.chunkLen chunk))
            (t.coder.recover slots (t.descriptor.chunkLen chunk) sink).sink _
            (hs.mono hdone.wire) (hdone.sound hr)
          obtain ⟨-, hroom', hbytes⟩ := decode_claimed ht hcode
            (fun root b hg => hP root b (hg.mono hlater.wire)) hslots hmin hclaimed sink hroom
          obtain ⟨j, hj, h1, h2, h3⟩ := ih ds (chunk + 1) hrest _ _ hroom' _
            (hs.mono hdone.wire) (hdone.sound hr) hP
          refine ⟨j + 1, Nat.succ_le_succ hj, ?_, fun w hw => congrArg Nat.succ (h2 w hw),
            fun e he => ?_⟩
          · rw [h1, hbytes, outputs, List.take_succ_cons, List.flatten_cons, List.append_assoc]
          · obtain ⟨h4, found, h5⟩ := h3 e he
            refine ⟨Nat.succ_lt_succ h4, found, ?_⟩
            rw [h5, Nat.add_right_comm, Nat.add_assoc]

theorem recoverChunks_succeeds (ht : t.Wellformed) (ks : List Chunk) (ds : List Bytes) (chunk : Nat)
    (h : AllCode t P chunk ks ds) (written : UInt64) (sink : Sink) (hroom : sink.room = none)
    (r : Run σ) (hs : Spares n c gone r.wire) (hr : r.Sound c)
    (hP : ∀ root b,
      Genuine c (recoverChunks n c orders t chunk written ks sink r).run.wire root b → P root b)
    (hoff : ∀ k ∈ ks, ∃ pieces : List Nat, pieces.Nodup ∧ t.descriptor.minPieces ≤ pieces.length
      ∧ ∀ i ∈ pieces, k.slots.getD i [] ≠ [] ∧ Offered n c gone r.wire (searchRoot k.slots i)) :
    ∃ w, (recoverChunks n c orders t chunk written ks sink r).result = .ok w := by
  induction ks generalizing chunk ds written sink r with
  | nil => exact ⟨written, rfl⟩
  | cons k ks ih =>
    cases ds with
    | nil => exact h.elim
    | cons d ds =>
      obtain ⟨hcode, hrest⟩ := h
      obtain ⟨pieces, hn, hmany, hpieces⟩ := hoff k List.mem_cons_self
      obtain ⟨slots, hc⟩ := collect_succeeds orders t chunk hs hr hcode.slots pieces hn
        hmany hpieces
      obtain ⟨hl, hok, -⟩ := collect_rule orders t chunk hs hr hcode.slots
      obtain ⟨hslots, hmin, hclaimed⟩ := hok slots hc
      cases hd : (t.coder.recover slots (t.descriptor.chunkLen chunk) sink).result with
      | error e =>
        rw [recoverChunks_fail n c orders t chunk written ks sink r hc hd] at hP
        rw [(decode_claimed ht hcode hP hslots hmin hclaimed sink hroom).1] at hd
        cases hd
      | ok _ =>
        rw [recoverChunks_go n c orders t chunk written ks sink r hc hd] at hP ⊢
        have hdone := hl.trans (leads_chunkDone t chunk (collect n c orders t chunk k.slots r).2)
        have hlater := recoverChunks_leads orders ks hrest.slots (chunk + 1)
          (written + UInt64.ofNat (t.descriptor.chunkLen chunk))
          (t.coder.recover slots (t.descriptor.chunkLen chunk) sink).sink _
          (hs.mono hdone.wire) (hdone.sound hr)
        obtain ⟨-, hroom', -⟩ := decode_claimed ht hcode
          (fun root b hg => hP root b (hg.mono hlater.wire)) hslots hmin hclaimed sink hroom
        refine ih ds (chunk + 1) hrest _ _ hroom' _ (hs.mono hdone.wire) (hdone.sound hr) hP ?_
        intro k' hk'
        obtain ⟨pieces', hn', hmany', hpieces'⟩ := hoff k' (List.mem_cons_of_mem _ hk')
        exact ⟨pieces', hn', hmany', fun i hi =>
          ⟨(hpieces' i hi).1, (hpieces' i hi).2.mono hdone.wire⟩⟩

end

end Reclaim.Recovery

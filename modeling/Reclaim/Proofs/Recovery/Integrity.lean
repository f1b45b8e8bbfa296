import Reclaim.Host.Memory
import Reclaim.Proofs.Recovery.Recover
import Reclaim.Proofs.Upload

/-!
# Nothing but the file is ever written

* `DistinctRoots`      no two of some byte strings have the same root;
* `Held`               the stored sectors and everything that hosts sent;
* `recover_writes`     what recovering a stored file writes are its first chunks;
* `recover_integrity`  the same in terms of bytes: the file, or a front of it that ends where the
                       chunk begins that could not be recovered.
-/

namespace Reclaim

variable {σ : Type}

/-- no two different byte strings of a kind have the same root -/
def DistinctRoots (P : Bytes → Prop) : Prop :=
  ∀ a b, P a → P b → sectorRoot a = sectorRoot b → a = b

/-- the sectors of a stored file and everything that hosts sent -/
def Held (stored : Upload.Stored) (w : Wire σ) (b : Bytes) : Prop :=
  (∃ p ∈ stored.placements, p.sector = b) ∨ b ∈ w.payloads

/-- a byte string with the given root that a host sent -/
def Sent (w : Wire σ) (root : Hash256) (b : Bytes) : Prop := sectorRoot b = root ∧ b ∈ w.payloads

namespace Recovery

open Upload

section
variable {spec : Spec} {data : Bytes} {stored : Stored} {coder : Coder} {key : MasterKey}
  {ps : List (List Placement)}

theorem sector_of_sent (hb : Built spec data stored coder key ps) (hp : 0 < spec.pieceSize)
    {w : Wire σ} (hd : DistinctRoots (Held stored w)) :
    ∀ p ∈ stored.placements, ∀ b, Sent w p.root b → b = p.sector := by
  rintro p h b ⟨hroot, hsent⟩
  rw [hb.root_of_mem hp p h] at hroot
  exact hd b p.sector (.inr hsent) (.inl ⟨p, h, rfl⟩) hroot

variable {n : Network σ} {c : Settings} {gone : HostKey → Prop} (orders : Run.Orders)

/-- what recovering a stored file writes are its first chunks: all of them, or those before the
chunk that could not be recovered, or none if the recovery ended before the first -/
theorem recover_writes (hb : Built spec data stored coder key ps) (hp : 0 < spec.pieceSize)
    (sink : Sink) (hroom : sink.room = none) (r : Run σ) (hs : Spares n c gone r.wire)
    (hr : r.Sound c)
    (hd : DistinctRoots (Held stored (recover n c orders stored.descriptor sink r).run.wire)) :
    ∃ j ≤ (cut (spec.pieceSize * spec.data) data).length,
      (recover n c orders stored.descriptor sink r).sink.bytes
          = sink.bytes ++ ((cut (spec.pieceSize * spec.data) data).take j).flatten
        ∧ (∀ report, (recover n c orders stored.descriptor sink r).result = .ok report →
            j = (cut (spec.pieceSize * spec.data) data).length)
        ∧ ∀ chunk found required, (recover n c orders stored.descriptor sink r).result
              = .error (.unrecoverable chunk found required) →
            j = chunk ∧ chunk < (cut (spec.pieceSize * spec.data) data).length := by
  rcases recover_cases n c orders stored.descriptor sink r with
    ⟨e, he, h⟩ | ⟨coder', key', -, hc, hk, h⟩
  · rw [h]
    refine ⟨0, Nat.zero_le _, ?_, fun report h' => (by cases h'), fun chunk found required h' => ?_⟩
    · rw [List.take_zero, List.flatten_nil, List.append_nil]
    · cases h'
      exact absurd rfl (he chunk found required)
  · obtain rfl : coder = coder' := Except.ok.inj (hb.coder_eq.symm.trans hc)
    obtain rfl : key = key' := Except.ok.inj (hb.key_eq.symm.trans hk)
    rw [h, run_reported] at hd
    have hcode := hb.allCode hp (Sent _) (sector_of_sent hb hp hd)
    have hlen := hcode.length_eq
    rw [List.length_map] at hlen
    obtain ⟨j, hj, h1, h2, h3⟩ := recoverChunks_writes (hb.wellformed hp) _ _ 0 hcode 0 sink hroom r
      hs hr fun root b hg => ⟨hg.root, hg.sent⟩
    rw [hb.outputs_eq hp] at h1
    rw [hlen] at hj h2 h3
    refine ⟨j, hj, ?_, fun report hrep => ?_, fun chunk found required herr => ?_⟩
    · rw [h, sink_reported]
      exact h1
    · rw [h] at hrep
      obtain ⟨w, hw⟩ := reported_ok _ _ hrep
      exact h2 w hw
    · rw [h] at herr
      obtain ⟨hlt, found', hfound⟩ := h3 _ (reported_error _ _ herr)
      rw [Nat.zero_add] at hfound
      cases hfound
      exact ⟨rfl, hlt⟩

end

/-- whatever hosts answer, in whatever order, recovering a stored file writes nothing but a front of
it: all of it on success, and exactly the chunks before the one that could not be recovered -/
theorem recover_integrity (spec : Spec) (data : Bytes) (stored : Stored)
    (hup : upload spec data = .ok stored) (hp : 0 < spec.pieceSize) (n : Network σ) (c : Settings)
    (orders : Run.Orders) (r : Run σ) (hr : r.Reached n c) (sink : Sink) (hroom : sink.room = none)
    (hd : DistinctRoots (Held stored (recover n c orders stored.descriptor sink r).run.wire)) :
    ∃ out, (recover n c orders stored.descriptor sink r).sink.bytes = sink.bytes ++ out
      ∧ out <+: data
      ∧ (∀ report, (recover n c orders stored.descriptor sink r).result = .ok report → out = data)
      ∧ ∀ chunk found required, (recover n c orders stored.descriptor sink r).result
            = .error (.unrecoverable chunk found required) →
          chunk * (spec.pieceSize * spec.data) ≤ data.length
            ∧ out = data.take (chunk * (spec.pieceSize * spec.data)) := by
  obtain ⟨coder, key, ps, hb⟩ := built_of_upload hup
  obtain ⟨j, hj, h1, h2, h3⟩ := recover_writes orders hb hp sink hroom r (spares_all n c r.wire)
    hr.sound hd
  have hsize := hb.chunkSize_pos hp
  refine ⟨_, h1, ?_, fun report hrep => ?_, fun chunk found required herr => ?_⟩
  · rw [flatten_take_cut _ hsize]
    exact List.take_prefix _ _
  · rw [h2 report hrep, List.take_length, flatten_cut _ hsize]
  · obtain ⟨rfl, hlt⟩ := h3 chunk found required herr
    exact ⟨(getElem?_cut _ hsize data j hlt).2, flatten_take_cut _ hsize data j⟩

/-! ## a small case -/

/-- hosts in memory that hold the sectors of a stored file, one of them behaving as told -/
def stocked (stored : Stored) (host : HostKey) (b : Memory.Behavior) : Memory.Hosts :=
  (stored.placements.foldl (fun h p => (h.addHost p.host).putSector p.host p.root p.sector)
    Memory.Hosts.empty).setBehavior host b

theorem distinctRoots_held (stored : Stored) (w : Wire σ)
    (h : ∀ a ∈ stored.placements.map Placement.sector ++ w.payloads,
      ∀ b ∈ stored.placements.map Placement.sector ++ w.payloads,
        sectorRoot a = sectorRoot b → a = b) : DistinctRoots (Held stored w) := by
  have hmem : ∀ b, Held stored w b → b ∈ stored.placements.map Placement.sector ++ w.payloads := by
    rintro b (⟨p, hp, rfl⟩ | hb)
    · exact List.mem_append_left _ (List.mem_map_of_mem hp)
    · exact List.mem_append_right _ hb
  exact fun a b ha hb => h a (hmem a ha) b (hmem b hb)

theorem eq_ok_of_isSome {ε α : Type} {e : Except ε α} (h : e.toOption.isSome = true) :
    e = .ok (e.toOption.get h) := by
  cases e with
  | error e => cases h
  | ok a => rfl

/-- one byte in two pieces on two hosts -/
def oneByte : Spec := ⟨.whole, 1, 1, 1, 1, .plaintext, 2⟩

theorem oneByte_isSome : (upload oneByte [7]).toOption.isSome = true := by decide +kernel

/-- the upload of a single byte -/
def oneByteStored : Stored := (upload oneByte [7]).toOption.get oneByte_isSome

/-- recovering it when the first host sends something else than it holds -/
def oneByteRecovered : Outcome Memory.Hosts RecoveryReport :=
  recover Memory.network { Settings.standard with sectorSize := 1 } Run.Orders.byTime
    oneByteStored.descriptor (Sink.ofLimit none)
    (Run.fresh (stocked oneByteStored (host 0) .corrupt) none)

theorem recover_integrity_corrupt :
    upload oneByte [7] = .ok oneByteStored ∧ DistinctRoots (Held oneByteStored oneByteRecovered.run.wire)
      ∧ oneByteRecovered.sink.bytes = [7] := by
  have hup := eq_ok_of_isSome oneByte_isSome
  have hd : DistinctRoots (Held oneByteStored oneByteRecovered.run.wire) :=
    distinctRoots_held _ _ (by decide +kernel)
  have hres : oneByteRecovered.result.toOption.isSome = true := by decide +kernel
  obtain ⟨out, hbytes, -, hall, -⟩ := recover_integrity oneByte [7] oneByteStored hup (by decide)
    Memory.network _ Run.Orders.byTime _ (.fresh _ none) (Sink.ofLimit none) rfl hd
  refine ⟨hup, hd, hbytes.trans ?_⟩
  rw [hall _ (eq_ok_of_isSome hres)]
  rfl

end Recovery

end Reclaim

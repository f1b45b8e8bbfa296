import Reclaim.Proofs.Erasure.Refusals
import Reclaim.Proofs.Recovery.Available

/-!
# A recovery up to each chunk

The recovery of the first chunks of a file is the beginning of the recovery of all of them, so a
recovery can be looked at chunk by chunk: where it comes to a chunk, what it collects of it, and
what has been written when it goes on to the next.

* `recoverChunks_append`   chunks are recovered one part after the other;
* `upTo`                   the recovery of the first chunks of a file;
* `Decodes`                a chunk that the recovery comes to and gets through with;
* `upTo_ok`, `upTo_error`  every chunk before the end is decoded, and a recovery that fails does so
                           with a chunk that it comes to;
* `Decodes.fed`, `upTo_fed`   what the chunks write, and how much of the file that is together.
-/

namespace Reclaim.Recovery

variable {σ : Type}

section
variable (n : Network σ) (c : Settings) (orders : Run.Orders) (t : Target)

/-- chunks are recovered one part after the other, unless the first part fails -/
theorem recoverChunks_append (ks later : List Chunk) (i : Nat) (written : UInt64) (sink : Sink)
    (r : Run σ) :
    (∀ e, (recoverChunks n c orders t i written ks sink r).result = .error e →
        recoverChunks n c orders t i written (ks ++ later) sink r
          = recoverChunks n c orders t i written ks sink r)
      ∧ ∀ w, (recoverChunks n c orders t i written ks sink r).result = .ok w →
        recoverChunks n c orders t i written (ks ++ later) sink r
          = recoverChunks n c orders t (i + ks.length) w later
              (recoverChunks n c orders t i written ks sink r).sink
              (recoverChunks n c orders t i written ks sink r).run := by
  induction ks generalizing i written sink r with
  | nil =>
    refine ⟨fun e h => (by cases h), fun w h => ?_⟩
    cases h
    rfl
  | cons k rest ih =>
    rw [List.cons_append]
    cases hc : (collect n c orders t i k.slots r).1 with
    | error e =>
      rw [recoverChunks_stop n c orders t i written rest sink r hc,
        recoverChunks_stop n c orders t i written (rest ++ later) sink r hc]
      exact ⟨fun _ _ => rfl, fun w h => (by cases h)⟩
    | ok slots =>
      cases hd : (t.coder.recover slots (t.descriptor.chunkLen i) sink).result with
      | error e =>
        rw [recoverChunks_fail n c orders t i written rest sink r hc hd,
          recoverChunks_fail n c orders t i written (rest ++ later) sink r hc hd]
        exact ⟨fun _ _ => rfl, fun w h => (by cases h)⟩
      | ok _ =>
        rw [recoverChunks_go n c orders t i written rest sink r hc hd,
          recoverChunks_go n c orders t i written (rest ++ later) sink r hc hd,
          List.length_cons, Nat.add_comm rest.length 1, ← Nat.add_assoc]
        exact ih (i + 1) _ _ _

variable (sink : Sink) (r : Run σ)

/-- the recovery of the first `i` chunks of a file -/
def upTo (i : Nat) : Outcome σ UInt64 :=
  recoverChunks n c orders t 0 0 (t.descriptor.chunks.take i) sink r

/-- the recovery comes to chunk number `i`, collects the pieces in `slots` and decodes them -/
structure Decodes (i : Nat) (k : Chunk) (slots : Slots) : Prop where
  comes : ∃ w, (upTo n c orders t sink r i).result = .ok w
  collects : (collect n c orders t i k.slots (upTo n c orders t sink r i).run).1 = .ok slots
  result : (t.coder.recover slots (t.descriptor.chunkLen i)
    (upTo n c orders t sink r i).sink).result = .ok ()

end

section
variable {n : Network σ} {c : Settings} {orders : Run.Orders} {t : Target} {sink : Sink} {r : Run σ}
  {i : Nat} {k : Chunk}

theorem upTo_length : upTo n c orders t sink r t.descriptor.chunks.length
    = recoverChunks n c orders t 0 0 t.descriptor.chunks sink r := by
  rw [upTo, List.take_length]

theorem upTo_past (hk : t.descriptor.chunks[i]? = none) :
    upTo n c orders t sink r (i + 1) = upTo n c orders t sink r i := by
  have hlen := List.getElem?_eq_none_iff.1 hk
  rw [upTo, upTo, List.take_of_length_le hlen, List.take_of_length_le (Nat.le_succ_of_le hlen)]

/-! ## one chunk more -/

section
variable (hk : t.descriptor.chunks[i]? = some k)
include hk

theorem take_chunks : t.descriptor.chunks.take (i + 1) = t.descriptor.chunks.take i ++ [k] := by
  rw [List.take_add_one, hk]
  rfl

theorem upTo_of_error {e : RecoveryError} (h : (upTo n c orders t sink r i).result = .error e) :
    upTo n c orders t sink r (i + 1) = upTo n c orders t sink r i := by
  rw [upTo, take_chunks hk]
  exact (recoverChunks_append n c orders t _ [k] 0 0 sink r).1 e h

theorem upTo_of_ok {w : UInt64} (h : (upTo n c orders t sink r i).result = .ok w) :
    upTo n c orders t sink r (i + 1)
      = recoverChunks n c orders t i w [k] (upTo n c orders t sink r i).sink
          (upTo n c orders t sink r i).run := by
  have hlen : (t.descriptor.chunks.take i).length = i :=
    List.length_take_of_le (Nat.le_of_lt (List.getElem?_eq_some_iff.1 hk).1)
  have hgo := (recoverChunks_append n c orders t (t.descriptor.chunks.take i) [k] 0 0 sink r).2 w h
  rw [hlen, Nat.zero_add] at hgo
  rw [upTo, take_chunks hk]
  exact hgo

theorem upTo_stop {w : UInt64} {e : RecoveryError}
    (h : (upTo n c orders t sink r i).result = .ok w)
    (hc : (collect n c orders t i k.slots (upTo n c orders t sink r i).run).1 = .error e) :
    (upTo n c orders t sink r (i + 1)).result = .error e
      ∧ (upTo n c orders t sink r (i + 1)).sink = (upTo n c orders t sink r i).sink := by
  rw [upTo_of_ok hk h, recoverChunks_stop n c orders t i w [] _ _ hc]
  exact ⟨rfl, rfl⟩

theorem upTo_fail {w : UInt64} {slots : Slots} {e : ErasureError}
    (h : (upTo n c orders t sink r i).result = .ok w)
    (hc : (collect n c orders t i k.slots (upTo n c orders t sink r i).run).1 = .ok slots)
    (hd : (t.coder.recover slots (t.descriptor.chunkLen i)
      (upTo n c orders t sink r i).sink).result = .error e) :
    (upTo n c orders t sink r (i + 1)).result = .error (.erasure e)
      ∧ (upTo n c orders t sink r (i + 1)).sink = (t.coder.recover slots (t.descriptor.chunkLen i)
          (upTo n c orders t sink r i).sink).sink := by
  rw [upTo_of_ok hk h, recoverChunks_fail n c orders t i w [] _ _ hc hd]
  exact ⟨rfl, rfl⟩

theorem Decodes.next {slots : Slots} (h : Decodes n c orders t sink r i k slots) :
    (∃ w, (upTo n c orders t sink r (i + 1)).result = .ok w)
      ∧ (upTo n c orders t sink r (i + 1)).sink = (t.coder.recover slots (t.descriptor.chunkLen i)
          (upTo n c orders t sink r i).sink).sink := by
  obtain ⟨w, hw⟩ := h.comes
  rw [upTo_of_ok hk hw, recoverChunks_go n c orders t i w [] _ _ h.collects h.result]
  exact ⟨⟨_, rfl⟩, rfl⟩

variable (n c orders sink r) in
theorem upTo_cases :
    (∃ e, (upTo n c orders t sink r i).result = .error e
        ∧ upTo n c orders t sink r (i + 1) = upTo n c orders t sink r i)
      ∨ (∃ w e, (upTo n c orders t sink r i).result = .ok w
        ∧ (collect n c orders t i k.slots (upTo n c orders t sink r i).run).1 = .error e
        ∧ (upTo n c orders t sink r (i + 1)).result = .error e)
      ∨ (∃ w slots e, (upTo n c orders t sink r i).result = .ok w
        ∧ (collect n c orders t i k.slots (upTo n c orders t sink r i).run).1 = .ok slots
        ∧ (t.coder.recover slots (t.descriptor.chunkLen i)
            (upTo n c orders t sink r i).sink).result = .error e
        ∧ (upTo n c orders t sink r (i + 1)).result = .error (.erasure e))
      ∨ ∃ slots, Decodes n c orders t sink r i k slots := by
  cases h : (upTo n c orders t sink r i).result with
  | error e => exact .inl ⟨e, rfl, upTo_of_error hk h⟩
  | ok w =>
    cases hc : (collect n c orders t i k.slots (upTo n c orders t sink r i).run).1 with
    | error e => exact .inr (.inl ⟨w, e, rfl, rfl, (upTo_stop hk h hc).1⟩)
    | ok slots =>
      cases hd : (t.coder.recover slots (t.descriptor.chunkLen i)
          (upTo n c orders t sink r i).sink).result with
      | error e => exact .inr (.inr (.inl ⟨w, slots, e, rfl, rfl, hd, (upTo_fail hk h hc hd).1⟩))
      | ok _ => exact .inr (.inr (.inr ⟨slots, ⟨w, h⟩, hc, hd⟩))

end

/-! ## all chunks before the end -/

/-- before a place that the recovery comes to, every chunk is decoded -/
theorem upTo_ok {j : Nat} {w : UInt64} (h : (upTo n c orders t sink r j).result = .ok w)
    (hi : i < j) (hk : t.descriptor.chunks[i]? = some k) :
    ∃ slots, Decodes n c orders t sink r i k slots := by
  induction j generalizing w with
  | zero => exact absurd hi (Nat.not_lt_zero i)
  | succ j ih =>
    have hprev : ∃ w', (upTo n c orders t sink r j).result = .ok w' := by
      cases hj : t.descriptor.chunks[j]? with
      | none => exact ⟨w, upTo_past hj ▸ h⟩
      | some k' =>
        cases hr : (upTo n c orders t sink r j).result with
        | ok w' => exact ⟨w', rfl⟩
        | error e =>
          rw [upTo_of_error hj hr, hr] at h
          cases h
    obtain ⟨w', hw'⟩ := hprev
    rcases Nat.lt_or_ge i j with hlt | hge
    · exact ih hw' hlt
    · obtain rfl : i = j := by omega
      rcases upTo_cases n c orders sink r hk with
        ⟨e, he, -⟩ | ⟨_, e, -, -, he⟩ | ⟨_, _, e, -, -, -, he⟩ | hdone
      · rw [hw'] at he
        cases he
      · rw [h] at he
        cases he
      · rw [h] at he
        cases he
      · exact hdone

/-- a recovery that fails does so with a chunk that it comes to, for want of pieces or in decoding
those that it collected -/
theorem upTo_error {j : Nat} {e : RecoveryError}
    (h : (upTo n c orders t sink r j).result = .error e) :
    ∃ i k w, t.descriptor.chunks[i]? = some k ∧ (upTo n c orders t sink r i).result = .ok w
      ∧ ((collect n c orders t i k.slots (upTo n c orders t sink r i).run).1 = .error e
        ∨ ∃ slots e',
          (collect n c orders t i k.slots (upTo n c orders t sink r i).run).1 = .ok slots
          ∧ (t.coder.recover slots (t.descriptor.chunkLen i)
              (upTo n c orders t sink r i).sink).result = .error e' ∧ e = .erasure e') := by
  induction j with
  | zero => cases h
  | succ j ih =>
    cases hj : t.descriptor.chunks[j]? with
    | none => exact ih (upTo_past hj ▸ h)
    | some k =>
      rcases upTo_cases n c orders sink r hj with
        ⟨e', he', hsame⟩ | ⟨w, e', hw, hc, he'⟩ | ⟨w, slots, e', hw, hc, hd, he'⟩ | ⟨slots, hdone⟩
      · rw [hsame] at h
        exact ih h
      · rw [h] at he'
        cases he'
        exact ⟨j, k, w, hj, hw, .inl hc⟩
      · rw [h] at he'
        cases he'
        exact ⟨j, k, w, hj, hw, .inr ⟨slots, e', hc, hd, rfl⟩⟩
      · obtain ⟨⟨w, hw⟩, -⟩ := hdone.next hj
        rw [h] at hw
        cases hw

/-! ## what is written -/

theorem Decodes.fed {slots : Slots} (h : Decodes n c orders t sink r i k slots)
    (hk : t.descriptor.chunks[i]? = some k) :
    Sink.Fed ((t.coder.decoded slots).take (t.descriptor.chunkLen i))
      (upTo n c orders t sink r i).sink (upTo n c orders t sink r (i + 1)).sink := by
  rw [(h.next hk).2]
  exact (Coder.acceptable_of_recover_ok h.result).recover_fed h.result

theorem Decodes.length {slots : Slots} (h : Decodes n c orders t sink r i k slots) :
    ((t.coder.decoded slots).take (t.descriptor.chunkLen i)).length = t.descriptor.chunkLen i :=
  (Coder.acceptable_of_recover_ok h.result).length_take_decoded

theorem upTo_fed {w : UInt64} (hi : i ≤ t.descriptor.chunks.length)
    (h : (upTo n c orders t sink r i).result = .ok w) :
    ∃ out : Bytes, out.length = t.descriptor.before i
      ∧ Sink.Fed out sink (upTo n c orders t sink r i).sink := by
  induction i generalizing w with
  | zero =>
    refine ⟨[], t.descriptor.before_zero.symm, ?_⟩
    exact Sink.fed_nil sink
  | succ i ih =>
    have hk : t.descriptor.chunks[i]? = some t.descriptor.chunks[i] := List.getElem?_eq_getElem hi
    obtain ⟨slots, hdone⟩ := upTo_ok h (Nat.lt_succ_self i) hk
    obtain ⟨w', hw'⟩ := hdone.comes
    obtain ⟨out, hlen, hfed⟩ := ih (Nat.le_of_lt hi) hw'
    refine ⟨_, ?_, hfed.trans (hdone.fed hk)⟩
    rw [List.length_append, hlen, hdone.length, t.descriptor.before_add_chunkLen]

theorem upTo_prefix {j : Nat} (hij : i ≤ j) :
    (upTo n c orders t sink r i).sink.bytes <+: (upTo n c orders t sink r j).sink.bytes := by
  induction hij with
  | refl => exact List.prefix_rfl
  | @step j _ ih =>
    refine ih.trans ?_
    cases hj : t.descriptor.chunks[j]? with
    | none => rw [upTo_past hj]
    | some k =>
      rcases upTo_cases n c orders sink r hj with
        ⟨e, -, hsame⟩ | ⟨w, e, hw, hc, -⟩ | ⟨w, slots, e, hw, hc, hd, -⟩ | ⟨slots, hdone⟩
      · rw [hsame]
      · rw [(upTo_stop hj hw hc).2]
      · rw [(upTo_fail hj hw hc hd).2]
        exact Coder.recover_prefix ..
      · rw [(hdone.next hj).2]
        exact Coder.recover_prefix ..

variable (n orders sink) in
theorem upTo_sound (hv : t.descriptor.Valid) (hr : r.Sound c) (i : Nat) :
    (upTo n c orders t sink r i).run.Sound c :=
  (recoverChunks_leads orders (t.descriptor.chunks.take i)
    (fun k hk => hv.slots k (List.mem_of_mem_take hk)) 0 0 sink r (spares_all n c r.wire)
    hr).sound hr

end

end Reclaim.Recovery

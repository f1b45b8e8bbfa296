import Reclaim.Proofs.Recovery.Chunks
import Reclaim.Proofs.Recovery.Recover

/-!
# Two recoveries side by side

Two recoveries of one file, from the same hosts or from others.  All that a recovery does with hosts
is to try claimed copies and to search for sectors; if both get the same each time, they come to
the same.

* `Run.Paired`      the same result, and runs that stand in a given relation;
* `Abreast`         a relation of runs that is kept by whatever a recovery does, with the same
                    sectors being got;
* `collect_abreast`, `recoverChunks_abreast`   then the same pieces are collected, and the recoveries
                    come to the same, write the same, and leave runs in that relation.
-/

namespace Reclaim

variable {σ σ' : Type}

/-- the same result, with runs that stand in the relation `T` -/
def Run.Paired {α : Type} (T : Run σ → Run σ' → Prop) (x : α × Run σ) (x' : α × Run σ') : Prop :=
  x.1 = x'.1 ∧ T x.2 x'.2

namespace Recovery

open Run

/-- runs that are in the relation `T` get the same sectors, and are in it afterwards -/
structure Abreast (n : Network σ) (c : Settings) (orders : Orders) (n' : Network σ') (c' : Settings)
    (orders' : Orders) (T : Run σ → Run σ' → Prop) : Prop where
  claims : ∀ refs r r', T r r' → Paired T (fetchAny n c refs r) (fetchAny n' c' refs r')
  searches : ∀ root r r', T r r' →
    Paired T (race n c orders root r) (race n' c' orders' root r')
  chunks : ∀ t chunk r r', T r r' → T (chunkDone t chunk r) (chunkDone t chunk r')

section
variable {n : Network σ} {c : Settings} {orders : Orders} {n' : Network σ'} {c' : Settings}
  {orders' : Orders} {T : Run σ → Run σ' → Prop} {r : Run σ} {r' : Run σ'}
  (h : Abreast n c orders n' c' orders' T) (t : Target) (chunk : Nat)
include h

theorem tryClaims_abreast (piece : Nat) (slots : List (List SectorRef)) (k : Collected)
    (hr : T r r') :
    Paired T (tryClaims n c t chunk piece slots k r) (tryClaims n' c' t chunk piece slots k r') := by
  induction slots generalizing piece k r r' with
  | nil => exact ⟨rfl, hr⟩
  | cons slot rest ih =>
    rw [tryClaims, tryClaims]
    split
    · exact ⟨rfl, hr⟩
    · split
      · exact ih _ _ hr
      · obtain ⟨he, hafter⟩ := h.claims slot r r' hr
        dsimp only
        rw [← he]
        cases (fetchAny n c slot r).1 with
        | some sector => exact ih _ _ hafter
        | none => exact ih _ _ hafter

theorem search_abreast (slots : List (List SectorRef)) (pieces : List Nat) (k : Collected)
    (hr : T r r') :
    Paired T (search n c orders t chunk slots pieces k r)
      (search n' c' orders' t chunk slots pieces k r') := by
  induction pieces generalizing k r r' with
  | nil => exact ⟨rfl, hr⟩
  | cons piece rest ih =>
    rw [search, search]
    split
    · exact ⟨rfl, hr⟩
    · obtain ⟨he, hafter⟩ := h.searches (searchRoot slots piece) r r' hr
      dsimp only
      rw [← he]
      cases (race n c orders (searchRoot slots piece) r).1 with
      | some sector => exact ih _ hafter
      | none => exact ih _ hafter

theorem collect_abreast (slots : List (List SectorRef)) (hr : T r r') :
    Paired T (collect n c orders t chunk slots r) (collect n' c' orders' t chunk slots r') := by
  obtain ⟨he, hafter⟩ := tryClaims_abreast h t chunk 0 slots
    (Collected.none t.descriptor.numPieces) hr
  have hgathered : Paired T (gathered n c orders t chunk slots r)
      (gathered n' c' orders' t chunk slots r') := by
    unfold gathered
    dsimp only
    rw [← he]
    split
    · exact search_abreast h t chunk slots _ _ hafter
    · exact ⟨he, hafter⟩
  rw [collect_eq, collect_eq, ← hgathered.1]
  split
  · exact ⟨rfl, hgathered.2⟩
  · exact ⟨rfl, hgathered.2⟩

/-- all chunks -/
theorem recoverChunks_abreast (ks : List Chunk) (written : UInt64) (sink : Sink) (hr : T r r') :
    (recoverChunks n c orders t chunk written ks sink r).result
        = (recoverChunks n' c' orders' t chunk written ks sink r').result
      ∧ (recoverChunks n c orders t chunk written ks sink r).sink
        = (recoverChunks n' c' orders' t chunk written ks sink r').sink
      ∧ T (recoverChunks n c orders t chunk written ks sink r).run
          (recoverChunks n' c' orders' t chunk written ks sink r').run := by
  induction ks generalizing chunk written sink r r' with
  | nil => exact ⟨rfl, rfl, hr⟩
  | cons k rest ih =>
    obtain ⟨he, hafter⟩ := collect_abreast h t chunk k.slots hr
    cases hcollect : (collect n c orders t chunk k.slots r).1 with
    | error e =>
      rw [recoverChunks_stop n c orders t chunk written rest sink r hcollect,
        recoverChunks_stop n' c' orders' t chunk written rest sink r' (he.symm.trans hcollect)]
      exact ⟨rfl, rfl, hafter⟩
    | ok slots =>
      have hcollect' := he.symm.trans hcollect
      cases hd : (t.coder.recover slots (t.descriptor.chunkLen chunk) sink).result with
      | error e =>
        rw [recoverChunks_fail n c orders t chunk written rest sink r hcollect hd,
          recoverChunks_fail n' c' orders' t chunk written rest sink r' hcollect' hd]
        exact ⟨rfl, rfl, hafter⟩
      | ok _ =>
        rw [recoverChunks_go n c orders t chunk written rest sink r hcollect hd,
          recoverChunks_go n' c' orders' t chunk written rest sink r' hcollect' hd]
        exact ih _ _ _ (h.chunks t chunk _ _ hafter)

end

end Recovery

end Reclaim

import Mathlib.Data.List.InsertIdx
import Mathlib.Data.List.Perm.Basic
import Reclaim.Proofs.Pool.Rules

/-!
# Every item is settled once

A pool that keeps a ledger: the items whose results were delivered, each as often as it was there.

* `Booked`      jobs and a handler that keep the shared state in accord with the ledger, each job
                knowing which item it belongs to;
* `Accounted`   at every step an item is settled, running or queued;
* `run_books`   a run that is not cut short settles all items, and one that is cut short ends with
                the result of one of them.
-/

namespace Reclaim.Pool

variable {σ ι τ α : Type}

/-- jobs and a handler that keep the books: `D l` holds of the shared state when the items `l` are
settled, the latest first, and `B i` is what is known of a burst of the job of item `i` -/
structure Booked (p : Plan σ ι τ α) (items : ι → Prop) (D : List ι → σ → Prop)
    (B : ι → σ → Burst τ α → Prop) : Prop where
  start : ∀ i l s, items i → D l s → D l (p.work.start i s).2
    ∧ B i (p.work.start i s).2 (p.work.start i s).1 ∧ ∀ j b, B j s b → B j (p.work.start i s).2 b
  resume : ∀ i ms t l s, items i → D l s → B i s (.wait ms t) → D l (p.work.resume t s).2
    ∧ B i (p.work.resume t s).2 (p.work.resume t s).1
    ∧ ∀ j b, B j s b → B j (p.work.resume t s).2 b
  deliver : ∀ i a l s, items i → D l s → B i s (.done a) → (p.deliver a s).1 = false →
    D (i :: l) (p.deliver a s).2 ∧ ∀ j b, B j s b → B j (p.deliver a s).2 b

/-- every item of `all` is settled, running or queued, as often as it is there -/
structure Accounted (D : List ι → σ → Prop) (B : ι → σ → Burst τ α → Prop) (all : List ι)
    (s : State σ ι τ α) (settled : List ι) (jobs : List (ι × Running τ α)) : Prop where
  running : jobs.map Prod.snd = s.running
  bursts : ∀ j ∈ jobs, B j.1 s.shared j.2.burst
  all : (settled ++ jobs.map Prod.fst ++ s.queue).Perm all
  books : D settled s.shared

section
variable {p : Plan σ ι τ α} {items : ι → Prop} {D : List ι → σ → Prop}
  {B : ι → σ → Burst τ α → Prop} {all : List ι} {s s' : State σ ι τ α} {settled : List ι}
  {jobs : List (ι × Running τ α)}

theorem Accounted.mem (h : Accounted D B all s settled jobs) :
    (∀ i ∈ s.queue, i ∈ all) ∧ ∀ j ∈ jobs, j.1 ∈ all := by
  refine ⟨fun i hi => h.all.subset (List.mem_append_right _ hi), fun j hj => h.all.subset ?_⟩
  exact List.mem_append_left _ (List.mem_append_right _ (List.mem_map_of_mem hj))

theorem Accounted.picked (h : Accounted D B all s settled jobs) {r : Running τ α}
    (hr : s.running[pick p s]? = some r) {b : Burst τ α} (hbr : r.burst = b) :
    ∃ (i : ι) (hlt : pick p s < jobs.length),
      jobs[pick p s] = (i, r) ∧ i ∈ all ∧ B i s.shared b := by
  rw [← h.running, List.getElem?_map] at hr
  obtain ⟨j, hj, rfl⟩ := Option.map_eq_some_iff.1 hr
  obtain ⟨hlt, e⟩ := List.getElem?_eq_some_iff.1 hj
  have hmem : j ∈ jobs := e ▸ List.getElem_mem hlt
  exact ⟨j.1, hlt, e, h.mem.2 j hmem, hbr ▸ h.bursts j hmem⟩

theorem Accounted.moved (hb : Booked p items D B) (hall : ∀ i ∈ all, items i)
    (h : Accounted D B all s settled jobs) (hm : Moved p s s') :
    ∃ settled' jobs', Accounted D B all s' settled' jobs' := by
  cases hm with
  | started item rest hq hl =>
    have hi : items item := hall _ (h.mem.1 _ (by rw [hq]; exact List.mem_cons_self))
    obtain ⟨h1, h2, h3⟩ := hb.start item settled s.shared hi h.books
    refine ⟨settled, jobs ++ [(item, Running.of s.now (p.work.start item s.shared).1)],
      ⟨?_, fun j hj => ?_, ?_, h1⟩⟩
    · rw [List.map_append, h.running]
      rfl
    · rcases List.mem_append.1 hj with hj | hj
      · exact h3 _ _ (h.bursts j hj)
      · rw [List.mem_singleton.1 hj, burst_of]
        exact h2
    · have e := h.all
      rw [hq] at e
      rw [List.map_append, ← List.append_assoc, List.append_assoc _ _ rest]
      exact e
  | delivered r a hf hr hbr hstop =>
    obtain ⟨i, hlt, e, hi, hburst⟩ := h.picked hr hbr
    obtain ⟨h1, h2⟩ := hb.deliver i a settled s.shared (hall i hi) h.books hburst hstop
    refine ⟨i :: settled, jobs.eraseIdx (pick p s), ⟨?_, fun j hj => ?_, ?_, h1⟩⟩
    · rw [← List.eraseIdx_map, h.running]
    · exact h2 _ _ (h.bursts j (List.mem_of_mem_eraseIdx hj))
    · have hperm := (List.getElem_cons_eraseIdx_perm hlt).map Prod.fst
      rw [e] at hperm
      refine List.Perm.trans ?_ h.all
      refine List.Perm.append_right _ ?_
      exact (List.perm_middle.symm.trans (hperm.append_left settled))
  | resumed r ms t hf hr hbr =>
    obtain ⟨i, hlt, e, hi, hburst⟩ := h.picked hr hbr
    obtain ⟨h1, h2, h3⟩ := hb.resume i ms t settled s.shared (hall i hi) h.books hburst
    refine ⟨settled,
      jobs.set (pick p s) (i, Running.of (max s.now r.ready) (p.work.resume t s.shared).1),
      ⟨?_, fun j hj => ?_, ?_, h1⟩⟩
    · rw [List.map_set, h.running]
    · rcases List.mem_or_eq_of_mem_set hj with hj | rfl
      · exact h3 _ _ (h.bursts j hj)
      · rw [burst_of]
        exact h2
    · have hsame : jobs.set (pick p s) (i, r) = jobs := by
        rw [← e]
        exact List.set_getElem_self hlt
      have hset := congrArg (List.map Prod.fst) hsame
      rw [List.map_set] at hset ⊢
      rw [hset]
      exact h.all

/-- a run that is not cut short settles every item, in whatever order the jobs go on; one that is
cut short ends with the result of one of them -/
theorem run_books (hb : Booked p items D B) (l : List ι) (hl : ∀ i ∈ l, items i) (s : σ)
    (h0 : D [] s) :
    ((run p false l s).1 = false → ∃ settled, settled.Perm l ∧ D settled (run p false l s).2)
      ∧ ((run p false l s).1 = true → ∃ settled i a s', i ∈ l ∧ D settled s' ∧ B i s' (.done a)
          ∧ (p.deliver a s').1 = true ∧ (run p false l s).2 = (p.deliver a s').2) := by
  have hrun : run p false l s = runFrom p (initial l s) := if_neg Bool.false_ne_true
  rw [hrun]
  refine runFrom_rule (fun s => ∃ settled jobs, Accounted D B l s settled jobs)
    (fun b sh => (b = false → ∃ settled, settled.Perm l ∧ D settled sh)
      ∧ (b = true → ∃ settled i a s', i ∈ l ∧ D settled s' ∧ B i s' (.done a)
          ∧ (p.deliver a s').1 = true ∧ sh = (p.deliver a s').2))
    (fun s s' ⟨_, _, h⟩ hm => h.moved hb hl hm) ?_ (initial l s)
    ⟨[], [], ⟨rfl, fun j hj => absurd hj List.not_mem_nil, List.Perm.refl l, h0⟩⟩
  rintro s b sh ⟨settled, jobs, h⟩ he
  cases he with
  | idle hq hr =>
    refine ⟨fun _ => ⟨settled, ?_, h.books⟩, fun hb => by cases hb⟩
    have hnone : jobs = [] := List.map_eq_nil_iff.1 (h.running.trans hr)
    have e := h.all
    rw [hq, hnone, List.map_nil, List.append_nil, List.append_nil] at e
    exact e
  | stopped r a hr hbr hstop =>
    obtain ⟨i, -, -, hi, hburst⟩ := h.picked hr hbr
    exact ⟨fun hb => (by cases hb), fun _ =>
      ⟨settled, i, a, s.shared, hi, h.books, hburst, hstop, rfl⟩⟩

end

end Reclaim.Pool

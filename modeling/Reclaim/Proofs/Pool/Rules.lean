import Mathlib.Data.List.Basic
import Reclaim.Pool

/-!
# What a pool preserves

* `Moved`, `Ended`   everything that a step of a pool can do;
* `runFrom_rule`     what every step preserves holds of the end of a run;
* `Work.Keeps`       jobs that keep an invariant of the shared state, and what they wait for in
                     accord with it;
* `perform_keeps`, `run_keeps`   the same of a job on its own, and of all jobs in any order;
* `run_stops`        a job that is bound to succeed is not missed;
* `run_paired`       two pools that have room for one job only and whose jobs are over at once.
-/

namespace Reclaim

variable {σ ι τ α : Type}

namespace Pool

/-! ## one step -/

theorem burst_of (now : Nat) (b : Burst τ α) : (Running.of now b).burst = b := by
  cases b <;> rfl

theorem limit_pos (p : Plan σ ι τ α) : 0 < p.limit := Nat.le_max_right _ _

/-- nothing can be started: all items are, or there is no room -/
def Full (p : Plan σ ι τ α) (s : State σ ι τ α) : Prop :=
  s.queue = [] ∨ p.limit ≤ s.running.length

/-- what a step that goes on leads to -/
inductive Moved (p : Plan σ ι τ α) (s : State σ ι τ α) : State σ ι τ α → Prop
  | started (item : ι) (rest : List ι) (hq : s.queue = item :: rest)
      (hl : s.running.length < p.limit) :
      Moved p s ⟨s.count + 1, s.now, rest,
        s.running ++ [Running.of s.now (p.work.start item s.shared).1],
        (p.work.start item s.shared).2⟩
  | delivered (r : Running τ α) (a : α) (hf : Full p s) (hr : s.running[pick p s]? = some r)
      (hb : r.burst = .done a) (hd : (p.deliver a s.shared).1 = false) :
      Moved p s ⟨s.count + 1, max s.now r.ready, s.queue, s.running.eraseIdx (pick p s),
        (p.deliver a s.shared).2⟩
  | resumed (r : Running τ α) (ms : Nat) (t : τ) (hf : Full p s)
      (hr : s.running[pick p s]? = some r) (hb : r.burst = .wait ms t) :
      Moved p s ⟨s.count + 1, max s.now r.ready, s.queue,
        s.running.set (pick p s) (Running.of (max s.now r.ready) (p.work.resume t s.shared).1),
        (p.work.resume t s.shared).2⟩

/-- what a last step leaves behind: nothing was left to do, or the handler had enough -/
inductive Ended (p : Plan σ ι τ α) (s : State σ ι τ α) : Bool → σ → Prop
  | idle (hq : s.queue = []) (hr : s.running = []) : Ended p s false s.shared
  | stopped (r : Running τ α) (a : α) (hr : s.running[pick p s]? = some r) (hb : r.burst = .done a)
      (hd : (p.deliver a s.shared).1 = true) : Ended p s true (p.deliver a s.shared).2

variable {p : Plan σ ι τ α} {s : State σ ι τ α}

theorem moved_of_advance {s' : State σ ι τ α} (hf : Full p s) (h : advance p s = .next s') :
    Moved p s s' := by
  unfold advance at h
  simp only at h
  split at h
  · cases h
  · next r hr =>
    split at h
    · next a hb =>
      split at h
      · cases h
      · next hd =>
        cases h
        exact .delivered r a hf hr hb (Bool.eq_false_iff.2 hd)
    · next ms t hb =>
      cases h
      exact .resumed r ms t hf hr hb

theorem moved_of_step {s' : State σ ι τ α} (h : step p s = .next s') : Moved p s s' := by
  unfold step at h
  split at h
  · next item rest hq =>
    split at h
    · next hl =>
      cases h
      exact .started item rest hq hl
    · next hl => exact moved_of_advance (.inr (Nat.le_of_not_lt hl)) h
  · next hq => exact moved_of_advance (.inl hq) h

theorem pick_lt (h : s.running ≠ []) : pick p s < s.running.length := by
  have := List.length_pos_iff.2 h
  unfold pick
  omega

theorem ended_of_advance {b : Bool} {sh : σ} (hf : Full p s) (h : advance p s = .ended b sh) :
    Ended p s b sh := by
  unfold advance at h
  simp only at h
  split at h
  · next hr =>
    cases h
    have hnone : s.running = [] := by
      by_contra hne
      exact absurd (List.getElem?_eq_none_iff.1 hr) (Nat.not_le.2 (pick_lt hne))
    rcases hf with hq | hl
    · exact .idle hq hnone
    · rw [hnone] at hl
      exact absurd (limit_pos p) (Nat.not_lt.2 hl)
  · next r hr =>
    split at h
    · next a hb =>
      split at h
      · next hd =>
        cases h
        exact .stopped r a hr hb hd
      · cases h
    · cases h

theorem ended_of_step {b : Bool} {sh : σ} (h : step p s = .ended b sh) : Ended p s b sh := by
  unfold step at h
  split at h
  · split at h
    · cases h
    · next hl => exact ended_of_advance (.inr (Nat.le_of_not_lt hl)) h
  · next hq => exact ended_of_advance (.inl hq) h

/-! ## all steps -/

theorem runFrom_rule (Inv : State σ ι τ α → Prop) (Post : Bool → σ → Prop)
    (hm : ∀ s s', Inv s → Moved p s s' → Inv s')
    (he : ∀ s b sh, Inv s → Ended p s b sh → Post b sh) (s : State σ ι τ α) (h : Inv s) :
    Post (runFrom p s).1 (runFrom p s).2 := by
  induction s using runFrom.induct p with
  | case1 s b sh hs =>
    rw [runFrom, hs]
    exact he s b sh h (ended_of_step hs)
  | case2 s s' hs ih =>
    rw [runFrom, hs]
    exact ih (hm s s' h (moved_of_step hs))

end Pool

/-! ## jobs that keep an invariant -/

/-- jobs over some items that keep the invariant `J`; `B` is what is known of a burst that has not
been looked at yet, and no job makes it untrue of the others -/
structure Work.Keeps (w : Work σ ι τ α) (items : ι → Prop) (J : σ → Prop)
    (B : σ → Burst τ α → Prop) : Prop where
  start : ∀ i s, items i → J s → J (w.start i s).2 ∧ B (w.start i s).2 (w.start i s).1
    ∧ ∀ b, B s b → B (w.start i s).2 b
  resume : ∀ ms t s, J s → B s (.wait ms t) → J (w.resume t s).2
    ∧ B (w.resume t s).2 (w.resume t s).1 ∧ ∀ b, B s b → B (w.resume t s).2 b

namespace Work

variable {w : Work σ ι τ α} {items : ι → Prop} {J : σ → Prop} {B : σ → Burst τ α → Prop}

theorem finish_keeps (hw : w.Keeps items J B) (b : Burst τ α) (s : σ) (hj : J s) (hb : B s b) :
    J (w.finish b s).2 ∧ B (w.finish b s).2 (.done (w.finish b s).1) := by
  induction b, s using finish.induct w with
  | case1 s a =>
    rw [finish]
    exact ⟨hj, hb⟩
  | case2 s ms t a s' h =>
    obtain ⟨h1, h2, -⟩ := hw.resume ms t s hj hb
    rw [h] at h1 h2
    rw [finish, h]
    exact ⟨h1, h2⟩
  | case3 s ms t ms' t' s' h ih =>
    obtain ⟨h1, h2, -⟩ := hw.resume ms t s hj hb
    rw [h] at h1 h2
    rw [finish, h]
    exact ih h1 h2

theorem perform_keeps (hw : w.Keeps items J B) (i : ι) (hi : items i) (s : σ) (hj : J s) :
    J (w.perform i s).2 ∧ B (w.perform i s).2 (.done (w.perform i s).1) := by
  obtain ⟨h1, h2, -⟩ := hw.start i s hi hj
  exact finish_keeps hw _ _ h1 h2

end Work

namespace Pool

section
variable {p : Plan σ ι τ α} {items : ι → Prop} {J : σ → Prop} {B : σ → Burst τ α → Prop}

/-- the invariant of a pool whose jobs keep `J` -/
structure Sound (items : ι → Prop) (J : σ → Prop) (B : σ → Burst τ α → Prop)
    (s : State σ ι τ α) : Prop where
  shared : J s.shared
  running : ∀ r ∈ s.running, B s.shared r.burst
  queue : ∀ i ∈ s.queue, items i

theorem sound_initial (l : List ι) (hl : ∀ i ∈ l, items i) (s : σ) (hj : J s) :
    Sound items J B (initial l s) :=
  ⟨hj, fun _ hr => absurd hr List.not_mem_nil, hl⟩

variable (hw : p.work.Keeps items J B)
  (hd : ∀ a s, J s → B s (.done a) →
    J (p.deliver a s).2 ∧ ∀ b, B s b → B (p.deliver a s).2 b)
include hw hd

theorem Sound.moved {s s' : State σ ι τ α} (h : Sound items J B s) (hm : Moved p s s') :
    Sound items J B s' := by
  cases hm with
  | started item rest hq hl =>
    have hi : items item := h.queue item (by rw [hq]; exact List.mem_cons_self)
    obtain ⟨h1, h2, h3⟩ := hw.start item s.shared hi h.shared
    refine ⟨h1, ?_, fun i hr => h.queue i (by rw [hq]; exact List.mem_cons_of_mem _ hr)⟩
    intro r hr
    rcases List.mem_append.1 hr with hr | hr
    · exact h3 _ (h.running r hr)
    · rw [List.mem_singleton.1 hr, burst_of]
      exact h2
  | delivered r a hf hr hb hstop =>
    have hbr := h.running r (List.mem_of_getElem? hr)
    rw [hb] at hbr
    obtain ⟨h1, h2⟩ := hd a s.shared h.shared hbr
    exact ⟨h1, fun r' hr' => h2 _ (h.running r' (List.mem_of_mem_eraseIdx hr')), h.queue⟩
  | resumed r ms t hf hr hb =>
    have hbr := h.running r (List.mem_of_getElem? hr)
    rw [hb] at hbr
    obtain ⟨h1, h2, h3⟩ := hw.resume ms t s.shared h.shared hbr
    refine ⟨h1, ?_, h.queue⟩
    intro r' hr'
    rcases List.mem_or_eq_of_mem_set hr' with hr' | rfl
    · exact h3 _ (h.running r' hr')
    · rw [burst_of]
      exact h2

/-- all jobs keep the invariant in whatever order they go on, and a run that was cut short ended
with a result in accord with it -/
theorem run_keeps (l : List ι) (hl : ∀ i ∈ l, items i) (s : σ) (hj : J s) :
    J (run p false l s).2 ∧ ((run p false l s).1 = true →
      ∃ a s', J s' ∧ B s' (.done a) ∧ (p.deliver a s').1 = true
        ∧ (run p false l s).2 = (p.deliver a s').2) := by
  have hrun : run p false l s = runFrom p (initial l s) := if_neg Bool.false_ne_true
  rw [hrun]
  refine runFrom_rule (Sound items J B)
    (fun b sh => J sh ∧ (b = true → ∃ a s', J s' ∧ B s' (.done a) ∧ (p.deliver a s').1 = true
      ∧ sh = (p.deliver a s').2))
    (fun s s' h hm => h.moved hw hd hm) ?_ _ (sound_initial l hl s hj)
  intro s b sh h he
  cases he with
  | idle hq hr => exact ⟨h.shared, fun hb => by cases hb⟩
  | stopped r a hr hb hstop =>
    have hbr := h.running r (List.mem_of_getElem? hr)
    rw [hb] at hbr
    exact ⟨(hd a s.shared h.shared hbr).1, fun _ => ⟨a, s.shared, h.shared, hbr, hstop, rfl⟩⟩

/-- if the job of one item is on its way to a result that ends the run (`K`), whatever happens in
between, then the run is cut short, by this result or by another -/
theorem run_stops (K : Burst τ α → Prop) (item : ι)
    (hstart : ∀ s, J s → K (p.work.start item s).1)
    (hresume : ∀ ms t s, J s → K (.wait ms t) → K (p.work.resume t s).1)
    (hdone : ∀ a s, J s → K (.done a) → (p.deliver a s).1 = true)
    (l : List ι) (hl : ∀ i ∈ l, items i) (hitem : item ∈ l) (s : σ) (hj : J s) :
    (run p false l s).1 = true := by
  have hrun : run p false l s = runFrom p (initial l s) := if_neg Bool.false_ne_true
  rw [hrun]
  refine runFrom_rule
    (fun s => Sound items J B s ∧ (item ∈ s.queue ∨ ∃ r ∈ s.running, K r.burst))
    (fun b _ => b = true) ?_ ?_ _ ⟨sound_initial l hl s hj, .inl hitem⟩
  · rintro s s' ⟨h, hk⟩ hm
    refine ⟨h.moved hw hd hm, ?_⟩
    cases hm with
    | started i rest hq hlim =>
      rcases hk with hk | ⟨r, hr, hk⟩
      · rw [hq] at hk
        rcases List.mem_cons.1 hk with rfl | hk
        · right
          refine ⟨_, List.mem_append.2 (.inr List.mem_cons_self), ?_⟩
          rw [burst_of]
          exact hstart s.shared h.shared
        · exact .inl hk
      · exact .inr ⟨r, List.mem_append.2 (.inl hr), hk⟩
    | delivered r a hf hr hb hstop =>
      rcases hk with hk | ⟨r', hr', hk⟩
      · exact .inl hk
      · right
        obtain ⟨j, hj⟩ := List.mem_iff_getElem?.1 hr'
        refine ⟨r', List.mem_eraseIdx_iff_getElem?.2 ⟨j, ?_, hj⟩, hk⟩
        rintro rfl
        have e : r = r' := Option.some.inj (hr.symm.trans hj)
        rw [← e, hb] at hk
        rw [hdone a s.shared h.shared hk] at hstop
        cases hstop
    | resumed r ms t hf hr hb =>
      rcases hk with hk | ⟨r', hr', hk⟩
      · exact .inl hk
      · right
        obtain ⟨j, hj⟩ := List.mem_iff_getElem?.1 hr'
        by_cases hji : pick p s = j
        · have e : r = r' := Option.some.inj (hr.symm.trans (by rw [hji]; exact hj))
          rw [← e, hb] at hk
          refine ⟨_, List.mem_set (List.getElem?_eq_some_iff.1 hr).1 _, ?_⟩
          rw [burst_of]
          exact hresume ms t s.shared h.shared hk
        · refine ⟨r', List.mem_of_getElem? (i := j) ?_, hk⟩
          rw [List.getElem?_set_ne hji]
          exact hj
  · rintro s b sh ⟨h, hk⟩ he
    cases he with
    | idle hq hr =>
      rcases hk with hk | ⟨r, hr', _⟩
      · rw [hq] at hk
        cases hk
      · rw [hr] at hr'
        cases hr'
    | stopped r a hr hb hstop => rfl

end

/-! ## one job after the other -/

section
variable {σ' τ' α' : Type} {p : Plan σ ι τ α} {p' : Plan σ' ι τ' α'}

theorem runFrom_nothing (p : Plan σ ι τ α) (count now : Nat) (s : σ) :
    runFrom p ⟨count, now, [], [], s⟩ = (false, s) := by
  rw [runFrom]
  rfl

theorem runFrom_serial (hl : p.limit = 1) {i : ι} {s s₁ : σ} {a : α}
    (hs : p.work.start i s = (.done a, s₁)) (count now : Nat) (rest : List ι) :
    runFrom p ⟨count, now, i :: rest, [], s⟩
      = if (p.deliver a s₁).1 then (true, (p.deliver a s₁).2)
        else runFrom p ⟨count + 2, now, rest, [], (p.deliver a s₁).2⟩ := by
  have hstart : step p ⟨count, now, i :: rest, [], s⟩
      = .next ⟨count + 1, now, rest, [⟨now, .done a⟩], s₁⟩ := by
    rw [step]
    simp only [List.length_nil, hl, Nat.zero_lt_one, if_true, hs]
    rfl
  have hdeliver : step p ⟨count + 1, now, rest, [⟨now, .done a⟩], s₁⟩
      = if (p.deliver a s₁).1 then .ended true (p.deliver a s₁).2
        else .next ⟨count + 2, now, rest, [], (p.deliver a s₁).2⟩ := by
    have hfull : step p ⟨count + 1, now, rest, [⟨now, .done a⟩], s₁⟩
        = advance p ⟨count + 1, now, rest, [⟨now, .done a⟩], s₁⟩ := by
      unfold step
      split
      · exact if_neg (by simp [hl])
      · rfl
    have hpick : pick p ⟨count + 1, now, rest, [⟨now, .done a⟩], s₁⟩ = 0 := by simp [pick]
    rw [hfull, advance]
    simp only [hpick, List.getElem?_cons_zero, Nat.max_self, List.eraseIdx_cons_zero]
  rw [runFrom, hstart]
  dsimp only
  rw [runFrom, hdeliver]
  cases (p.deliver a s₁).1 with
  | true => rfl
  | false => rfl

variable (p p') in
/-- two pools with one job at a time go through the same items in step -/
theorem run_paired (hl : p.limit = 1) (hl' : p'.limit = 1) (J : σ → σ' → Prop) (l : List ι)
    (hstep : ∀ i ∈ l, ∀ s s', J s s' → ∃ a s₁ a' s₁', p.work.start i s = (.done a, s₁)
      ∧ p'.work.start i s' = (.done a', s₁') ∧ (p.deliver a s₁).1 = (p'.deliver a' s₁').1
      ∧ J (p.deliver a s₁).2 (p'.deliver a' s₁').2)
    (s : σ) (s' : σ') (hj : J s s') : J (run p false l s).2 (run p' false l s').2 := by
  have hfrom : ∀ (count now count' now' : Nat) (s : σ) (s' : σ'), J s s' →
      J (runFrom p ⟨count, now, l, [], s⟩).2 (runFrom p' ⟨count', now', l, [], s'⟩).2 := by
    induction l with
    | nil =>
      intro count now count' now' s s' hj
      rw [runFrom_nothing, runFrom_nothing]
      exact hj
    | cons i rest ih =>
      intro count now count' now' s s' hj
      obtain ⟨a, s₁, a', s₁', hs, hs', hstop, hj₁⟩ := hstep i List.mem_cons_self s s' hj
      rw [runFrom_serial hl hs, runFrom_serial hl' hs', ← hstop]
      split
      · exact hj₁
      · exact ih (fun k hk => hstep k (List.mem_cons_of_mem i hk)) _ _ _ _ _ _ hj₁
  have hrun : run p false l s = runFrom p (initial l s) := if_neg Bool.false_ne_true
  have hrun' : run p' false l s' = runFrom p' (initial l s') := if_neg Bool.false_ne_true
  rw [hrun, hrun']
  exact hfrom 0 0 0 0 s s' hj

end

end Pool

end Reclaim

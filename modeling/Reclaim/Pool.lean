/-!
# A bounded pool of jobs

Jobs are started in the order of their items, a bounded number at a time.  A job works in bursts
over a state that all jobs share; between two bursts it waits.  Which of the running jobs goes on
next is up to a schedule, so that what is said of a pool for every schedule holds for every order
in which jobs may finish.

* `Work` a kind of job: how it starts, how it goes on, and why it comes to an end;
* `Pool.step` one start, one burst or one delivery;
* `Pool.run` all steps, until nothing is left or the handler of results has had enough.
-/

namespace Reclaim

/-- the end of a burst: a result, or some milliseconds to wait before going on -/
inductive Burst (τ α : Type) where
  | done (result : α)
  | wait (ms : Nat) (next : τ)

/-- a kind of job over a shared state `σ`, one job for each item of type `ι` -/
structure Work (σ ι τ α : Type) where
  start : ι → σ → Burst τ α × σ
  resume : τ → σ → Burst τ α × σ
  /-- a bound on the bursts still to come -/
  rank : τ → Nat
  rank_resume : ∀ t s ms t', (resume t s).1 = .wait ms t' → rank t' < rank t

namespace Work

variable {σ ι τ α : Type}

/-- a job carried on to its end with nothing else going on -/
def finish (w : Work σ ι τ α) (b : Burst τ α) (s : σ) : α × σ :=
  match b with
  | .done a => (a, s)
  | .wait _ t =>
    match _h : w.resume t s with
    | (.done a, s') => (a, s')
    | (.wait ms t', s') => finish w (.wait ms t') s'
termination_by
  match b with
  | .done _ => 0
  | .wait _ t => w.rank t
decreasing_by
  exact w.rank_resume t s ms t' (by rw [_h])

/-- a whole job with nothing else going on -/
def perform (w : Work σ ι τ α) (item : ι) (s : σ) : α × σ :=
  let r := w.start item s
  w.finish r.1 r.2

end Work

/-- which of the running jobs goes on, given the number of the step and the times at which the
jobs are ready -/
abbrev Schedule := Nat → List Nat → Nat

/-- the place of the first least time, and the time -/
def earliestFrom (place best at_ : Nat) : List Nat → Nat
  | [] => at_
  | t :: r => if t < best then earliestFrom (place + 1) t place r else earliestFrom (place + 1) best at_ r

/-- whoever is ready first goes on, of several the one that was started first -/
def Schedule.byTime : Schedule := fun _ times =>
  match times with
  | [] => 0
  | t :: r => earliestFrom 1 t 0 r

namespace Pool

variable {σ ι τ α : Type}

/-- a job that was started and whose result has not been delivered -/
structure Running (τ α : Type) where
  /-- the time at which it can go on, or its result can be delivered -/
  ready : Nat
  burst : Burst τ α

structure State (σ ι τ α : Type) where
  count : Nat
  now : Nat
  queue : List ι
  /-- jobs in the order in which they were started -/
  running : List (Running τ α)
  shared : σ

/-- what a pool is told: the kind of its jobs, its width, its schedule, and what to do with a
result; the handler answers whether to stop -/
structure Plan (σ ι τ α : Type) where
  work : Work σ ι τ α
  width : Nat
  schedule : Schedule
  deliver : α → σ → Bool × σ

/-- the most jobs that run at a time -/
def Plan.limit (p : Plan σ ι τ α) : Nat := max p.width 1

/-- a job whose burst ended at time `now` -/
def Running.of (now : Nat) : Burst τ α → Running τ α
  | .done a => ⟨now, .done a⟩
  | .wait ms t => ⟨now + ms, .wait ms t⟩

/-- a bound on the steps a running job still takes -/
def Running.rank (w : Work σ ι τ α) (r : Running τ α) : Nat :=
  match r.burst with
  | .done _ => 1
  | .wait _ t => w.rank t + 2

/-- a bound on the steps all running jobs still take -/
def totalRank (w : Work σ ι τ α) (l : List (Running τ α)) : Nat := l.foldr (fun r n => r.rank w + n) 0

/-- the pool ended, cut short or not, or goes on -/
inductive Step (σ ι τ α : Type) where
  | ended (stopped : Bool) (shared : σ)
  | next (s : State σ ι τ α)

def pick (p : Plan σ ι τ α) (s : State σ ι τ α) : Nat :=
  min (p.schedule s.count (s.running.map Running.ready)) (s.running.length - 1)

/-- carry on the running jobs: one burst or one delivery -/
def advance (p : Plan σ ι τ α) (s : State σ ι τ α) : Step σ ι τ α :=
  let i := pick p s
  match s.running[i]? with
  | none => .ended false s.shared
  | some r =>
    let now := max s.now r.ready
    match r.burst with
    | .done a =>
      let d := p.deliver a s.shared
      if d.1 then .ended true d.2
      else .next ⟨s.count + 1, now, s.queue, s.running.eraseIdx i, d.2⟩
    | .wait _ t =>
      let b := p.work.resume t s.shared
      .next ⟨s.count + 1, now, s.queue, s.running.set i (Running.of now b.1), b.2⟩

/-- one step: a start if there is room, otherwise a burst or a delivery -/
def step (p : Plan σ ι τ α) (s : State σ ι τ α) : Step σ ι τ α :=
  match s.queue with
  | item :: rest =>
    if s.running.length < p.limit then
      let b := p.work.start item s.shared
      .next ⟨s.count + 1, s.now, rest, s.running ++ [Running.of s.now b.1], b.2⟩
    else advance p s
  | [] => advance p s

theorem totalRank_cons (w : Work σ ι τ α) (r : Running τ α) (l : List (Running τ α)) :
    totalRank w (r :: l) = r.rank w + totalRank w l := rfl

theorem totalRank_eraseIdx (w : Work σ ι τ α) (l : List (Running τ α)) (i : Nat)
    (h : i < l.length) : totalRank w (l.eraseIdx i) + l[i].rank w = totalRank w l := by
  induction l generalizing i with
  | nil => exact absurd h (Nat.not_lt_zero i)
  | cons a l ih =>
    cases i with
    | zero =>
      rw [List.eraseIdx_cons_zero, List.getElem_cons_zero, totalRank_cons, Nat.add_comm]
    | succ i =>
      have := ih i (Nat.lt_of_succ_lt_succ h)
      rw [List.eraseIdx_cons_succ, List.getElem_cons_succ, totalRank_cons, totalRank_cons]
      omega

theorem totalRank_set (w : Work σ ι τ α) (l : List (Running τ α)) (i : Nat) (r : Running τ α)
    (h : i < l.length) : totalRank w (l.set i r) + l[i].rank w = totalRank w l + r.rank w := by
  induction l generalizing i with
  | nil => exact absurd h (Nat.not_lt_zero i)
  | cons a l ih =>
    cases i with
    | zero =>
      rw [List.set_cons_zero, List.getElem_cons_zero, totalRank_cons, totalRank_cons]
      omega
    | succ i =>
      have := ih i (Nat.lt_of_succ_lt_succ h)
      rw [List.set_cons_succ, List.getElem_cons_succ, totalRank_cons, totalRank_cons]
      omega

theorem rank_pos (w : Work σ ι τ α) (r : Running τ α) : 0 < r.rank w := by
  unfold Running.rank
  split <;> omega

/-- a step that goes on uses up an item or leaves less to do -/
theorem advance_lt (p : Plan σ ι τ α) (s s' : State σ ι τ α) (h : advance p s = .next s') :
    s'.queue = s.queue ∧ totalRank p.work s'.running < totalRank p.work s.running := by
  unfold advance at h
  simp only at h
  split at h
  · cases h
  · next r hr =>
    obtain ⟨hi, hr⟩ := List.getElem?_eq_some_iff.1 hr
    split at h
    · split at h
      · cases h
      · cases h
        have h1 := totalRank_eraseIdx p.work s.running (pick p s) hi
        have h2 := rank_pos p.work s.running[pick p s]
        exact ⟨rfl, by simp only; omega⟩
    · next ms t hb =>
      cases h
      have h1 := totalRank_set p.work s.running (pick p s)
        (Running.of (max s.now r.ready) (p.work.resume t s.shared).1) hi
      have h2 : s.running[pick p s].rank p.work = p.work.rank t + 2 := by
        rw [hr, Running.rank, hb]
      have h3 : (Running.of (max s.now r.ready) (p.work.resume t s.shared).1).rank p.work
          < p.work.rank t + 2 := by
        cases hres : (p.work.resume t s.shared).1 with
        | done a =>
          show 1 < _
          omega
        | wait ms' t' =>
          have := p.work.rank_resume t s.shared ms' t' hres
          show p.work.rank t' + 2 < _
          omega
      exact ⟨rfl, by simp only; omega⟩

theorem step_lt (p : Plan σ ι τ α) (s s' : State σ ι τ α) (h : step p s = .next s') :
    s'.queue.length < s.queue.length
      ∨ s'.queue.length = s.queue.length
        ∧ totalRank p.work s'.running < totalRank p.work s.running := by
  unfold step at h
  split at h
  · next item rest hq =>
    split at h
    · cases h
      left
      rw [hq]
      exact Nat.lt_succ_self _
    · have := advance_lt p s s' h
      right
      exact ⟨congrArg List.length this.1, this.2⟩
  · have := advance_lt p s s' h
    right
    exact ⟨congrArg List.length this.1, this.2⟩

/-- all steps from a state on: whether the run was cut short, and the state the jobs leave behind -/
def runFrom (p : Plan σ ι τ α) (s : State σ ι τ α) : Bool × σ :=
  match _h : step p s with
  | .ended stopped shared => (stopped, shared)
  | .next s' => runFrom p s'
termination_by (s.queue.length, totalRank p.work s.running)
decreasing_by
  rcases step_lt p s s' _h with h | ⟨h1, h2⟩
  · exact Prod.Lex.left _ _ h
  · rw [h1]
    exact Prod.Lex.right _ h2

def initial (items : List ι) (shared : σ) : State σ ι τ α := ⟨0, 0, items, [], shared⟩

/-- run a pool over items; a pool that is cancelled beforehand starts nothing -/
def run (p : Plan σ ι τ α) (cancelled : Bool) (items : List ι) (shared : σ) : Bool × σ :=
  if cancelled then (true, shared) else runFrom p (initial items shared)

end Pool

end Reclaim

import Mathlib.Data.List.Perm.Basic
import Mathlib.Data.Prod.Lex
import Mathlib.Logic.Relation
import Mathlib.Order.WellFounded
import Reclaim.Proofs.Pool.Rules

/-!
# The life of a pool

What a pool may do if its jobs run side by side: a job that was started may not have begun to work,
each of them goes on when it likes, results are handed over in any order, and jobs may still go on
after the handler had enough, until they are dropped.  The pool that takes one step after the other
leads one of these lives.

* `Moment`          a pool at some moment of its life, with a record of what was done;
* `Moment.Next`     all that may happen next;
* `Orderly`         what is true at every moment: no more jobs are in flight than there is room for,
                    items are started in order, and nothing is lost, doubled or handed over after the
                    handler had enough;
* `lives_quiet`     what happens after that;
* `exists_next`, `next_wellFounded`   a life goes on until it is over, and it ends;
* `Mirrors`, `lives_of_runFrom`       a pool taking its steps leads such a life;
* `pool_orderly`    all this together.
-/

namespace Reclaim.Pool

variable {σ ι τ α : Type}

/-- a job in flight: its item, and how its last burst ended if it has begun to work -/
structure Job (ι τ α : Type) where
  item : ι
  burst : Option (Burst τ α)

/-- a result that was handed over, and whether the handler had enough -/
structure Handed (ι α : Type) where
  item : ι
  result : α
  enough : Bool

/-- a pool at some moment of its life -/
structure Moment (σ ι τ α : Type) where
  queue : List ι
  flight : List (Job ι τ α)
  stopped : Bool
  shared : σ
  /-- the items that were started, the first one first -/
  started : List ι
  /-- the results that were handed over, the first one first -/
  handed : List (Handed ι α)
  /-- the items whose jobs were dropped -/
  dropped : List ι

namespace Moment

/-- the moment before anything happens -/
def opening (cancelled : Bool) (items : List ι) (s : σ) : Moment σ ι τ α :=
  ⟨items, [], cancelled, s, [], [], []⟩

/-- all jobs have ended, and no other will be started -/
def Over (m : Moment σ ι τ α) : Prop := m.flight = [] ∧ (m.stopped = true ∨ m.queue = [])

/-- what may happen next -/
inductive Next (p : Plan σ ι τ α) (m : Moment σ ι τ α) : Moment σ ι τ α → Prop
  /-- a job is started, as long as there is room -/
  | started (item : ι) (rest : List ι) (hq : m.queue = item :: rest) (hs : m.stopped = false)
      (hl : m.flight.length < p.limit) :
      Next p m { m with
        queue := rest, flight := m.flight ++ [⟨item, none⟩], started := m.started ++ [item] }
  /-- a job begins to work -/
  | begun (front back : List (Job ι τ α)) (item : ι) (hf : m.flight = front ++ ⟨item, none⟩ :: back) :
      Next p m { m with
        flight := front ++ ⟨item, some (p.work.start item m.shared).1⟩ :: back
        shared := (p.work.start item m.shared).2 }
  /-- a job that waited goes on -/
  | resumed (front back : List (Job ι τ α)) (item : ι) (ms : Nat) (t : τ)
      (hf : m.flight = front ++ ⟨item, some (.wait ms t)⟩ :: back) :
      Next p m { m with
        flight := front ++ ⟨item, some (p.work.resume t m.shared).1⟩ :: back
        shared := (p.work.resume t m.shared).2 }
  /-- a result is handed over, when nothing can be started -/
  | handed (front back : List (Job ι τ α)) (item : ι) (a : α)
      (hf : m.flight = front ++ ⟨item, some (.done a)⟩ :: back) (hs : m.stopped = false)
      (hfull : m.queue = [] ∨ p.limit ≤ m.flight.length) :
      Next p m { m with
        flight := front ++ back
        stopped := (p.deliver a m.shared).1
        shared := (p.deliver a m.shared).2
        handed := m.handed ++ [⟨item, a, (p.deliver a m.shared).1⟩] }
  /-- after the handler had enough, jobs are dropped, whether they have a result or not -/
  | dropped (front back : List (Job ι τ α)) (job : Job ι τ α) (hf : m.flight = front ++ job :: back)
      (hs : m.stopped = true) :
      Next p m { m with flight := front ++ back, dropped := m.dropped ++ [job.item] }

/-- from one moment to a later one -/
abbrev Lives (p : Plan σ ι τ α) : Moment σ ι τ α → Moment σ ι τ α → Prop :=
  Relation.ReflTransGen (Next p)

end Moment

open Moment

/-! ## every moment -/

/-- what the bursts of the job of an item may come to -/
inductive Came (w : Work σ ι τ α) (item : ι) : Burst τ α → Prop
  | start (s : σ) : Came w item (w.start item s).1
  | resume (ms : Nat) (t : τ) (s : σ) (h : Came w item (.wait ms t)) : Came w item (w.resume t s).1

/-- what is true at every moment of the life of a pool over `items` -/
structure Orderly (p : Plan σ ι τ α) (cancelled : Bool) (items : List ι) (m : Moment σ ι τ α) :
    Prop where
  /-- there is a bound on the jobs in flight -/
  bounded : m.flight.length ≤ max p.width 1
  /-- items are started in order, none is left out or started again -/
  inOrder : m.started ++ m.queue = items
  /-- every job that was started had its result handed over, or was dropped, or is in flight -/
  settled : (m.handed.map Handed.item ++ m.dropped ++ m.flight.map Job.item).Perm m.started
  /-- jobs work on their own items -/
  own : ∀ j ∈ m.flight, ∀ b, j.burst = some b → Came p.work j.item b
  /-- what was handed over is the result of its item, and the handler answered to it -/
  answered : ∀ h ∈ m.handed, Came p.work h.item (.done h.result)
    ∧ ∃ s, h.enough = (p.deliver h.result s).1
  /-- no job is dropped without need -/
  kept : m.stopped = false → m.dropped = []
  /-- the pool stops when the handler has enough, and only then -/
  stopped : m.stopped = (cancelled || m.handed.any Handed.enough)
  /-- only the last result can have been enough -/
  last : ∀ h ∈ m.handed.dropLast, h.enough = false
  /-- nothing is started if the pool was cancelled beforehand -/
  unstarted : cancelled = true → m.started = [] ∧ m.handed = []

section
variable {front back : List (Job ι τ α)} {job job' j : Job ι τ α}

theorem length_removed : (front ++ back).length < (front ++ job :: back).length := by
  rw [List.length_append, List.length_append, List.length_cons]
  omega

theorem mem_removed (h : j ∈ front ++ back) : j ∈ front ++ job :: back :=
  (List.mem_append.1 h).elim (List.mem_append_left _) fun h =>
    List.mem_append_right _ (List.mem_cons_of_mem _ h)

theorem mem_replaced (h : j ∈ front ++ job' :: back) : j = job' ∨ j ∈ front ++ job :: back := by
  rcases List.mem_append.1 h with h | h
  · exact .inr (List.mem_append_left _ h)
  · exact (List.mem_cons.1 h).imp id fun h => List.mem_append_right _ (List.mem_cons_of_mem _ h)

theorem items_removed :
    ((front ++ job :: back).map Job.item).Perm (job.item :: (front ++ back).map Job.item) := by
  rw [List.map_append, List.map_cons, List.map_append]
  exact List.perm_middle

end

section
variable {p : Plan σ ι τ α} {cancelled : Bool} {items : List ι} {m m' : Moment σ ι τ α} {s : σ}

theorem orderly_opening : Orderly p cancelled items (.opening cancelled items s) where
  bounded := Nat.zero_le _
  inOrder := rfl
  settled := .refl _
  own _ hj := absurd hj List.not_mem_nil
  answered _ hh := absurd hh List.not_mem_nil
  kept _ := rfl
  stopped := (Bool.or_false _).symm
  last _ hh := absurd hh List.not_mem_nil
  unstarted _ := ⟨rfl, rfl⟩

theorem Orderly.going (h : Orderly p cancelled items m) (hs : m.stopped = false) :
    cancelled = false ∧ m.handed.any Handed.enough = false := by
  rw [h.stopped] at hs
  exact Bool.or_eq_false_iff.1 hs

theorem Orderly.work (h : Orderly p cancelled items m) {front back : List (Job ι τ α)} {item : ι}
    {b : Option (Burst τ α)} (hf : m.flight = front ++ ⟨item, b⟩ :: back) {b' : Burst τ α}
    (hb : Came p.work item b') (s : σ) :
    Orderly p cancelled items
      { m with flight := front ++ ⟨item, some b'⟩ :: back, shared := s } := by
  have hbounded := h.bounded
  have hsettled := h.settled
  have hown := h.own
  rw [hf] at hbounded hsettled hown
  refine { h with bounded := ?_, settled := ?_, own := fun j hj x hx => ?_ }
  · rwa [List.length_append, List.length_cons] at hbounded ⊢
  · rwa [List.map_append, List.map_cons] at hsettled ⊢
  · rcases mem_replaced hj with rfl | hj
    · cases hx
      exact hb
    · exact hown j hj x hx

theorem Orderly.next (h : Orderly p cancelled items m) (hn : Next p m m') :
    Orderly p cancelled items m' := by
  cases hn with
  | started item rest hq hs hl =>
    refine { h with bounded := ?_, inOrder := ?_, settled := ?_, own := ?_, unstarted := ?_ }
    · rw [List.length_append, List.length_singleton]
      exact hl
    · have hinOrder := h.inOrder
      rw [hq] at hinOrder
      rw [List.append_assoc]
      exact hinOrder
    · rw [List.map_append, ← List.append_assoc]
      exact h.settled.append_right _
    · intro j hj b hb
      rcases List.mem_append.1 hj with hj | hj
      · exact h.own j hj b hb
      · rw [List.mem_singleton.1 hj] at hb
        cases hb
    · intro hc
      rw [(h.going hs).1] at hc
      cases hc
  | begun front back item hf => exact h.work hf (.start m.shared) _
  | resumed front back item ms t hf =>
    have hwaits : Came p.work item (.wait ms t) :=
      h.own _ (by rw [hf]; exact List.mem_append_right _ List.mem_cons_self) _ rfl
    exact h.work hf (.resume ms t m.shared hwaits) _
  | handed front back item a hf hs hfull =>
    obtain ⟨hcancelled, hnone⟩ := h.going hs
    have hbounded := h.bounded
    have hsettled := h.settled
    have hown := h.own
    rw [hf] at hbounded hsettled hown
    rw [h.kept hs, List.append_nil] at hsettled
    refine ⟨?_, h.inOrder, ?_, fun j hj => hown j (mem_removed hj), ?_, fun _ => h.kept hs, ?_, ?_,
      ?_⟩
    · exact (Nat.le_of_lt length_removed).trans hbounded
    · rw [h.kept hs, List.append_nil, List.map_append, List.append_assoc]
      exact (items_removed.symm.append_left _).trans hsettled
    · intro x hx
      rcases List.mem_append.1 hx with hx | hx
      · exact h.answered x hx
      · rw [List.mem_singleton.1 hx]
        exact ⟨hown _ (List.mem_append_right _ List.mem_cons_self) _ rfl, m.shared, rfl⟩
    · rw [hcancelled, List.any_append, hnone, List.any_cons, List.any_nil, Bool.or_false,
        Bool.false_or, Bool.false_or]
    · rw [List.dropLast_concat]
      exact fun x hx => Bool.eq_false_iff.2 fun he =>
        Bool.eq_false_iff.1 hnone (List.any_eq_true.2 ⟨x, hx, he⟩)
    · intro hc
      rw [hcancelled] at hc
      cases hc
  | dropped front back job hf hs =>
    have hbounded := h.bounded
    have hsettled := h.settled
    have hown := h.own
    rw [hf] at hbounded hsettled hown
    refine { h with
      bounded := (Nat.le_of_lt length_removed).trans hbounded
      settled := ?_
      own := fun j hj => hown j (mem_removed hj)
      kept := fun hgoing => ?_ }
    · rw [← List.append_assoc, List.append_assoc _ [job.item]]
      exact (items_removed.symm.append_left _).trans hsettled
    · rw [hs] at hgoing
      cases hgoing

theorem Orderly.lives (h : Orderly p cancelled items m) (hl : Lives p m m') :
    Orderly p cancelled items m' := by
  induction hl with
  | refl => exact h
  | tail _ hn ih => exact ih.next hn

theorem Orderly.never_stopped (h : Orderly p false items m)
    (hnever : ∀ a s, (p.deliver a s).1 = false) : m.stopped = false := by
  rw [h.stopped, Bool.false_or]
  refine Bool.eq_false_iff.2 fun hany => ?_
  obtain ⟨x, hx, henough⟩ := List.any_eq_true.1 hany
  obtain ⟨-, s, hs⟩ := h.answered x hx
  rw [hs, hnever] at henough
  cases henough

/-- a life that is over without a stop has settled every item -/
theorem Orderly.over (h : Orderly p cancelled items m) (ho : m.Over) (hs : m.stopped = false) :
    m.started = items ∧ (m.handed.map Handed.item).Perm items := by
  obtain ⟨hflight, hq⟩ := ho
  have hq : m.queue = [] := hq.resolve_left fun hstop => by
    rw [hs] at hstop
    cases hstop
  have hinOrder := h.inOrder
  have hsettled := h.settled
  rw [hq, List.append_nil] at hinOrder
  rw [hflight, h.kept hs, List.append_nil, List.map_nil, List.append_nil, hinOrder] at hsettled
  exact ⟨hinOrder, hsettled⟩

/-! ## after the handler had enough -/

/-- nothing is started or handed over any more -/
theorem lives_quiet (hs : m.stopped = true) (hl : Lives p m m') :
    m'.stopped = true ∧ m'.started = m.started ∧ m'.handed = m.handed := by
  induction hl with
  | refl => exact ⟨hs, rfl, rfl⟩
  | tail _ hn ih =>
    obtain ⟨hs', hstarted, hhanded⟩ := ih
    cases hn with
    | started item rest hq hgoing hl =>
      rw [hs'] at hgoing
      cases hgoing
    | begun front back item hf => exact ⟨hs', hstarted, hhanded⟩
    | resumed front back item ms t hf => exact ⟨hs', hstarted, hhanded⟩
    | handed front back item a hf hgoing hfull =>
      rw [hs'] at hgoing
      cases hgoing
    | dropped front back job hf _ => exact ⟨hs', hstarted, hhanded⟩

theorem exists_drained (p : Plan σ ι τ α) (hs : m.stopped = true) :
    ∃ m', Lives p m m' ∧ m'.Over ∧ m'.stopped = true ∧ m'.shared = m.shared := by
  generalize hf : m.flight = flight
  induction flight generalizing m with
  | nil => exact ⟨m, .refl, ⟨hf, .inl hs⟩, hs, rfl⟩
  | cons job rest ih =>
    obtain ⟨m', hl, hrest⟩ := ih (m := { m with flight := rest, dropped := m.dropped ++ [job.item] })
      hs rfl
    exact ⟨m', .head (.dropped [] rest job hf hs) hl, hrest⟩

/-! ## to the end -/

theorem exists_next_of_full (hs : m.stopped = false)
    (hfull : m.queue = [] ∨ p.limit ≤ m.flight.length) {job : Job ι τ α} {rest : List (Job ι τ α)}
    (hf : m.flight = job :: rest) : ∃ m', Next p m m' := by
  obtain ⟨item, burst⟩ := job
  match burst with
  | none => exact ⟨_, .begun [] rest item hf⟩
  | some (.wait ms t) => exact ⟨_, .resumed [] rest item ms t hf⟩
  | some (.done a) => exact ⟨_, .handed [] rest item a hf hs hfull⟩

/-- a life goes on until it is over -/
theorem exists_next (p : Plan σ ι τ α) (m : Moment σ ι τ α) : m.Over ∨ ∃ m', Next p m m' := by
  have hlimit := limit_pos p
  cases hs : m.stopped with
  | true =>
    cases hf : m.flight with
    | nil => exact .inl ⟨hf, .inl hs⟩
    | cons job rest => exact .inr ⟨_, .dropped [] rest job hf hs⟩
  | false =>
    cases hq : m.queue with
    | nil =>
      cases hf : m.flight with
      | nil => exact .inl ⟨hf, .inr hq⟩
      | cons job rest => exact .inr (exists_next_of_full hs (.inl hq) hf)
    | cons item rest =>
      rcases Nat.lt_or_ge m.flight.length p.limit with hroom | hfull
      · exact .inr ⟨_, .started item rest hq hs hroom⟩
      · cases hf : m.flight with
        | nil =>
          rw [hf] at hfull
          exact absurd hlimit (Nat.not_lt.2 hfull)
        | cons job rest' => exact .inr (exists_next_of_full hs (.inr hfull) hf)

/-- a bound on the bursts and the delivery that a job still takes once it has begun -/
def Job.rank (w : Work σ ι τ α) (job : Job ι τ α) : Nat :=
  match job.burst with
  | none => 0
  | some (.done _) => 1
  | some (.wait _ t) => w.rank t + 2

/-- the same of all jobs in flight -/
def flightRank (w : Work σ ι τ α) (l : List (Job ι τ α)) : Nat :=
  l.foldr (fun job n => job.rank w + n) 0

theorem flightRank_middle (w : Work σ ι τ α) (front back : List (Job ι τ α)) (job : Job ι τ α) :
    flightRank w (front ++ job :: back) = job.rank w + flightRank w (front ++ back) := by
  induction front with
  | nil => rfl
  | cons j front ih =>
    show j.rank w + flightRank w (front ++ job :: back) = _
    rw [ih, Nat.add_left_comm]
    rfl

/-- the jobs in flight that have not begun to work -/
def unbegun (l : List (Job ι τ α)) : Nat := l.countP fun job => job.burst.isNone

theorem unbegun_middle (front back : List (Job ι τ α)) (job : Job ι τ α) :
    unbegun (front ++ job :: back)
      = unbegun (front ++ back) + if job.burst.isNone then 1 else 0 := by
  rw [unbegun, unbegun, List.countP_append, List.countP_append, List.countP_cons, Nat.add_assoc]

/-- what is left to do: items to start, jobs to begin, and what they still take -/
def toDo (w : Work σ ι τ α) (m : Moment σ ι τ α) : ℕ ×ₗ ℕ ×ₗ ℕ :=
  toLex (m.queue.length, toLex (unbegun m.flight, flightRank w m.flight))

theorem toDo_next (h : Next p m m') : toDo p.work m' < toDo p.work m := by
  unfold toDo
  simp only [Prod.Lex.toLex_lt_toLex]
  cases h with
  | started item rest hq hs hl =>
    left
    rw [hq]
    exact Nat.lt_succ_self _
  | begun front back item hf =>
    refine .inr ⟨rfl, .inl ?_⟩
    rw [hf, unbegun_middle, unbegun_middle]
    exact Nat.add_lt_add_left Nat.zero_lt_one _
  | resumed front back item ms t hf =>
    have hless : Job.rank p.work ⟨item, some (p.work.resume t m.shared).1⟩
        < Job.rank p.work (⟨item, some (.wait ms t)⟩ : Job ι τ α) := by
      show Job.rank p.work ⟨item, some (p.work.resume t m.shared).1⟩ < p.work.rank t + 2
      unfold Job.rank
      cases hb : (p.work.resume t m.shared).1 with
      | done a =>
        show 1 < p.work.rank t + 2
        omega
      | wait ms' t' => exact Nat.add_lt_add_right (p.work.rank_resume t m.shared ms' t' hb) 2
    refine .inr ⟨rfl, .inr ⟨?_, ?_⟩⟩
    · rw [hf, unbegun_middle, unbegun_middle]
      rfl
    · rw [hf, flightRank_middle, flightRank_middle]
      exact Nat.add_lt_add_right hless _
  | handed front back item a hf hs hfull =>
    refine .inr ⟨rfl, .inr ⟨?_, ?_⟩⟩
    · rw [hf, unbegun_middle]
      rfl
    · rw [hf, flightRank_middle]
      exact Nat.lt_add_of_pos_left Nat.zero_lt_one
  | dropped front back job hf hs =>
    refine .inr ⟨rfl, ?_⟩
    rw [hf, unbegun_middle, flightRank_middle]
    obtain ⟨item, burst⟩ := job
    match burst with
    | none => exact .inl (Nat.lt_succ_self _)
    | some (.done a) => exact .inr ⟨rfl, Nat.lt_add_of_pos_left Nat.zero_lt_one⟩
    | some (.wait ms t) => exact .inr ⟨rfl, Nat.lt_add_of_pos_left (Nat.succ_pos _)⟩

/-- no life goes on for ever -/
theorem next_wellFounded (p : Plan σ ι τ α) :
    WellFounded fun m' m : Moment σ ι τ α => Next p m m' :=
  Subrelation.wf (fun h => toDo_next h) (InvImage.wf (toDo p.work) wellFounded_lt)

/-! ## a pool that takes its steps -/

/-- a pool between two steps, at a moment of its life -/
structure Mirrors (st : State σ ι τ α) (m : Moment σ ι τ α) : Prop where
  queue : m.queue = st.queue
  bursts : m.flight.map Job.burst = st.running.map fun r => some r.burst
  shared : m.shared = st.shared
  going : m.stopped = false

variable {st st' : State σ ι τ α}

theorem Mirrors.length_eq (h : Mirrors st m) : m.flight.length = st.running.length := by
  have hlen := congrArg List.length h.bursts
  rwa [List.length_map, List.length_map] at hlen

theorem Mirrors.full (h : Mirrors st m) (hf : Full p st) :
    m.queue = [] ∨ p.limit ≤ m.flight.length := by
  rw [h.queue, h.length_eq]
  exact hf

theorem Mirrors.job (h : Mirrors st m) {i : Nat} {r : Running τ α} (hr : st.running[i]? = some r) :
    ∃ front back item, m.flight = front ++ ⟨item, some r.burst⟩ :: back
      ∧ front.map Job.burst = (st.running.take i).map (fun r => some r.burst)
      ∧ back.map Job.burst = (st.running.drop (i + 1)).map fun r => some r.burst := by
  have hget : (m.flight.map Job.burst)[i]? = some (some r.burst) := by
    rw [h.bursts, List.getElem?_map, hr]
    rfl
  rw [List.getElem?_map] at hget
  obtain ⟨⟨item, burst⟩, hjob, rfl⟩ := Option.map_eq_some_iff.1 hget
  obtain ⟨hlt, hjob⟩ := List.getElem?_eq_some_iff.1 hjob
  refine ⟨m.flight.take i, m.flight.drop (i + 1), item, ?_, ?_, ?_⟩
  · rw [← hjob, List.getElem_cons_drop, List.take_append_drop]
  · rw [List.map_take, h.bursts, List.map_take]
  · rw [List.map_drop, h.bursts, List.map_drop]

theorem Mirrors.moved (h : Mirrors st m) (hm : Moved p st st') :
    ∃ m', Lives p m m' ∧ Mirrors st' m' := by
  cases hm with
  | started item rest hq hl =>
    have hstart : Next p m { m with
        queue := rest, flight := m.flight ++ [⟨item, none⟩], started := m.started ++ [item] } :=
      .started item rest (h.queue.trans hq) h.going (h.length_eq ▸ hl)
    refine ⟨_, .tail (.single hstart) (.begun m.flight [] item rfl), rfl, ?_, ?_, h.going⟩
    · rw [List.map_append, List.map_append, h.bursts, List.map_cons, List.map_cons, burst_of,
        ← h.shared]
      rfl
    · exact congrArg (fun s => (p.work.start item s).2) h.shared
  | delivered r a hf hr hb hd =>
    obtain ⟨front, back, item, hflight, hfront, hback⟩ := h.job hr
    rw [hb] at hflight
    refine ⟨_, .single (.handed front back item a hflight h.going (h.full hf)), h.queue, ?_, ?_, ?_⟩
    · rw [List.map_append, hfront, hback, ← List.map_append, List.eraseIdx_eq_take_drop_succ]
    · exact congrArg (fun s => (p.deliver a s).2) h.shared
    · show (p.deliver a m.shared).1 = false
      rw [h.shared]
      exact hd
  | resumed r ms t hf hr hb =>
    obtain ⟨front, back, item, hflight, hfront, hback⟩ := h.job hr
    rw [hb] at hflight
    have hlt := (List.getElem?_eq_some_iff.1 hr).1
    refine ⟨_, .single (.resumed front back item ms t hflight), h.queue, ?_, ?_, h.going⟩
    · rw [List.map_append, List.map_cons, hfront, hback, List.set_eq_take_append_cons_drop,
        if_pos hlt, List.map_append, List.map_cons, burst_of, h.shared]
    · exact congrArg (fun s => (p.work.resume t s).2) h.shared

theorem Mirrors.ended (h : Mirrors st m) (hf : Full p st) {b : Bool} {sh : σ}
    (he : Ended p st b sh) :
    ∃ m', Lives p m m' ∧ m'.Over ∧ (b, sh) = (m'.stopped, m'.shared) := by
  cases he with
  | idle hq hr =>
    have hflight : m.flight = [] := by
      have hbursts := h.bursts
      rw [hr] at hbursts
      exact List.map_eq_nil_iff.1 hbursts
    exact ⟨m, .refl, ⟨hflight, .inr (h.queue.trans hq)⟩, by rw [h.going, h.shared]⟩
  | stopped r a hr hb hd =>
    obtain ⟨front, back, item, hflight, -, -⟩ := h.job hr
    rw [hb] at hflight
    have hhanded := Next.handed (p := p) front back item a hflight h.going (h.full hf)
    obtain ⟨m', hl, hover, hs, hshared⟩ := exists_drained p (m := { m with
      flight := front ++ back
      stopped := (p.deliver a m.shared).1
      shared := (p.deliver a m.shared).2
      handed := m.handed ++ [⟨item, a, (p.deliver a m.shared).1⟩] })
      (by rw [← hd, ← h.shared])
    refine ⟨m', .head hhanded hl, hover, ?_⟩
    rw [hs, hshared, h.shared]

theorem full_of_ended {b : Bool} {sh : σ} (h : step p st = .ended b sh) : Full p st := by
  unfold step at h
  split at h
  · split at h
    · cases h
    · next hl => exact .inr (Nat.le_of_not_lt hl)
  · next hq => exact .inl hq

/-- from one state of a pool to a later one -/
abbrev Steps (p : Plan σ ι τ α) : State σ ι τ α → State σ ι τ α → Prop :=
  Relation.ReflTransGen fun st st' => step p st = .next st'

theorem Mirrors.steps (h : Mirrors st m) (hs : Steps p st st') :
    ∃ m', Lives p m m' ∧ Mirrors st' m' := by
  induction hs with
  | refl => exact ⟨m, .refl, h⟩
  | tail _ hstep ih =>
    obtain ⟨m₁, hl, h₁⟩ := ih
    obtain ⟨m', hl', h'⟩ := h₁.moved (moved_of_step hstep)
    exact ⟨m', hl.trans hl', h'⟩

/-- all steps of a pool together are a life from some moment on -/
theorem lives_of_runFrom (h : Mirrors st m) :
    ∃ m', Lives p m m' ∧ m'.Over ∧ runFrom p st = (m'.stopped, m'.shared) := by
  induction st using runFrom.induct p generalizing m with
  | case1 st b sh hstep =>
    rw [runFrom, hstep]
    exact h.ended (full_of_ended hstep) (ended_of_step hstep)
  | case2 st st' hstep ih =>
    obtain ⟨m₁, hl, h₁⟩ := h.moved (moved_of_step hstep)
    obtain ⟨m', hl', hrest⟩ := ih h₁
    rw [runFrom, hstep]
    exact ⟨m', hl.trans hl', hrest⟩

theorem mirrors_initial (items : List ι) (s : σ) :
    Mirrors (initial items s : State σ ι τ α) (.opening false items s) := ⟨rfl, rfl, rfl, rfl⟩

end

/-- whatever the jobs do, in whatever order they go on and whatever the handler answers: at every
moment the pool is in order; after the handler had enough nothing is started or handed over; the life
goes on until all jobs have ended, which it comes to; without a stop every item was started then and
its result handed over once; and a handler that never has enough does not stop it.  A pool that takes
its steps is never in a state that is not on such a life, and its run comes to what one comes to -/
theorem pool_orderly (p : Plan σ ι τ α) (cancelled : Bool) (items : List ι) (s : σ) :
    (∀ m, Lives p (.opening cancelled items s) m →
        Orderly p cancelled items m
          ∧ (m.stopped = true → ∀ m', Lives p m m' →
              m'.stopped = true ∧ m'.started = m.started ∧ m'.handed = m.handed)
          ∧ (m.Over ∨ ∃ m', Next p m m')
          ∧ (m.Over → m.stopped = false →
              m.started = items ∧ (m.handed.map Handed.item).Perm items)
          ∧ (cancelled = false → (∀ a s, (p.deliver a s).1 = false) → m.stopped = false))
      ∧ (WellFounded fun m' m : Moment σ ι τ α => Next p m m')
      ∧ (∀ st, Steps p (initial items s) st →
          ∃ m, Lives p (.opening false items s) m ∧ Mirrors st m)
      ∧ ∃ m, Lives p (.opening cancelled items s) m ∧ m.Over
          ∧ run p cancelled items s = (m.stopped, m.shared) := by
  refine ⟨fun m hl => ?_, next_wellFounded p, fun st hs => (mirrors_initial items s).steps hs, ?_⟩
  · have h : Orderly p cancelled items m := orderly_opening.lives hl
    refine ⟨h, fun hs m' hl' => lives_quiet hs hl', exists_next p m, h.over, fun hc => ?_⟩
    rw [hc] at h
    exact h.never_stopped
  · cases cancelled with
    | true => exact ⟨.opening true items s, .refl, ⟨rfl, .inl rfl⟩, rfl⟩
    | false => exact lives_of_runFrom (mirrors_initial items s)

/-! ## a small case -/

/-- jobs that give back their items at once -/
def echo : Work (List Nat) Nat Unit Nat where
  start i s := (.done i, s)
  resume _ s := (.done 0, s)
  rank _ := 0
  rank_resume _ _ _ _ h := by cases h

/-- two of them at a time, until a 2 comes -/
def echoUntilTwo : Plan (List Nat) Nat Unit Nat where
  work := echo
  width := 2
  schedule := Schedule.byTime
  deliver a s := (a == 2, a :: s)

/-- the second job was faster than the first -/
def overtaken : Moment (List Nat) Nat Unit Nat :=
  ⟨[3], [⟨1, none⟩], true, [2], [1, 2], [⟨2, 2, true⟩], []⟩

theorem pool_orderly_overtaken :
    Lives echoUntilTwo (.opening false [1, 2, 3] []) overtaken
      ∧ ∀ m, Lives echoUntilTwo overtaken m → m.started = [1, 2] ∧ m.handed = [⟨2, 2, true⟩] := by
  have hlives : Lives echoUntilTwo (.opening false [1, 2, 3] []) overtaken :=
    .tail (.tail (.tail (.single (.started 1 [2, 3] rfl rfl (by decide)))
      (.started 2 [3] rfl rfl (by decide))) (.begun [⟨1, none⟩] [] 2 rfl))
      (.handed [⟨1, none⟩] [] 2 2 rfl rfl (.inr (by decide)))
  obtain ⟨hmoments, -⟩ := pool_orderly echoUntilTwo false [1, 2, 3] []
  obtain ⟨-, hquiet, -⟩ := hmoments overtaken hlives
  exact ⟨hlives, fun m hl => (hquiet rfl m hl).2⟩

end Reclaim.Pool

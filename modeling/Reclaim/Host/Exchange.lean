import Reclaim.Host.Network
import Reclaim.Merkle.Frontier
import Reclaim.Pool

/-!
# Exchanges with a host

To get a sector from a host a session is opened, the prices are asked for, and the sector is read
for what it costs.  Each of these steps has a limit of its own, and the whole exchange may have one
too.  A limit counts only while something is still waited for: an answer that is there in time, be
it at the last moment, is taken.

* `Exchange.work` an exchange as a job that works in bursts and waits for answers in between;
* `download` the sector, if the host serves exactly the one that was asked for;
* `check` whether the host serves it.
-/

namespace Reclaim

/-- the sizes and limits of a run, times in milliseconds -/
structure Settings where
  /-- how many hosts are asked at a time -/
  workers : Nat
  /-- the length of every sector -/
  sectorSize : Nat
  dialLimit : Nat
  settingsLimit : Nat
  readLimit : Nat
  /-- the limit of a whole check of one sector with one host -/
  checkLimit : Nat
deriving DecidableEq

/-- the length of a sector as hosts store it -/
def standardSectorSize : Nat := 4194304

/-- what a run goes by unless told otherwise -/
def Settings.standard : Settings := ⟨100, standardSectorSize, 60000, 60000, 120000, 60000⟩

namespace Millis

/-- the places of a part of a second, without zeros at the end -/
def places (ms : Nat) : String :=
  if ms % 1000 = 0 then ""
  else
    let three := toString (1000 + ms % 1000) |>.toList.drop 1
    "." ++ String.ofList (three.reverse.dropWhile (· = '0')).reverse

/-- a span of time: in milliseconds below a second, with zero in nanoseconds, and in seconds from one
on -/
def text (ms : Nat) : String :=
  if ms = 0 then "0ns"
  else if ms < 1000 then s!"{ms}ms"
  else s!"{ms / 1000}{places ms}s"

end Millis

/-- the failure of a step that was not done in time -/
def timedOut (what : String) (limit : Nat) : SectorError :=
  .transport s!"{what} timed out after {Millis.text limit}"

/-- what a step comes to under a limit, and after how many milliseconds -/
def Reply.within {α : Type} (what : String) (limit : Nat) (r : Reply α) :
    Nat × Except SectorError α :=
  match r.delay with
  | none => (limit, .error (timedOut what limit))
  | some d =>
    if limit < d then (limit, .error (timedOut what limit))
    else
      match r.result with
      | .ok a => (d, .ok a)
      | .error e => (d, .error (classify e))

/-- what an exchange comes to: it failed before the host could answer for the sector, or this is
the answer -/
inductive Answer where
  | failed (e : SectorError)
  | given (r : Except SectorError Bytes)

namespace Exchange

/-- one sector and the host that is asked for it, and whether the whole exchange is limited -/
structure Goal where
  host : HostKey
  root : Hash256
  limited : Bool

/-- the answer an exchange waits for; `spent` is the time used up when it comes -/
inductive Stage where
  | dialed (spent : Nat) (r : Except SectorError Unit)
  | settled (spent : Nat) (r : Except SectorError HostSettings)
  | received (r : Except SectorError Bytes)
  | overdue

structure Task where
  goal : Goal
  stage : Stage

def Stage.rank : Stage → Nat
  | .dialed _ _ => 2
  | .settled _ _ => 1
  | .received _ => 0
  | .overdue => 0

section
variable {σ : Type} (n : Network σ) (c : Settings)

/-- the failure of an exchange that was not done in time -/
def overdueAnswer : Answer := .failed (timedOut "check" c.checkLimit)

/-- wait for an answer; if there is nothing to wait for, go on at once -/
def await (g : Goal) (spent ms : Nat) (stage : Stage) (now : Wire σ → Burst Task Answer × Wire σ)
    (w : Wire σ) : Burst Task Answer × Wire σ :=
  if ms = 0 then now w
  else if g.limited && c.checkLimit < spent + ms then
    if c.checkLimit - spent = 0 then (.done (overdueAnswer c), w)
    else (.wait (c.checkLimit - spent) ⟨g, .overdue⟩, w)
  else (.wait ms ⟨g, stage⟩, w)

/-- the whole of the sector that is wanted; lengths of sections are 32-bit numbers -/
def wholeSector (root : Hash256) : ReadSection := ⟨root, 0, c.sectorSize % 4294967296⟩

/-- the payload of a read, if it has the length of a sector -/
def accept (r : Except SectorError Bytes) : Answer :=
  .given <|
    match r with
    | .error e => .error e
    | .ok b =>
      if b.length = c.sectorSize then .ok b
      else .error (.transport s!"unexpected sector size {b.length} (want {c.sectorSize})")

/-- the read is over: the payload is looked at -/
def afterRead (g : Goal) (r : Except SectorError Bytes) (w : Wire σ) :
    Burst Task Answer × Wire σ :=
  (.done (accept c r), w.take g.host r)

/-- the prices are known: read the sector -/
def afterSettings (g : Goal) (spent : Nat) (r : Except SectorError HostSettings) (w : Wire σ) :
    Burst Task Answer × Wire σ :=
  match r with
  | .error e => (.done (.given (.error e)), w)
  | .ok prices =>
    let part := wholeSector c g.root
    let q := w.read n g.host part (readCost prices [part])
    let t := q.1.within "read" c.readLimit
    await c g spent t.1 (.received t.2) (afterRead c g t.2) q.2

def afterDial (g : Goal) (spent : Nat) (r : Except SectorError Unit) (w : Wire σ) :
    Burst Task Answer × Wire σ :=
  match r with
  | .error e => (.done (.failed e), w)
  | .ok _ =>
    let q := w.settings n g.host
    let t := q.1.within "settings" c.settingsLimit
    await c g spent t.1 (.settled (spent + t.1) t.2) (afterSettings n c g spent t.2) q.2

def start (g : Goal) (w : Wire σ) : Burst Task Answer × Wire σ :=
  let q := w.dial n g.host g.root
  let t := q.1.within "dial" c.dialLimit
  await c g 0 t.1 (.dialed t.1 t.2) (afterDial n c g 0 t.2) q.2

/-- the answer is there: go on -/
def resume (t : Task) (w : Wire σ) : Burst Task Answer × Wire σ :=
  match t.stage with
  | .dialed spent r => afterDial n c t.goal spent r w
  | .settled spent r => afterSettings n c t.goal spent r w
  | .received r => afterRead c t.goal r w
  | .overdue => (.done (overdueAnswer c), w)

/-- a burst that waits, waits for an answer of lower rank than `k` -/
def Below (k : Nat) (b : Burst Task Answer) : Prop :=
  ∀ ms t, b = .wait ms t → t.stage.rank < k

theorem below_done (k : Nat) (a : Answer) : Below k (.done a) := by
  intro ms t h
  cases h

theorem await_below (g : Goal) (spent ms k : Nat) (stage : Stage)
    (now : Wire σ → Burst Task Answer × Wire σ) (w : Wire σ) (hk : stage.rank < k)
    (hnow : Below k (now w).1) : Below k (await c g spent ms stage now w).1 := by
  unfold await
  split
  · exact hnow
  · split
    · split
      · exact below_done k _
      · intro ms' t h
        cases h
        exact Nat.zero_lt_of_lt hk
    · intro ms' t h
      cases h
      exact hk

theorem afterSettings_below (g : Goal) (spent : Nat) (r : Except SectorError HostSettings)
    (w : Wire σ) : Below 1 (afterSettings n c g spent r w).1 := by
  unfold afterSettings
  split
  · exact below_done _ _
  · exact await_below c g spent _ 1 _ _ _ (Nat.zero_lt_one) (below_done _ _)

theorem afterDial_below (g : Goal) (spent : Nat) (r : Except SectorError Unit) (w : Wire σ) :
    Below 2 (afterDial n c g spent r w).1 := by
  unfold afterDial
  split
  · exact below_done _ _
  · refine await_below c g spent _ 2 _ _ _ (Nat.lt_succ_self 1) ?_
    intro ms t h
    exact Nat.lt_of_lt_of_le (afterSettings_below n c _ _ _ _ ms t h) (Nat.le_succ 1)

theorem resume_below (t : Task) (w : Wire σ) : Below t.stage.rank (resume n c t w).1 := by
  unfold resume
  split
  · next h => rw [h]; exact afterDial_below n c _ _ _ _
  · next h => rw [h]; exact afterSettings_below n c _ _ _ _
  · exact below_done _ _
  · exact below_done _ _

def work : Work (Wire σ) Goal Task Answer where
  start := start n c
  resume := resume n c
  rank t := t.stage.rank
  rank_resume t w ms t' h := resume_below n c t w ms t' h

end

end Exchange

/-! ## what an exchange tells -/

/-- the sector of an answer, if it is the one with the given root -/
def Answer.sector (root : Hash256) : Answer → Except SectorError Bytes
  | .failed e => .error e
  | .given (.error e) => .error e
  | .given (.ok b) =>
    if sectorRoot b = root then .ok b
    else .error (.transport s!"sector {root} has merkle root {sectorRoot b}")

/-- whether an answer shows that the host serves the sector with the given root -/
def Answer.serves (root : Hash256) : Answer → Except SectorError Bool
  | .failed e => .error e
  | .given (.error .notFound) => .ok false
  | .given (.error e) => .error e
  | .given (.ok b) => .ok (decide (sectorRoot b = root))

section
variable {σ : Type} (n : Network σ) (c : Settings)

def download (host : HostKey) (root : Hash256) (w : Wire σ) : Except SectorError Bytes × Wire σ :=
  let r := (Exchange.work n c).perform ⟨host, root, false⟩ w
  (r.1.sector root, r.2)

/-- see whether a host serves a sector -/
def check (host : HostKey) (root : Hash256) (w : Wire σ) : Except SectorError Bool × Wire σ :=
  let r := (Exchange.work n c).perform ⟨host, root, true⟩ w
  (r.1.serves root, r.2)

end

end Reclaim

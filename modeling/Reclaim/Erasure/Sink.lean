import Reclaim.Bytes

/-!
# Where recovered bytes go

A sink takes whole pieces of output as long as it has room, and refuses the first that does not
fit, keeping nothing of it.
-/

namespace Reclaim

/-- an output with a limited or unlimited amount of room -/
structure Sink where
  /-- the bytes that may still come; no bound if there is none -/
  room : Option Nat
  /-- what was written, the latest first -/
  blocks : List Bytes

namespace Sink

def ofLimit (limit : Option Nat) : Sink := ⟨limit, []⟩

def bytes (s : Sink) : Bytes := s.blocks.reverse.flatten

/-- write `b` as a whole, if there is room for it -/
def write? (s : Sink) (b : Bytes) : Option Sink :=
  match s.room with
  | none => some ⟨none, b :: s.blocks⟩
  | some r => if b.length ≤ r then some ⟨some (r - b.length), b :: s.blocks⟩ else none

/-- write the first `n` bytes of consecutive blocks, each cut to what is still wanted; stops at the
first refusal and tells whether all went through -/
def writeBlocks (s : Sink) (n : Nat) : List Bytes → Bool × Sink
  | [] => (true, s)
  | b :: r =>
    if n = 0 then (true, s)
    else
      match s.write? (b.take n) with
      | none => (false, s)
      | some s' => writeBlocks s' (n - (b.take n).length) r

theorem bytes_write (s s' : Sink) (b : Bytes) (h : s.write? b = some s') :
    s'.bytes = s.bytes ++ b := by
  have key : s'.blocks = b :: s.blocks := by
    unfold write? at h
    split at h
    · cases h
      rfl
    · split at h
      · cases h
        rfl
      · cases h
  rw [bytes, key, List.reverse_cons, List.flatten_append, bytes, List.flatten_singleton]

end Sink

end Reclaim

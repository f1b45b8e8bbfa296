import Reclaim.Erasure.Coder

/-!
# Decoding in batches

Each stripe of a striped chunk is decoded out of its own 64 bytes of every piece, so that many
stripes can be decoded side by side.  A long chunk goes in batches: all stripes of a batch are
decoded, and then they are written, before the next batch is begun.  Completing the shards of a
codeword may fail, at any stripe of any batch.

* `complete`       the shards of a codeword with the data shards filled in;
* `decodeStripe`   the data of one stripe;
* `recoverBatches` the first bytes of a striped chunk, batch by batch.
-/

namespace Reclaim

/-- what keeps the shards of a codeword from being completed -/
inductive ShardFault where
  | wrongCount
  | emptyShard
  | unequalLengths
  | tooFewPresent
deriving DecidableEq, Repr

namespace Coder

/-- the shards with all data shards filled in; the first shard that is empty or longer or shorter
than the others before it is a fault -/
def complete (c : Coder) (shards : Slots) : Except ShardFault Slots :=
  let there := shards.filterMap id
  let width := pieceLength shards
  if shards.length ≠ c.numPieces then .error .wrongCount
  else
    match there.find? fun b => b.isEmpty || b.length != width with
    | some b => .error (if b.isEmpty then .emptyShard else .unequalLengths)
    | none =>
      if there.length = c.numPieces then .ok shards
      else if there.length < c.data then .error .tooFewPresent
      else
        let data := Erasure.repair (Erasure.repairRows c.data (present shards)) width shards
        .ok (data.map some ++ shards.drop c.data)

/-- the shards, completed if that is called for: a data shard is missing, and there is parity -/
def mend (c : Coder) (shards : Slots) : Except ShardFault Slots :=
  if c.hasGap shards && decide (0 < c.parity) then c.complete shards else .ok shards

/-- the data shards one after the other -/
def joined (c : Coder) (shards : Slots) : Bytes := ((shards.take c.data).filterMap id).flatten

/-- stripe number `i` of every piece -/
def slice (i : Nat) (slots : Slots) : Slots :=
  slots.map fun p => p.map fun b => (b.drop (i * stripeWidth)).take stripeWidth

/-- the data of stripe number `i` -/
def decodeStripe (c : Coder) (slots : Slots) (i : Nat) : Except ShardFault Bytes :=
  (c.mend (slice i slots)).map c.joined

/-- decode and write one batch of stripes after the other, each cut to what is still wanted; tells
whether all went through, or what kept a stripe from being decoded -/
def writeBatches (c : Coder) (slots : Slots) (n : Nat) (sink : Sink) :
    List (List Nat) → Except ShardFault Bool × Sink
  | [] => (.ok true, sink)
  | batch :: rest =>
    match batch.mapM (c.decodeStripe slots) with
    | .error e => (.error e, sink)
    | .ok blocks =>
      let w := sink.writeBlocks n blocks
      if w.1 then writeBatches c slots (n - blocks.flatten.length) w.2 rest else (.ok false, w.2)

/-- how many stripes hold the first `n` bytes -/
def stripesFor (c : Coder) (slots : Slots) (n : Nat) : Nat :=
  let bytes := stripeWidth * c.data
  min ((n + bytes - 1) / bytes) (pieceLength slots / stripeWidth)

/-- write the first `n` bytes of a striped chunk, `size` stripes being decoded at a time -/
def recoverBatches (c : Coder) (size : Nat) (slots : Slots) (n : Nat) (sink : Sink) :
    Except ShardFault Bool × Sink :=
  c.writeBatches slots n sink (Bytes.segments size (List.range (c.stripesFor slots n)))

end Coder

end Reclaim

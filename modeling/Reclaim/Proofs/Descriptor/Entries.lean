import Mathlib.Logic.Basic
import Reclaim.Descriptor.ChunkRecord
import Reclaim.Descriptor.HostTable
import Reclaim.Proofs.Bytes

/-!
# What the tables of a descriptor may hold

The readers of the two tables accept a table entry by entry, and what they give depends on each
entry alone.

* `HostTable.read_eq_ok_iff`       host tables: every whole entry is unused or well formed;
* `ChunkRecord.read_eq_ok_iff`     records: no more copies than fit, each of them in range;
* `ChunkRecord.readAll_eq_ok_iff`  records one after the other, the last one possibly cut short.
-/

namespace Reclaim

/-! ## the host table -/

namespace HostTable

/-- the length of the key of an entry -/
def keyLength (e : Bytes) : Nat := Bytes.leNat ((e.drop 16).take 8)

/-- the name of the key algorithm, which ends before the first zero byte -/
def keyName (e : Bytes) : Bytes := (e.take 16).takeWhile (· != 0)

def key (e : Bytes) : HostKey := HostKey.ofBytes ((e.drop 24).take 32)

/-- an entry that is unused, or holds a key of the only algorithm -/
def Fair (e : Bytes) : Prop := keyLength e = 0 ∨ keyLength e = 32 ∧ keyName e = HostKey.algorithm

/-- the host of an entry in use -/
def host? (e : Bytes) : Option HostKey := if keyLength e = 0 then none else some (key e)

/-- the hosts of the first `n` entries -/
def hosts (entry : Nat → Bytes) (n : Nat) : List (Option HostKey) :=
  (List.range n).map fun j => host? (entry j)

theorem getElem?_hosts (entry : Nat → Bytes) (n j : Nat) :
    (hosts entry n)[j]? = if j < n then some (host? (entry j)) else none := by
  rw [hosts, List.getElem?_map]
  split
  · next h =>
    rw [List.getElem?_range h]
    rfl
  · next h =>
    rw [List.getElem?_eq_none (by rw [List.length_range]; omega)]
    rfl

theorem readEntry_eq_ok_iff (i : Nat) (e : Bytes) (k : Option HostKey) :
    readEntry i e = .ok k ↔ Fair e ∧ k = host? e := by
  have hunfold : readEntry i e =
      if keyLength e = 0 then .ok none
      else if keyLength e = 32 then
        if keyName e = HostKey.algorithm then .ok (some (key e))
        else .error (.keyAlgorithm i (Text.lossy (keyName e)))
      else .error (.keyLength i (keyLength e)) := rfl
  rw [hunfold, Fair, host?]
  by_cases hzero : keyLength e = 0
  · rw [if_pos hzero, if_pos hzero, Except.ok.injEq]
    exact ⟨fun h => ⟨.inl hzero, h.symm⟩, fun h => h.2.symm⟩
  · rw [if_neg hzero, if_neg hzero]
    by_cases hlength : keyLength e = 32
    · rw [if_pos hlength]
      by_cases hname : keyName e = HostKey.algorithm
      · rw [if_pos hname, Except.ok.injEq]
        exact ⟨fun h => ⟨.inr ⟨hlength, hname⟩, h.symm⟩, fun h => h.2.symm⟩
      · rw [if_neg hname]
        exact ⟨fun h => (by cases h), fun h => absurd h.1 (by simp [hzero, hname])⟩
    · rw [if_neg hlength]
      exact ⟨fun h => (by cases h), fun h => absurd h.1 (by simp [hzero, hlength])⟩

theorem readEntries_eq_ok_iff (i : Nat) (es : List Bytes) (ks : List (Option HostKey)) :
    readEntries i es = .ok ks ↔
      (∀ e ∈ es.takeWhile fun e => decide (entrySize ≤ e.length), Fair e) ∧
        ks = (es.takeWhile fun e => decide (entrySize ≤ e.length)).map host? := by
  induction es generalizing i ks with
  | nil =>
    rw [readEntries, Except.ok.injEq]
    exact ⟨fun h => ⟨fun e he => absurd he List.not_mem_nil, h.symm⟩, fun h => h.2.symm⟩
  | cons e es ih =>
    rw [readEntries, List.takeWhile_cons]
    by_cases hlen : e.length < entrySize
    · rw [if_pos hlen, if_neg (by simpa using hlen), Except.ok.injEq]
      exact ⟨fun h => ⟨fun e he => absurd he List.not_mem_nil, h.symm⟩, fun h => h.2.symm⟩
    · rw [if_neg hlen, if_pos (by simpa using hlen), List.forall_mem_cons, List.map_cons]
      constructor
      · intro h
        split at h
        · cases h
        · next k hk =>
          split at h
          · cases h
          · next ks' hks =>
            cases h
            obtain ⟨hfair, rfl⟩ := (readEntry_eq_ok_iff i e k).1 hk
            obtain ⟨hrest, rfl⟩ := (ih (i + 1) ks').1 hks
            exact ⟨⟨hfair, hrest⟩, rfl⟩
      · rintro ⟨⟨hfair, hrest⟩, rfl⟩
        rw [(readEntry_eq_ok_iff i e _).2 ⟨hfair, rfl⟩]
        simp only
        rw [(ih (i + 1) _).2 ⟨hrest, rfl⟩]

/-- the bytes of entry number `j` of a table -/
def entryAt (table : Bytes) (j : Nat) : Bytes := (table.drop (j * entrySize)).take entrySize

theorem read_eq_ok_iff (table : Bytes) (ks : List (Option HostKey)) :
    read table = .ok ks ↔ (∀ j < table.length / entrySize, Fair (entryAt table j)) ∧
      ks = hosts (entryAt table) (table.length / entrySize) := by
  rw [read, readEntries_eq_ok_iff, Bytes.takeWhile_segments (by decide), List.map_map]
  simp only [List.forall_mem_map, List.mem_range]
  rfl

end HostTable

/-! ## chunk records -/

namespace ChunkRecord

/-- how many copies a record holds -/
def count (record : Bytes) : Nat := Bytes.leNat ((record.drop 17).take 2)

/-- the bytes of copy number `n` of a record -/
def entryAt (record : Bytes) (n : Nat) : Bytes := (record.drop (19 + n * 40)).take 40

/-- the number of the piece of a copy -/
def piece (e : Bytes) : Nat := Bytes.leNat (e.take 4)

/-- the place of the host of a copy in the host table -/
def place (e : Bytes) : Nat := Bytes.leNat ((e.drop 4).take 4)

def root (e : Bytes) : Hash256 := Hash256.ofBytes ((e.drop 8).take 32)

/-- record number `j` of a table of records, filled with zeros if it is cut short -/
def recordAt (table : Bytes) (j : Nat) : Bytes := Bytes.fit size (table.drop (j * size))

section
variable (entry : Nat → Bytes) (numHosts numPieces : Nat)

/-- the copy of an entry, `entry` being the entries of the host table -/
def copy (e : Bytes) : SectorRef := ⟨root e, HostTable.key (entry (place e))⟩

/-- a copy of one of the pieces that names an entry in use -/
structure FairCopy (e : Bytes) : Prop where
  piece_lt : piece e < numPieces
  place_lt : place e < numHosts
  used : HostTable.keyLength (entry (place e)) ≠ 0

/-- a record with no more copies than fit, all of them fair -/
structure FairRecord (record : Bytes) : Prop where
  count_le : count record ≤ 101
  copies : ∀ n < count record, FairCopy entry numHosts numPieces (entryAt record n)

/-- the copies of piece `p` in the order of the record -/
def copies (record : Bytes) (p : Nat) : List SectorRef :=
  ((List.range (count record)).filter fun n => piece (entryAt record n) = p).map fun n =>
    copy entry (entryAt record n)

/-- the chunk of a record -/
def chunk (record : Bytes) : Chunk := ⟨(List.range numPieces).map (copies entry record)⟩

theorem readEntry_eq_ok_iff (i : Nat) (e : Bytes) (t : Nat × SectorRef) :
    readEntry (HostTable.hosts entry numHosts) numPieces i e = .ok t ↔
      FairCopy entry numHosts numPieces e ∧ t = (piece e, copy entry e) := by
  have hhost : (HostTable.hosts entry numHosts)[Bytes.leNat ((e.drop 4).take 4)]? =
      if place e < numHosts then some (HostTable.host? (entry (place e))) else none :=
    HostTable.getElem?_hosts entry numHosts (place e)
  rw [readEntry]
  change (if numPieces ≤ piece e then _ else _) = _ ↔ _
  by_cases hpiece : numPieces ≤ piece e
  · rw [if_pos hpiece]
    exact ⟨fun h => (by cases h), fun h => absurd h.1.piece_lt (Nat.not_lt.2 hpiece)⟩
  · rw [if_neg hpiece, hhost]
    by_cases hplace : place e < numHosts
    · rw [if_pos hplace, HostTable.host?]
      by_cases hused : HostTable.keyLength (entry (place e)) = 0
      · rw [if_pos hused]
        exact ⟨fun h => (by cases h), fun h => absurd hused h.1.used⟩
      · rw [if_neg hused]
        refine ⟨fun h => ?_, fun h => ?_⟩
        · cases h
          exact ⟨⟨Nat.lt_of_not_le hpiece, hplace, hused⟩, rfl⟩
        · rw [h.2]
          rfl
    · rw [if_neg hplace]
      exact ⟨fun h => (by cases h), fun h => absurd h.1.place_lt hplace⟩

theorem readEntries_eq_ok_iff (i : Nat) (es : List Bytes) (ts : List (Nat × SectorRef)) :
    readEntries (HostTable.hosts entry numHosts) numPieces i es = .ok ts ↔
      (∀ e ∈ es, FairCopy entry numHosts numPieces e) ∧
        ts = es.map fun e => (piece e, copy entry e) := by
  induction es generalizing ts with
  | nil =>
    rw [readEntries, Except.ok.injEq]
    exact ⟨fun h => ⟨fun e he => absurd he List.not_mem_nil, h.symm⟩, fun h => h.2.symm⟩
  | cons e es ih =>
    rw [readEntries, List.forall_mem_cons, List.map_cons]
    constructor
    · intro h
      split at h
      · cases h
      · next t ht =>
        split at h
        · cases h
        · next ts' hts =>
          cases h
          obtain ⟨hfair, rfl⟩ := (readEntry_eq_ok_iff entry numHosts numPieces i e t).1 ht
          obtain ⟨hrest, rfl⟩ := (ih ts').1 hts
          exact ⟨⟨hfair, hrest⟩, rfl⟩
    · rintro ⟨⟨hfair, hrest⟩, rfl⟩
      rw [(readEntry_eq_ok_iff entry numHosts numPieces i e _).2 ⟨hfair, rfl⟩]
      simp only
      rw [(ih _).2 ⟨hrest, rfl⟩]

/-- the slots of numbered copies, copy by copy of the record -/
theorem slots_map (record : Bytes) :
    slots numPieces ((List.range (count record)).map fun n =>
        (piece (entryAt record n), copy entry (entryAt record n))) =
      (List.range numPieces).map (copies entry record) := by
  refine List.map_congr_left fun p _ => ?_
  rw [List.filter_map, List.map_map]
  rfl

theorem read_eq_ok_iff (i : Nat) {record : Bytes} (hlen : record.length = size) (c : Chunk) :
    read (HostTable.hosts entry numHosts) numPieces i record = .ok c ↔
      FairRecord entry numHosts numPieces record ∧ c = chunk entry numPieces record := by
  have hmax : maxRefs = 101 := by decide
  rw [read]
  change (if maxRefs < count record then _ else _) = _ ↔ _
  by_cases hcount : maxRefs < count record
  · rw [if_pos hcount]
    refine ⟨fun h => (by cases h), fun h => absurd h.1.count_le ?_⟩
    omega
  · have hle : count record ≤ 101 := by omega
    have hroom : count record * refSize ≤ (record.drop (skip + 2)).length := by
      rw [List.length_drop, hlen, refSize, size, skip]
      omega
    have hentries : (Bytes.segments refSize (record.drop (skip + 2))).take
        (Bytes.leNat ((record.drop skip).take 2)) =
          (List.range (count record)).map (entryAt record) := by
      refine (Bytes.take_segments (by decide) hroom).trans ?_
      refine List.map_congr_left fun n _ => ?_
      rw [List.drop_drop]
      rfl
    have hread := readEntries_eq_ok_iff entry numHosts numPieces i
      ((List.range (count record)).map (entryAt record))
    simp only [List.forall_mem_map, List.mem_range, List.map_map] at hread
    rw [if_neg hcount, hentries]
    simp only
    constructor
    · intro h
      split at h
      · cases h
      · next ts hts =>
        cases h
        obtain ⟨hfair, rfl⟩ := (hread ts).1 hts
        refine ⟨⟨hle, hfair⟩, ?_⟩
        rw [chunk, ← slots_map]
        rfl
    · rintro ⟨hfair, rfl⟩
      rw [(hread _).2 ⟨hfair.copies, rfl⟩, chunk, ← slots_map]
      rfl

theorem length_recordAt (table : Bytes) (j : Nat) : (recordAt table j).length = size :=
  Bytes.length_fit size _

/-- the records after the first one -/
theorem recordAt_drop (table : Bytes) (j : Nat) :
    recordAt (table.drop size) j = recordAt table (j + 1) := by
  rw [recordAt, recordAt, List.drop_drop, Nat.succ_mul, Nat.add_comm]

theorem readAll_eq_ok_iff (expected i n : Nat) (table : Bytes) (cs : List Chunk) :
    readAll (HostTable.hosts entry numHosts) numPieces expected i n table = .ok cs ↔
      (∀ j < n, j * size < table.length ∧ FairRecord entry numHosts numPieces (recordAt table j)) ∧
      cs = (List.range n).map fun j => chunk entry numPieces (recordAt table j) := by
  induction n generalizing i table cs with
  | zero =>
    rw [readAll, Except.ok.injEq]
    exact ⟨fun h => ⟨fun j hj => absurd hj (Nat.not_lt_zero j), h.symm⟩, fun h => h.2.symm⟩
  | succ n ih =>
    have hfirst : Bytes.fit size (table.take size) = recordAt table 0 := Bytes.fit_take size table
    have hread := read_eq_ok_iff entry numHosts numPieces i (length_recordAt table 0)
    have hrest := ih (i + 1) (table.drop size)
    simp only [recordAt_drop] at hrest
    rw [readAll, hfirst, List.range_succ_eq_map, List.map_cons, List.map_map]
    constructor
    · intro h
      split at h
      · cases h
      · next hne =>
        split at h
        · cases h
        · next c hc =>
          split at h
          · cases h
          · next cs' hcs =>
            cases h
            obtain ⟨hfair, rfl⟩ := (hread c).1 hc
            obtain ⟨hall, rfl⟩ := (hrest cs').1 hcs
            refine ⟨fun j hj => ?_, rfl⟩
            cases j with
            | zero =>
              rw [List.isEmpty_iff] at hne
              rw [Nat.zero_mul]
              exact ⟨List.length_pos_iff.2 hne, hfair⟩
            | succ j =>
              obtain ⟨hlt, hfair'⟩ := hall j (Nat.lt_of_succ_lt_succ hj)
              rw [List.length_drop] at hlt
              exact ⟨by rw [Nat.succ_mul]; omega, hfair'⟩
    · rintro ⟨hall, rfl⟩
      have hne : ¬ table.isEmpty = true := by
        have hpos : 0 * size < table.length := (hall 0 (Nat.zero_lt_succ n)).1
        rw [Nat.zero_mul] at hpos
        rw [List.isEmpty_iff]
        exact List.length_pos_iff.1 hpos
      rw [if_neg hne, (hread _).2 ⟨(hall 0 (Nat.zero_lt_succ n)).2, rfl⟩]
      simp only
      rw [(hrest _).2 ⟨fun j hj => ?_, rfl⟩]
      · rfl
      · obtain ⟨hlt, hfair⟩ := hall (j + 1) (Nat.succ_lt_succ hj)
        rw [Nat.succ_mul] at hlt
        rw [List.length_drop]
        exact ⟨by omega, hfair⟩

end

end ChunkRecord

end Reclaim

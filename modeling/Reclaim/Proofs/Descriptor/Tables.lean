import Reclaim.Descriptor.ChunkRecord
import Reclaim.Descriptor.HostTable
import Reclaim.Descriptor.Topology
import Reclaim.Proofs.Bytes
import Reclaim.Proofs.Key

/-!
# The tables of a descriptor there and back

* `HostTable.read_render`        the host table gives the hosts back;
* `ChunkRecord.slots_numbered`   numbered copies go back into their slots;
* `ChunkRecord.kept`             what a record keeps of a copy: places of hosts have four bytes;
* `ChunkRecord.readAll_records`  the records one after the other give back what they keep;
* `ChunkRecord.kept_eq`          which is every copy as it was, if the places of the hosts fit.
-/

namespace Reclaim

/-! ## the host table -/

namespace HostTable

theorem entry_eq (k : HostKey) :
    entry k = [101, 100, 50, 53, 53, 49, 57, 0, 0, 0, 0, 0, 0, 0, 0, 0] ++
      ([32, 0, 0, 0, 0, 0, 0, 0] ++ (k.bytes ++ [1])) := by
  have hname : HostKey.algorithm.fit 16 =
      [101, 100, 50, 53, 53, 49, 57, 0, 0, 0, 0, 0, 0, 0, 0, 0] := by
    rw [HostKey.algorithm_eq]
    decide
  have hlen : Bytes.le 8 32 = [32, 0, 0, 0, 0, 0, 0, 0] := by decide
  rw [entry, hname, hlen, List.append_assoc, List.append_assoc]

theorem length_entry (k : HostKey) : (entry k).length = entrySize := by
  rw [entry_eq, List.length_append, List.length_append, List.length_append, k.length_eq]
  rfl

theorem readEntry_entry (i : Nat) (k : HostKey) : readEntry i (entry k) = .ok (some k) := by
  have hkey : ((entry k).drop 24).take 32 = k.bytes := by
    rw [entry_eq]
    exact List.take_left' k.length_eq
  have hlen : Bytes.leNat (((entry k).drop 16).take 8) = 32 := by
    rw [entry_eq]
    show Bytes.leNat [32, 0, 0, 0, 0, 0, 0, 0] = 32
    decide
  have hname : ((entry k).take 16).takeWhile (· != 0) = HostKey.algorithm := by
    rw [entry_eq, HostKey.algorithm_eq]
    show List.takeWhile _ [101, 100, 50, 53, 53, 49, 57, 0, 0, 0, 0, 0, 0, 0, 0, 0] = _
    decide
  rw [readEntry, hlen]
  simp only
  rw [if_neg (by decide), if_pos True.intro, hname, if_pos rfl, hkey, HostKey.ofBytes_bytes]

theorem readEntries_map (ks : List HostKey) (i : Nat) :
    readEntries i (ks.map entry) = .ok (ks.map some) := by
  induction ks generalizing i with
  | nil => rfl
  | cons k ks ih =>
    have hlen : ¬ (entry k).length < entrySize := by
      rw [length_entry]
      exact Nat.lt_irrefl _
    rw [List.map_cons, readEntries, if_neg hlen, readEntry_entry]
    simp only
    rw [ih]
    rfl

theorem length_render (ks : List HostKey) : (render ks).length = ks.length * entrySize := by
  rw [render, List.length_flatMap]
  have hconst : ks.map (fun k => (entry k).length) = List.replicate ks.length entrySize := by
    rw [← List.map_const']
    exact List.map_congr_left fun k _ => length_entry k
  rw [hconst, List.sum_replicate_nat]

/-- a host table gives its hosts back -/
theorem read_render (ks : List HostKey) : read (render ks) = .ok (ks.map some) := by
  have hcut := Bytes.segments_flatMap (by decide) length_entry ks []
  rw [List.append_nil, Bytes.segments_nil, List.append_nil] at hcut
  rw [read, render, hcut, readEntries_map]

end HostTable

/-! ## chunk records -/

namespace ChunkRecord

theorem map_snd_numbered (i : Nat) (slots : List (List SectorRef)) :
    (numbered i slots).map Prod.snd = slots.flatten := by
  induction slots generalizing i with
  | nil => rfl
  | cons slot slots ih =>
    rw [numbered, List.map_append, List.map_map, ih, List.flatten_cons]
    congr 1
    exact List.map_id slot

theorem length_numbered (i : Nat) (slots : List (List SectorRef)) :
    (numbered i slots).length = slots.flatten.length := by
  rw [← map_snd_numbered i slots, List.length_map]

theorem lt_of_mem_numbered {i : Nat} {slots : List (List SectorRef)} {t : Nat × SectorRef}
    (h : t ∈ numbered i slots) : i ≤ t.1 ∧ t.1 < i + slots.length := by
  induction slots generalizing i with
  | nil => exact absurd h List.not_mem_nil
  | cons slot slots ih =>
    rw [List.length_cons]
    rcases List.mem_append.1 h with h | h
    · obtain ⟨s, _, rfl⟩ := List.mem_map.1 h
      exact ⟨Nat.le_refl _, by omega⟩
    · have := ih h
      omega

theorem filter_numbered (i p : Nat) (slots : List (List SectorRef)) :
    ((numbered i slots).filter fun t => t.1 = i + p).map Prod.snd = slots.getD p [] := by
  induction slots generalizing i p with
  | nil => rfl
  | cons slot slots ih =>
    rw [numbered, List.filter_append, List.map_append]
    cases p with
    | zero =>
      have hhere : ((slot.map fun s => (i, s)).filter fun t => decide (t.1 = i + 0)) =
          slot.map fun s => (i, s) := by
        refine List.filter_eq_self.2 fun t ht => ?_
        obtain ⟨s, _, rfl⟩ := List.mem_map.1 ht
        exact decide_eq_true rfl
      have hrest : ((numbered (i + 1) slots).filter fun t => decide (t.1 = i + 0)) = [] := by
        refine List.filter_eq_nil_iff.2 fun t ht => ?_
        have := (lt_of_mem_numbered ht).1
        rw [decide_eq_true_eq]
        omega
      rw [hhere, hrest, List.map_map]
      show slot.map _ ++ [] = slot
      rw [List.append_nil]
      exact List.map_id slot
    | succ p =>
      have hhere : ((slot.map fun s => (i, s)).filter
          fun t => decide (t.1 = i + (p + 1))) = [] := by
        refine List.filter_eq_nil_iff.2 fun t ht => ?_
        obtain ⟨s, _, rfl⟩ := List.mem_map.1 ht
        rw [decide_eq_true_eq]
        omega
      have := ih (i + 1) p
      rw [Nat.add_right_comm] at this
      rw [hhere, ← Nat.add_assoc, this]
      rfl

/-- numbered copies go back into their slots -/
theorem slots_numbered (slots : List (List SectorRef)) :
    ChunkRecord.slots slots.length (numbered 0 slots) = slots := by
  refine List.ext_getElem ?_ fun p h1 h2 => ?_
  · rw [ChunkRecord.slots, List.length_map, List.length_range]
  · have := filter_numbered 0 p slots
    rw [Nat.zero_add] at this
    simp only [ChunkRecord.slots, List.getElem_map, List.getElem_range, this]
    rw [List.getD_eq_getElem?_getD, List.getElem?_eq_getElem h2]
    rfl

/-! ### one entry -/

/-- the copy that the entry of a copy is read as -/
def kept (hosts : List HostKey) (r : SectorRef) : SectorRef :=
  ⟨r.root, hosts.getD (hosts.idxOf r.host % Topology.bound32) default⟩

theorem kept_eq {hosts : List HostKey} {r : SectorRef} (h : hosts.idxOf r.host < Topology.bound32)
    (hr : r.host ∈ hosts) : kept hosts r = r := by
  have hidx : hosts.idxOf r.host < hosts.length := List.idxOf_lt_length_of_mem hr
  rw [kept, Nat.mod_eq_of_lt h, List.getD_eq_getElem?_getD, List.getElem?_eq_getElem hidx,
    Option.getD_some, List.getElem_idxOf]

theorem length_entry (hosts : List HostKey) (t : Nat × SectorRef) :
    (entry hosts t).length = refSize := by
  rw [entry, List.length_append, List.length_append, Bytes.length_le, Bytes.length_le,
    t.2.root.length_eq]
  rfl

theorem readEntry_entry {hosts : List HostKey} {numPieces chunk : Nat} {t : Nat × SectorRef}
    (hp : t.1 < numPieces) (hn : numPieces ≤ Topology.bound32) (hh : t.2.host ∈ hosts) :
    readEntry (hosts.map some) numPieces chunk (entry hosts t) = .ok (t.1, kept hosts t.2) := by
  have hidx : hosts.idxOf t.2.host % Topology.bound32 < hosts.length :=
    Nat.lt_of_le_of_lt (Nat.mod_le _ _) (List.idxOf_lt_length_of_mem hh)
  have e : entry hosts t =
      Bytes.le 4 t.1 ++ (Bytes.le 4 (hosts.idxOf t.2.host) ++ t.2.root.bytes) := by
    rw [entry, List.append_assoc]
  have hpiece : (entry hosts t).take 4 = Bytes.le 4 t.1 := by
    rw [e]
    exact List.take_left' (Bytes.length_le 4 _)
  have hdrop : (entry hosts t).drop 4 = Bytes.le 4 (hosts.idxOf t.2.host) ++ t.2.root.bytes := by
    rw [e]
    exact List.drop_left' (Bytes.length_le 4 _)
  have hhost : ((entry hosts t).drop 4).take 4 = Bytes.le 4 (hosts.idxOf t.2.host) := by
    rw [hdrop]
    exact List.take_left' (Bytes.length_le 4 _)
  have hroot : ((entry hosts t).drop 8).take 32 = t.2.root.bytes := by
    have h8 : (entry hosts t).drop 8 = t.2.root.bytes := by
      rw [← List.drop_drop (i := 4) (j := 4), hdrop]
      exact List.drop_left' (Bytes.length_le 4 _)
    rw [h8]
    exact List.take_of_length_le (Nat.le_of_eq t.2.root.length_eq)
  have hplace : Bytes.leNat (Bytes.le 4 (hosts.idxOf t.2.host)) =
      hosts.idxOf t.2.host % Topology.bound32 := Bytes.leNat_le_mod 4 _
  have hget : (hosts.map some)[hosts.idxOf t.2.host % Topology.bound32]? =
      some (some (kept hosts t.2).host) := by
    rw [List.getElem?_map, List.getElem?_eq_getElem hidx, kept, List.getD_eq_getElem?_getD,
      List.getElem?_eq_getElem hidx]
    rfl
  rw [readEntry, hpiece, hhost, hroot, Bytes.leNat_le 4 t.1 (Nat.lt_of_lt_of_le hp hn), hplace,
    if_neg (Nat.not_le_of_lt hp), hget]
  simp only
  rw [Hash256.ofBytes_bytes]
  rfl

theorem readEntries_map {hosts : List HostKey} {numPieces chunk : Nat}
    {ts : List (Nat × SectorRef)} (hp : ∀ t ∈ ts, t.1 < numPieces)
    (hn : numPieces ≤ Topology.bound32) (hh : ∀ t ∈ ts, t.2.host ∈ hosts) :
    readEntries (hosts.map some) numPieces chunk (ts.map (entry hosts)) =
      .ok (ts.map fun t => (t.1, kept hosts t.2)) := by
  induction ts with
  | nil => rfl
  | cons t ts ih =>
    rw [List.map_cons, readEntries,
      readEntry_entry (hp t List.mem_cons_self) hn (hh t List.mem_cons_self)]
    simp only
    rw [ih (fun u hu => hp u (List.mem_cons_of_mem t hu))
      fun u hu => hh u (List.mem_cons_of_mem t hu)]
    rfl

/-! ### one record -/

theorem length_render (hosts : List HostKey) (c : Chunk) : (render hosts c).length = size :=
  Bytes.length_fit size _

theorem length_entries (hosts : List HostKey) (c : Chunk) :
    ((numbered 0 c.slots).flatMap (entry hosts)).length = c.refs.length * refSize := by
  have hcount : (numbered 0 c.slots).length = c.refs.length := length_numbered 0 c.slots
  rw [List.length_flatMap, ← hcount, ← List.sum_replicate_nat, ← List.map_const']
  congr 1
  exact List.map_congr_left fun t _ => length_entry hosts t

theorem render_eq (hosts : List HostKey) {c : Chunk} (h : c.refs.length ≤ maxRefs) :
    ∃ z, render hosts c = List.replicate skip 0 ++ (Bytes.le 2 c.refs.length ++
      ((numbered 0 c.slots).flatMap (entry hosts) ++ z)) := by
  have hcount : (numbered 0 c.slots).length = c.refs.length := length_numbered 0 c.slots
  have hmax : maxRefs = 101 := by decide
  rw [render, Bytes.fit_of_length_le, hcount]
  · simp only [List.append_assoc]
    exact ⟨_, rfl⟩
  · rw [List.length_append, List.length_append, List.length_replicate, Bytes.length_le,
      length_entries, skip, size, refSize]
    omega

/-- the chunk that the record of a chunk is read as -/
def keptChunk (hosts : List HostKey) (c : Chunk) : Chunk := ⟨c.slots.map (List.map (kept hosts))⟩

theorem numbered_map (f : SectorRef → SectorRef) (i : Nat) (slots : List (List SectorRef)) :
    numbered i (slots.map (List.map f)) = (numbered i slots).map fun t => (t.1, f t.2) := by
  induction slots generalizing i with
  | nil => rfl
  | cons slot slots ih =>
    rw [List.map_cons, numbered, numbered, ih, List.map_append, List.map_map, List.map_map]
    rfl

/-- a record gives its chunk back -/
theorem read_render {hosts : List HostKey} {numPieces : Nat} (i : Nat) {c : Chunk}
    (hc : c.refs.length ≤ maxRefs) (hs : c.slots.length = numPieces)
    (hn : numPieces ≤ Topology.bound32) (hh : ∀ r ∈ c.refs, r.host ∈ hosts) :
    read (hosts.map some) numPieces i (render hosts c) = .ok (keptChunk hosts c) := by
  obtain ⟨z, e⟩ := render_eq hosts hc
  have hmax : maxRefs = 101 := by decide
  have hcount : Bytes.leNat (((render hosts c).drop skip).take 2) = c.refs.length := by
    rw [e, List.drop_left' List.length_replicate, List.take_left' (Bytes.length_le 2 _),
      Bytes.leNat_le]
    show c.refs.length < 65536
    omega
  have hrest : (render hosts c).drop (skip + 2) =
      (numbered 0 c.slots).flatMap (entry hosts) ++ z := by
    rw [← List.drop_drop, e, List.drop_left' List.length_replicate,
      List.drop_left' (Bytes.length_le 2 _)]
  have hentries : (Bytes.segments refSize ((render hosts c).drop (skip + 2))).take c.refs.length =
      (numbered 0 c.slots).map (entry hosts) := by
    rw [hrest, Bytes.segments_flatMap (by decide) (length_entry hosts)]
    refine List.take_left' ?_
    rw [List.length_map]
    exact length_numbered 0 c.slots
  have hpieces : ∀ t ∈ numbered 0 c.slots, t.1 < numPieces := fun t ht => by
    have := (lt_of_mem_numbered ht).2
    omega
  have hhosts : ∀ t ∈ numbered 0 c.slots, t.2.host ∈ hosts := fun t ht => by
    refine hh t.2 ?_
    rw [Chunk.refs, ← map_snd_numbered 0 c.slots]
    exact List.mem_map_of_mem ht
  rw [read, hcount]
  simp only
  rw [if_neg (Nat.not_lt_of_le hc), hentries, readEntries_map hpieces hn hhosts]
  simp only
  have hlen : (c.slots.map (List.map (kept hosts))).length = numPieces := by
    rw [List.length_map, hs]
  rw [← numbered_map, ← hlen, slots_numbered]
  rfl

/-- the records of chunks one after the other give the chunks back -/
theorem readAll_records {hosts : List HostKey} {numPieces : Nat} (expected i : Nat)
    {cs : List Chunk} (hc : ∀ c ∈ cs, c.refs.length ≤ maxRefs)
    (hs : ∀ c ∈ cs, c.slots.length = numPieces) (hn : numPieces ≤ Topology.bound32)
    (hh : ∀ c ∈ cs, ∀ r ∈ c.refs, r.host ∈ hosts) :
    readAll (hosts.map some) numPieces expected i cs.length (cs.flatMap (render hosts)) =
      .ok (cs.map (keptChunk hosts)) := by
  induction cs generalizing i with
  | nil => rfl
  | cons c cs ih =>
    have hne : ¬ (render hosts c ++ cs.flatMap (render hosts)).isEmpty = true := by
      intro h
      have h0 := List.append_eq_nil_iff.1 (List.isEmpty_iff.1 h)
      have := length_render hosts c
      rw [h0.1] at this
      exact absurd this (by decide)
    rw [List.length_cons, List.flatMap_cons, readAll, if_neg hne,
      List.take_left' (length_render hosts c), List.drop_left' (length_render hosts c),
      Bytes.fit_of_length_eq _ _ (length_render hosts c),
      read_render i (hc c List.mem_cons_self) (hs c List.mem_cons_self) hn
        (hh c List.mem_cons_self)]
    simp only
    rw [ih (i + 1) (fun d hd => hc d (List.mem_cons_of_mem c hd))
      (fun d hd => hs d (List.mem_cons_of_mem c hd))
      (fun d hd => hh d (List.mem_cons_of_mem c hd))]
    rfl

end ChunkRecord

end Reclaim

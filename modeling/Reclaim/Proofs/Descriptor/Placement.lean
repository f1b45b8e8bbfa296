import Mathlib.Data.List.Induction
import Reclaim.Proofs.Descriptor.Layout

/-!
# Where a written descriptor keeps everything

The header line of an image holds the places of the tables, and the tables begin behind the line:
the places were fixed with room for the widest numbers, so the line is never cut.  What follows is
read off the bytes, place by place, with the header that is read from the same bytes.

* `firstPlaces_firstSeen`       claimed hosts are listed in the order of first mention;
* `HostTable.used_entry`        what the entry of a host holds;
* `ChunkRecord.holds_render`    what the record of a chunk holds, and that the rest is zero;
* `image_laid_out`              all of it, for every descriptor that has an image.
-/

namespace Reclaim

/-! ## first mentions -/

/-- `ks` are the elements of `l`, each of them once, in the order of their first places -/
structure FirstPlaces {α : Type} [DecidableEq α] (l ks : List α) : Prop where
  nodup : ks.Nodup
  mem : ∀ a, a ∈ ks ↔ a ∈ l
  ordered : ks.Pairwise fun a b => l.idxOf a < l.idxOf b

section
variable {α : Type} [DecidableEq α]

theorem firstSeen_concat (l : List α) (a : α) : Descriptor.firstSeen (l ++ [a]) =
    if a ∈ l then Descriptor.firstSeen l else Descriptor.firstSeen l ++ [a] := by
  have hseen := Descriptor.mem_firstSeen l a
  rw [Descriptor.firstSeen, List.mem_reverse] at hseen
  rw [Descriptor.firstSeen, List.foldl_append, List.foldl_cons, List.foldl_nil]
  by_cases h : a ∈ l
  · rw [if_pos h, if_pos (hseen.2 h)]
    rfl
  · rw [if_neg h, if_neg fun h' => h (hseen.1 h'), List.reverse_cons]
    rfl

/-- what is added last comes after all that was there, if it is new -/
theorem pairwise_firstSeen (l : List α) :
    (Descriptor.firstSeen l).Pairwise fun a b => l.idxOf a < l.idxOf b := by
  induction l using List.reverseRecOn with
  | nil => exact List.Pairwise.nil
  | append_singleton l a ih =>
    have hplace : ∀ x ∈ Descriptor.firstSeen l, (l ++ [a]).idxOf x = l.idxOf x := fun x hx =>
      List.idxOf_append_of_mem ((Descriptor.mem_firstSeen l x).1 hx)
    have hold : (Descriptor.firstSeen l).Pairwise
        fun x y => (l ++ [a]).idxOf x < (l ++ [a]).idxOf y :=
      ih.imp_of_mem fun {x y} hx hy h => by
        rw [hplace x hx, hplace y hy]
        exact h
    rw [firstSeen_concat]
    by_cases h : a ∈ l
    · rw [if_pos h]
      exact hold
    · rw [if_neg h]
      refine List.pairwise_append.2 ⟨hold, List.pairwise_singleton _ _, fun x hx y hy => ?_⟩
      have hlt : l.idxOf x < l.length :=
        List.idxOf_lt_length_of_mem ((Descriptor.mem_firstSeen l x).1 hx)
      rw [List.mem_singleton.1 hy, hplace x hx, List.idxOf_append_of_notMem h]
      omega

theorem firstPlaces_firstSeen (l : List α) : FirstPlaces l (Descriptor.firstSeen l) :=
  ⟨Descriptor.nodup_firstSeen l, Descriptor.mem_firstSeen l, pairwise_firstSeen l⟩

end

/-! ## one entry, one record -/

namespace HostTable

/-- the entry of a host in use: the name of its algorithm filled with zeros, the length of its key,
the key, and the mark -/
structure Used (k : HostKey) (e : Bytes) : Prop where
  length : e.length = 57
  algorithm : e.take 16 = HostKey.algorithm ++ List.replicate 9 0
  keyLength : keyLength e = 32
  key : (e.drop 24).take 32 = k.bytes
  mark : e.drop 56 = [1]

theorem used_entry (k : HostKey) : Used k (entry k) where
  length := length_entry k
  algorithm := by
    rw [entry_eq, HostKey.algorithm_eq]
    rfl
  keyLength := by
    rw [keyLength, entry_eq]
    show Bytes.leNat [32, 0, 0, 0, 0, 0, 0, 0] = 32
    decide
  key := by
    rw [entry_eq]
    exact List.take_left' k.length_eq
  mark := by
    have hsplit : (entry k).drop (24 + 32) = [1] := by
      rw [← List.drop_drop, entry_eq]
      exact List.drop_left' k.length_eq
    exact hsplit

end HostTable

namespace ChunkRecord

/-- the record of a chunk: the count of its copies, for each of them the number of its piece, the
place of its host and its root, and nothing but zeros besides -/
structure Holds (hosts : List HostKey) (c : Chunk) (record : Bytes) : Prop where
  length : record.length = 4096
  count : count record = c.refs.length
  copies : ∀ n t, (numbered 0 c.slots)[n]? = some t →
    entryAt record n = Bytes.le 4 t.1 ++ Bytes.le 4 (hosts.idxOf t.2.host) ++ t.2.root.bytes
  before : ∀ j < 17, record[j]? = some 0
  behind : ∀ j, 19 + 40 * c.refs.length ≤ j → j < 4096 → record[j]? = some 0

theorem holds_render (hosts : List HostKey) {c : Chunk} (h : c.refs.length ≤ maxRefs) :
    Holds hosts c (render hosts c) := by
  obtain ⟨z, e⟩ := render_eq hosts h
  have hmax : maxRefs = 101 := by decide
  have hskip : skip = 17 := rfl
  have hdrop : (render hosts c).drop 17 =
      Bytes.le 2 c.refs.length ++ ((numbered 0 c.slots).flatMap (entry hosts) ++ z) := by
    rw [e]
    exact List.drop_left' List.length_replicate
  refine ⟨length_render hosts c, ?_, fun n t ht => ?_, fun j hj => ?_, fun j hj hlt => ?_⟩
  · rw [count, hdrop, List.take_left' (Bytes.length_le 2 _), Bytes.leNat_le]
    show c.refs.length < 65536
    omega
  · have hrest : (render hosts c).drop 19 = (numbered 0 c.slots).flatMap (entry hosts) ++ z := by
      rw [← List.drop_drop (i := 2) (j := 17), hdrop]
      exact List.drop_left' (Bytes.length_le 2 _)
    rw [entryAt, ← List.drop_drop, hrest]
    exact Bytes.slice_flatMap (by decide) (length_entry hosts) ht z
  · rw [e, List.getElem?_append_left (by rw [List.length_replicate]; exact hj),
      List.getElem?_replicate, hskip, if_pos hj]
  · refine Bytes.getElem?_fit_of_le ?_ hlt
    rw [List.length_append, List.length_append, List.length_replicate, Bytes.length_le,
      length_entries]
    show 17 + 2 + c.refs.length * 40 ≤ j
    omega

end ChunkRecord

/-! ## the whole image -/

/-- the bytes of a descriptor `d` at the places that a header `h` names -/
structure LaidOut (d : Descriptor) (b : Bytes) (h : Header) : Prop where
  tableOffset : h.tableOffset = h.table
  chunkOffset : h.chunkOffset = h.records
  page : 4096 ∣ h.table
  lineFits : h.render.length + 1 ≤ h.table
  line : b.take (h.render.length + 1) = h.render ++ [10]
  zeros : ∀ j, h.render.length + 1 ≤ j → j < h.table → b[j]? = some 0
  hosts : FirstPlaces (d.refs.map SectorRef.host) d.hosts
  entries : ∀ j k, d.hosts[j]? = some k → HostTable.Used k (h.host b j)
  records : h.records = h.table + 57 * d.hosts.length
  chunks : ∀ i c, d.chunks[i]? = some c → ChunkRecord.Holds d.hosts c (h.record b i)
  length : b.length = h.records + 4096 * d.chunks.length

namespace Image

theorem page_dvd_tableStart (d : Descriptor) : page ∣ tableStart d := Nat.dvd_mul_left _ _

theorem length_records (hosts : List HostKey) (cs : List Chunk) :
    (cs.flatMap (ChunkRecord.render hosts)).length = 4096 * cs.length := by
  induction cs with
  | nil => rfl
  | cons c cs ih =>
    have hsize : ChunkRecord.size = 4096 := rfl
    rw [List.flatMap_cons, List.length_append, ih, ChunkRecord.length_render, hsize,
      List.length_cons]
    omega

theorem length_written_eq (d : Descriptor) :
    (written d).length = chunkStart d + 4096 * d.chunks.length := by
  rw [written, List.length_append, List.length_append, Bytes.length_fit, HostTable.length_render,
    length_records, chunkStart]

theorem length_line (d : Descriptor) :
    (line d).length = (header d (tableStart d) (chunkStart d)).render.length + 1 := by
  rw [line, List.length_append, List.length_singleton]

theorem take_line {d : Descriptor} (h : chunkStart d < Header.bound63) :
    (written d).take (line d).length = line d := by
  rw [written, Bytes.fit_of_length_le (length_line_le d h), List.append_assoc, List.append_assoc]
  exact List.take_left' rfl

theorem getElem?_written {d : Descriptor} {j : Nat} (hj : (line d).length ≤ j)
    (hlt : j < tableStart d) : (written d)[j]? = some 0 := by
  rw [written, List.append_assoc,
    List.getElem?_append_left (by rw [Bytes.length_fit]; exact hlt)]
  exact Bytes.getElem?_fit_of_le hj hlt

theorem host_written (d : Descriptor) {j : Nat} {k : HostKey} (hk : d.hosts[j]? = some k) :
    (header d (tableStart d) (chunkStart d)).host (written d) j = HostTable.entry k := by
  show ((written d).drop (tableStart d + j * 57)).take 57 = _
  rw [← List.drop_drop, drop_tableStart, HostTable.render]
  exact Bytes.slice_flatMap (by decide) HostTable.length_entry hk _

theorem record_written (d : Descriptor) {i : Nat} {c : Chunk} (hc : d.chunks[i]? = some c) :
    (header d (tableStart d) (chunkStart d)).record (written d) i =
      ChunkRecord.render d.hosts c := by
  have hslice : ((d.chunks.flatMap (ChunkRecord.render d.hosts)).drop (i * 4096)).take 4096 =
      ChunkRecord.render d.hosts c := by
    have h := Bytes.slice_flatMap (by decide) (ChunkRecord.length_render d.hosts) hc []
    rw [List.append_nil] at h
    exact h
  show Bytes.fit 4096 ((written d).drop (chunkStart d + i * 4096)) = _
  rw [← List.drop_drop, drop_chunkStart, ← Bytes.fit_take, hslice]
  exact Bytes.fit_of_length_eq _ _ (ChunkRecord.length_render d.hosts c)

theorem laidOut_written {d : Descriptor}
    (hc : ∀ c ∈ d.chunks, c.refs.length ≤ ChunkRecord.maxRefs)
    (hstart : chunkStart d < Header.bound63) :
    LaidOut d (written d) (header d (tableStart d) (chunkStart d)) where
  tableOffset := rfl
  chunkOffset := rfl
  page := page_dvd_tableStart d
  lineFits := by
    rw [← length_line]
    exact length_line_le d hstart
  line := by
    rw [← length_line]
    exact take_line hstart
  zeros := fun j hj hlt => by
    rw [← length_line] at hj
    exact getElem?_written hj hlt
  hosts := firstPlaces_firstSeen _
  entries := fun j k hk => by
    rw [host_written d hk]
    exact HostTable.used_entry k
  records := by
    show tableStart d + d.hosts.length * 57 = tableStart d + 57 * d.hosts.length
    omega
  chunks := fun i c hi => by
    rw [record_written d hi]
    exact ChunkRecord.holds_render d.hosts (hc c (List.mem_of_getElem? hi))
  length := length_written_eq d

end Image

namespace Descriptor

/-- the image of a descriptor is laid out as the header says that is read from it: the header line
fits before the tables, with zeros up to the page where they begin, each claimed host has one entry,
and each chunk one record; no byte string that a machine can hold has 2^63 bytes, so the numbers of
the header are never wider than the room that was left for them -/
theorem image_laid_out (d : Descriptor) (b : Bytes) (h : d.toImage = .ok b)
    (hlen : b.length < Header.bound63) :
    ∃ header, Header.read b = .ok header ∧ LaidOut d b header := by
  obtain ⟨-, hc, rfl⟩ := (toImage_eq_ok_iff d b).1 h
  have hstart : Image.chunkStart d < Header.bound63 :=
    Nat.lt_of_le_of_lt (Image.length_written d) hlen
  exact ⟨_, Image.read_written hstart, Image.laidOut_written hc hstart⟩

/-- two hosts, of which the first is mentioned twice, in front of the record of the only chunk -/
theorem image_laid_out_odd :
    oddOne.toImage = .ok (Image.written oddOne) ∧
      (Image.written oddOne).length < Header.bound63 ∧
      oddOne.hosts = [HostKey.ofBytes [7], HostKey.ofBytes [5]] ∧
      ∃ header, Header.read (Image.written oddOne) = .ok header ∧
        LaidOut oddOne (Image.written oddOne) header := by
  have himage : oddOne.toImage = .ok (Image.written oddOne) :=
    (toImage_eq_ok_iff _ _).2 ⟨by decide +kernel, by decide +kernel, rfl⟩
  have hlen : (Image.written oddOne).length < Header.bound63 := by decide +kernel
  exact ⟨himage, hlen, by decide +kernel, image_laid_out _ _ himage hlen⟩

end Descriptor

end Reclaim

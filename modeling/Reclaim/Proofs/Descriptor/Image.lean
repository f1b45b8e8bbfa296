import Mathlib.Data.List.Nodup
import Reclaim.Descriptor.Image
import Reclaim.Proofs.Descriptor.Header
import Reclaim.Proofs.Descriptor.Tables
import Reclaim.Proofs.Descriptor.Validate
import Reclaim.Proofs.Text.Base64

/-!
# Descriptors on disk there and back

* `mem_hosts`           the host table lists exactly the claimed hosts;
* `length_line_le`      the header line ends before the tables begin;
* `toImage_eq_ok_iff`   the descriptors that have an image, and which image it is;
* `ofImage_written`     an image gives back what it keeps of its descriptor (`kept`);
* `kept_eq_iff`         which is all of it, exactly if the places of the hosts fit four bytes;
* `image_round_trip`    the two together.
-/

namespace Reclaim

/-! ## claimed hosts -/

namespace Descriptor

theorem mem_foldl_seen {α : Type} [DecidableEq α] (l seen : List α) (a : α) :
    a ∈ l.foldl (fun seen a => if a ∈ seen then seen else a :: seen) seen ↔ a ∈ seen ∨ a ∈ l := by
  induction l generalizing seen with
  | nil =>
    rw [List.foldl_nil]
    exact ⟨Or.inl, fun h => h.resolve_right List.not_mem_nil⟩
  | cons x l ih =>
    rw [List.foldl_cons, ih, List.mem_cons]
    by_cases hx : x ∈ seen
    · rw [if_pos hx]
      constructor
      · rintro (h | h)
        · exact .inl h
        · exact .inr (.inr h)
      · rintro (h | rfl | h)
        · exact .inl h
        · exact .inl hx
        · exact .inr h
    · rw [if_neg hx, List.mem_cons]
      constructor
      · rintro ((h | h) | h)
        · exact .inr (.inl h)
        · exact .inl h
        · exact .inr (.inr h)
      · rintro (h | h | h)
        · exact .inl (.inr h)
        · exact .inl (.inl h)
        · exact .inr h

theorem mem_firstSeen {α : Type} [DecidableEq α] (l : List α) (a : α) :
    a ∈ firstSeen l ↔ a ∈ l := by
  rw [firstSeen, List.mem_reverse, mem_foldl_seen]
  exact ⟨fun h => h.resolve_left List.not_mem_nil, Or.inr⟩

theorem nodup_firstSeen {α : Type} [DecidableEq α] (l : List α) : (firstSeen l).Nodup := by
  have h : ∀ (l seen : List α), seen.Nodup →
      (l.foldl (fun seen a => if a ∈ seen then seen else a :: seen) seen).Nodup := by
    intro l
    induction l with
    | nil => exact fun seen hs => hs
    | cons x l ih =>
      intro seen hs
      rw [List.foldl_cons]
      by_cases hx : x ∈ seen
      · rw [if_pos hx]
        exact ih seen hs
      · rw [if_neg hx]
        exact ih _ (List.nodup_cons.2 ⟨hx, hs⟩)
  exact List.nodup_reverse.2 (h l [] List.nodup_nil)

theorem mem_hosts (d : Descriptor) (k : HostKey) :
    k ∈ d.hosts ↔ ∃ c ∈ d.chunks, ∃ r ∈ c.refs, r.host = k := by
  rw [hosts, mem_firstSeen, List.mem_map]
  constructor
  · rintro ⟨r, hr, rfl⟩
    obtain ⟨c, hc, hr⟩ := List.mem_flatMap.1 hr
    exact ⟨c, hc, r, hr, rfl⟩
  · rintro ⟨c, hc, r, hr, rfl⟩
    exact ⟨r, List.mem_flatMap.2 ⟨c, hc, hr⟩, rfl⟩

end Descriptor

/-! ## cipher names -/

namespace CipherKind

theorem nameOfSpecifier?_of_mem :
    ∀ t ∈ specifiers, nameOfSpecifier? [0, 0, 0, 0, 0, 0, 0, t.2] = some t.1 := by
  decide

theorem specifierOfName?_cases (s : String) :
    specifierOfName? s = none ∨ ∃ spec, specifierOfName? s = some spec ∧ spec.length = 8 ∧
      nameOfSpecifier? spec = some s := by
  rw [specifierOfName?]
  cases hf : specifiers.find? (fun t => t.1 = s) with
  | none => exact .inl rfl
  | some t =>
    have hs : t.1 = s := by
      have := List.find?_some hf
      exact of_decide_eq_true this
    refine .inr ⟨[0, 0, 0, 0, 0, 0, 0, t.2], rfl, rfl, ?_⟩
    rw [nameOfSpecifier?_of_mem t (List.mem_of_find?_eq_some hf), hs]

end CipherKind

namespace Image

/-! ## writing -/

theorem records_eq (hosts : List HostKey) (i : Nat) {cs : List Chunk}
    (h : ∀ c ∈ cs, c.refs.length ≤ ChunkRecord.maxRefs) :
    records hosts i cs = .ok (cs.map (ChunkRecord.render hosts)) := by
  induction cs generalizing i with
  | nil => rfl
  | cons c cs ih =>
    rw [records, if_neg (Nat.not_lt_of_le (h c List.mem_cons_self)),
      ih (i + 1) fun c' hc' => h c' (List.mem_cons_of_mem c hc')]
    rfl

theorem records_ok {hosts : List HostKey} {i : Nat} {cs : List Chunk} {rs : List Bytes}
    (h : records hosts i cs = .ok rs) : ∀ c ∈ cs, c.refs.length ≤ ChunkRecord.maxRefs := by
  induction cs generalizing i rs with
  | nil => exact fun c hc => absurd hc List.not_mem_nil
  | cons c cs ih =>
    rw [records] at h
    split at h
    · cases h
    · next hc =>
      split at h
      · cases h
      · next rs' hrs =>
        rw [List.forall_mem_cons]
        exact ⟨Nat.le_of_not_lt hc, ih hrs⟩

/-- the header line of a descriptor -/
def line (d : Descriptor) : Bytes := (header d (tableStart d) (chunkStart d)).render ++ [10]

/-- the bytes a descriptor is written as, if it is -/
def written (d : Descriptor) : Bytes :=
  Bytes.fit (tableStart d) (line d) ++ HostTable.render d.hosts ++
    d.chunks.flatMap (ChunkRecord.render d.hosts)

end Image

open Image

/-- a descriptor has an image if it can be used and its chunks fit their records -/
theorem Descriptor.toImage_eq_ok_iff (d : Descriptor) (b : Bytes) :
    d.toImage = .ok b ↔ d.validate = .ok () ∧
      (∀ c ∈ d.chunks, c.refs.length ≤ ChunkRecord.maxRefs) ∧ b = written d := by
  constructor
  · intro h
    unfold toImage at h
    split at h
    · cases h
    · next hv =>
      split at h
      · cases h
      · next rs hrs =>
        have hc := records_ok hrs
        rw [records_eq d.hosts 0 hc] at hrs
        cases hrs
        cases h
        refine ⟨hv, hc, ?_⟩
        rw [written, List.flatMap_def]
        rfl
  · rintro ⟨hv, hc, rfl⟩
    rw [toImage, hv, records_eq d.hosts 0 hc, written, List.flatMap_def]
    rfl

namespace Image

/-! ## where everything stands -/

theorem header_eq (d : Descriptor) (t c : Nat) : header d t c = (header d 0 0).withOffsets t c :=
  rfl

theorem tableOffset_header (d : Descriptor) (t c : Nat) :
    (header d t c).tableOffset = Int.ofNat t := rfl

theorem chunkOffset_header (d : Descriptor) (t c : Nat) :
    (header d t c).chunkOffset = Int.ofNat c := rfl

theorem tableStart_le (d : Descriptor) : tableStart d ≤ chunkStart d := Nat.le_add_right _ _

theorem length_line_le (d : Descriptor) (h : chunkStart d < Header.bound63) :
    (line d).length ≤ tableStart d := by
  have ht : tableStart d ≤ Header.bound63 - 1 := by
    have := tableStart_le d
    omega
  have hle := (header d 0 0).length_render_le ht (Nat.le_sub_one_of_lt h)
  rw [← header_eq, ← header_eq] at hle
  rw [line, List.length_append, List.length_singleton]
  have hpage : page = 4096 := rfl
  show _ ≤ ((header d (Header.bound63 - 1) (Header.bound63 - 1)).render.length + 1 + page - 1) /
    page * page
  rw [hpage]
  omega

theorem length_written (d : Descriptor) : chunkStart d ≤ (written d).length := by
  rw [written, List.length_append, List.length_append, Bytes.length_fit, HostTable.length_render,
    chunkStart]
  exact Nat.le_add_right _ _

theorem drop_tableStart (d : Descriptor) : (written d).drop (tableStart d) =
    HostTable.render d.hosts ++ d.chunks.flatMap (ChunkRecord.render d.hosts) := by
  rw [written, List.append_assoc]
  exact List.drop_left' (Bytes.length_fit _ _)

theorem drop_chunkStart (d : Descriptor) : (written d).drop (chunkStart d) =
    d.chunks.flatMap (ChunkRecord.render d.hosts) := by
  rw [chunkStart, ← List.drop_drop, drop_tableStart]
  exact List.drop_left' (HostTable.length_render _)

/-! ## reading the header -/

theorem fair_header {d : Descriptor} (h : chunkStart d < Header.bound63) :
    (header d (tableStart d) (chunkStart d)).Fair where
  fileSize := d.fileSize.toNat_lt
  pieceSize := d.pieceSize.toNat_lt
  tableOffset :=
    ⟨tableStart d, Nat.lt_of_le_of_lt (tableStart_le d) h, tableOffset_header d _ _⟩
  chunkOffset := ⟨chunkStart d, h, chunkOffset_header d _ _⟩
  erasureType := Bytes.length_be 4 _
  erasureParams := by
    show (Bytes.le 4 _ ++ Bytes.le 4 _).length = 8
    rw [List.length_append, Bytes.length_le, Bytes.length_le]
  specifier := fun spec hs => by
    have hs := Option.some.inj hs
    rcases CipherKind.specifierOfName?_cases d.masterKeyType with hn | ⟨spec', hn, hl, _⟩
    · rw [hn] at hs
      cases hs
    · rw [hn] at hs
      cases hs
      exact hl

theorem line_append (d : Descriptor) (r : Bytes) :
    line d ++ r = (header d (tableStart d) (chunkStart d)).render ++ 10 :: r := by
  rw [line, List.append_assoc]
  rfl

theorem written_eq {d : Descriptor} (h : chunkStart d < Header.bound63) :
    ∃ r, written d = (header d (tableStart d) (chunkStart d)).render ++ 10 :: r := by
  refine ⟨List.replicate (tableStart d - (line d).length) 0 ++
    (HostTable.render d.hosts ++ d.chunks.flatMap (ChunkRecord.render d.hosts)), ?_⟩
  rw [written, Bytes.fit_of_length_le (length_line_le d h), List.append_assoc,
    List.append_assoc, line_append]

theorem read_written {d : Descriptor} (h : chunkStart d < Header.bound63) :
    Header.read (written d) = .ok (header d (tableStart d) (chunkStart d)) := by
  obtain ⟨r, hr⟩ := written_eq h
  rw [hr]
  exact Header.read_render (fair_header h) (Json.stops_cons (by decide) _)

/-- tables that lie one behind the other within the bytes -/
theorem tables_eq {h : Header} {b : Bytes} {t c : Nat} {hosts : List (Option HostKey)}
    (ht : h.tableOffset = Int.ofNat t) (hc : h.chunkOffset = Int.ofNat c) (htc : t ≤ c)
    (hcb : c ≤ b.length) (hread : HostTable.read ((b.drop t).take (c - t)) = .ok hosts) :
    tables h b = .ok (hosts, b.drop c) := by
  have hoffset : ∀ what n, n ≤ b.length → offset what b.length (Int.ofNat n) = .ok n := by
    intro what n hn
    rw [offset, if_pos ⟨Int.natCast_nonneg n, hn⟩]
    rfl
  rw [tables, ht, hoffset _ _ (Nat.le_trans htc hcb)]
  simp only
  rw [hc, hoffset _ _ hcb]
  simp only
  rw [if_neg (Nat.not_lt_of_le htc), hread]

theorem tables_written (d : Descriptor) :
    tables (header d (tableStart d) (chunkStart d)) (written d) =
      .ok (d.hosts.map some, d.chunks.flatMap (ChunkRecord.render d.hosts)) := by
  have hsub : chunkStart d - tableStart d = d.hosts.length * HostTable.entrySize := by
    rw [chunkStart, Nat.add_sub_cancel_left]
  have hread : HostTable.read (((written d).drop (tableStart d)).take
      (chunkStart d - tableStart d)) = .ok (d.hosts.map some) := by
    rw [drop_tableStart, hsub, List.take_left' (HostTable.length_render _), HostTable.read_render]
  have h := tables_eq (tableOffset_header d _ _) (chunkOffset_header d _ _)
    (tableStart_le d) (length_written d) hread
  rw [drop_chunkStart] at h
  exact h

theorem masterKey_header (d : Descriptor) (t c : Nat) :
    masterKey (header d t c) = .ok d.masterKey := by
  rw [masterKey, header]
  simp only
  rw [utf8_ascii _ (Base64.encode_lt d.masterKey), Base64.decode_encode]

theorem masterKeyType_header (d : Descriptor) (t c : Nat) :
    masterKeyType (header d t c) = .ok d.masterKeyType := by
  rw [masterKeyType, header]
  simp only
  rcases CipherKind.specifierOfName?_cases d.masterKeyType with hn | ⟨spec, hn, _, hback⟩
  · rw [hn]
  · rw [hn]
    simp only
    rw [hback]

theorem parameters_header {d : Descriptor} (hv : d.Valid) (t c : Nat) :
    parameters (header d t c) = .ok (d.encoderType, d.dataPieces, d.parityPieces) := by
  obtain ⟨coder, hcoder⟩ := hv.coder
  have htag : Bytes.beNat (header d t c).erasureType = d.encoderType.toNat :=
    Bytes.beNat_be 4 _ d.encoderType.toNat_lt
  have hdata : Bytes.leNat ((header d t c).erasureParams.take 4) = d.dataPieces.toNat := by
    show Bytes.leNat ((Bytes.le 4 d.dataPieces.toNat ++ Bytes.le 4 d.parityPieces.toNat).take 4) = _
    rw [List.take_left' (Bytes.length_le 4 _), Bytes.leNat_le 4 _ d.dataPieces.toNat_lt]
  have hparity : Bytes.leNat ((header d t c).erasureParams.drop 4) = d.parityPieces.toNat := by
    show Bytes.leNat ((Bytes.le 4 d.dataPieces.toNat ++ Bytes.le 4 d.parityPieces.toNat).drop 4) = _
    rw [List.drop_left' (Bytes.length_le 4 _), Bytes.leNat_le 4 _ d.parityPieces.toNat_lt]
  obtain ⟨hkind, hkt, _, _⟩ := Coder.ofTag_ok hcoder
  have hdne : d.dataPieces.toNat ≠ 0 := fun e => hv.dataPieces (UInt32.toNat_inj.1 e)
  have hpne : (header d t c).pieceSize ≠ 0 := fun e => hv.pieceSize (UInt64.toNat_inj.1 e)
  rw [parameters, htag]
  simp only
  rw [hkind]
  simp only
  rw [hdata, hparity, if_neg hdne, if_neg hpne, hkt, UInt32.ofNat_toNat, UInt32.ofNat_toNat,
    UInt32.ofNat_toNat]

end Image

/-! ## there and back -/

namespace Descriptor

/-- bytes whose parts are those of a descriptor that can be used give that descriptor, with the
chunks of their records -/
theorem ofImage_eq {b : Bytes} {h : Header} {hosts : List (Option HostKey)} {table : Bytes}
    {d : Descriptor} {cs : List Chunk} (hv : d.Valid) (hread : Header.read b = .ok h)
    (hparam : parameters h = .ok (d.encoderType, d.dataPieces, d.parityPieces))
    (htables : tables h b = .ok (hosts, table)) (hkey : Image.masterKey h = .ok d.masterKey)
    (hname : Image.masterKeyType h = .ok d.masterKeyType) (hfile : h.fileSize = d.fileSize.toNat)
    (hpiece : h.pieceSize = d.pieceSize.toNat) (hlinks : h.skylinks = some d.skylinks)
    (hchunks : ChunkRecord.readAll hosts d.numPieces d.chunks.length 0 d.chunks.length table =
      .ok cs) :
    ofImage b = .ok { d with chunks := cs } := by
  have herasure : { d with chunks := [] }.checkErasure = .ok () :=
    (checkErasure_eq_ok_iff d).2 hv.coder
  obtain ⟨size, hsize⟩ := (checkedChunkSize_eq_ok_iff { d with chunks := [] }).2 hv.size
  have hcount : { d with chunks := [] }.expectedChunks = d.chunks.length := hv.count.symm
  have hnum : { d with chunks := [] }.numPieces = d.numPieces := rfl
  simp only [ofImage, bind, Except.bind, hread, hparam, htables, hkey, hname, hfile, hpiece, hlinks,
    Option.getD_some, UInt64.ofNat_toNat, herasure, hsize, hcount, hnum, hchunks]
  rfl

/-- what the image of a descriptor keeps of it -/
def kept (d : Descriptor) : Descriptor :=
  { d with chunks := d.chunks.map (ChunkRecord.keptChunk d.hosts) }

/-- the image of a descriptor gives back what it keeps -/
theorem ofImage_written {d : Descriptor} (hv : d.Valid)
    (hc : ∀ c ∈ d.chunks, c.refs.length ≤ ChunkRecord.maxRefs)
    (hstart : chunkStart d < Header.bound63) : ofImage (written d) = .ok d.kept := by
  have hn : d.numPieces ≤ Topology.bound32 :=
    Nat.le_trans hv.numPieces_le (by decide)
  have hchunks : ChunkRecord.readAll (d.hosts.map some) d.numPieces d.chunks.length 0
      d.chunks.length (d.chunks.flatMap (ChunkRecord.render d.hosts)) =
        .ok (d.chunks.map (ChunkRecord.keptChunk d.hosts)) :=
    ChunkRecord.readAll_records _ 0 hc hv.slots hn
      fun c hcm r hr => (mem_hosts d r.host).2 ⟨c, hcm, r, hr, rfl⟩
  exact ofImage_eq hv (read_written hstart) (parameters_header hv _ _) (tables_written d)
    (masterKey_header d _ _) (masterKeyType_header d _ _) rfl rfl rfl hchunks

theorem eq_of_map_eq {α : Type} {f : α → α} {l : List α} (h : l.map f = l) : ∀ a ∈ l, f a = a :=
  List.map_inj_left.1 (h.trans (List.map_id l).symm)

theorem map_eq_of_eq {α : Type} {f : α → α} {l : List α} (h : ∀ a ∈ l, f a = a) : l.map f = l :=
  (List.map_congr_left h).trans (List.map_id l)

/-- an image keeps all of its descriptor exactly if the places of the hosts fit -/
theorem kept_eq_iff (d : Descriptor) : d.kept = d ↔ d.hosts.length ≤ Topology.bound32 := by
  constructor
  · intro h
    by_contra hlt
    have hlt : Topology.bound32 < d.hosts.length := Nat.lt_of_not_le hlt
    have hnodup : d.hosts.Nodup := nodup_firstSeen _
    obtain ⟨c, hc, r, hr, hk⟩ := (mem_hosts d d.hosts[Topology.bound32]).1 (List.getElem_mem hlt)
    obtain ⟨slot, hslot, hr⟩ := List.mem_flatten.1 hr
    have hchunk : ChunkRecord.keptChunk d.hosts c = c :=
      eq_of_map_eq (congrArg Descriptor.chunks h) c hc
    have hcopies : slot.map (ChunkRecord.kept d.hosts) = slot :=
      eq_of_map_eq (congrArg Chunk.slots hchunk) slot hslot
    have hhost : (ChunkRecord.kept d.hosts r).host = r.host :=
      congrArg SectorRef.host (eq_of_map_eq hcopies r hr)
    have hzero : 0 < d.hosts.length := Nat.lt_of_le_of_lt (Nat.zero_le _) hlt
    have hplace : d.hosts.idxOf r.host = Topology.bound32 := by
      rw [hk]
      exact hnodup.idxOf_getElem _ hlt
    rw [ChunkRecord.kept, hplace, Nat.mod_self, List.getD_eq_getElem?_getD,
      List.getElem?_eq_getElem hzero, Option.getD_some, hk] at hhost
    have := (hnodup.getElem_inj_iff).1 hhost
    exact absurd this (by decide)
  · intro h
    have hrefs : ∀ c ∈ d.chunks, ∀ r ∈ c.refs, ChunkRecord.kept d.hosts r = r := by
      intro c hc r hr
      have hmem : r.host ∈ d.hosts := (mem_hosts d r.host).2 ⟨c, hc, r, hr, rfl⟩
      exact ChunkRecord.kept_eq
        (Nat.lt_of_lt_of_le (List.idxOf_lt_length_of_mem hmem) h) hmem
    have hchunks : d.chunks.map (ChunkRecord.keptChunk d.hosts) = d.chunks := by
      refine map_eq_of_eq fun c hc => ?_
      have hslots : c.slots.map (List.map (ChunkRecord.kept d.hosts)) = c.slots :=
        map_eq_of_eq fun slot hslot => map_eq_of_eq fun r hr =>
          hrefs c hc r (List.mem_flatten.2 ⟨slot, hslot, hr⟩)
      rw [ChunkRecord.keptChunk, hslots]
    rw [kept, hchunks]

/-- A descriptor has an image exactly if it can be used and no chunk claims more copies than a
record holds.  Read again, the image gives the descriptor with every field as it was; only the
places of the hosts have a width of four bytes. -/
theorem image_round_trip (d : Descriptor) :
    ((∃ b, d.toImage = .ok b) ↔ d.validate = .ok () ∧ ∀ c ∈ d.chunks, c.refs.length ≤ 101) ∧
      ∀ b, d.toImage = .ok b → b.length < Header.bound63 →
        (ofImage b = .ok d ↔ d.hosts.length ≤ Topology.bound32) := by
  have hmax : ChunkRecord.maxRefs = 101 := by decide
  refine ⟨⟨?_, ?_⟩, ?_⟩
  · rintro ⟨b, h⟩
    have h := (toImage_eq_ok_iff d b).1 h
    rw [hmax] at h
    exact ⟨h.1, h.2.1⟩
  · rintro ⟨hv, hc⟩
    refine ⟨written d, (toImage_eq_ok_iff d _).2 ⟨hv, ?_, rfl⟩⟩
    rw [hmax]
    exact hc
  · intro b h hlen
    obtain ⟨hv, hc, rfl⟩ := (toImage_eq_ok_iff d b).1 h
    have hstart : chunkStart d < Header.bound63 := Nat.lt_of_le_of_lt (length_written d) hlen
    rw [ofImage_written ((validate_eq_ok_iff d).1 hv) hc hstart, Except.ok.injEq]
    exact kept_eq_iff d

/-- a descriptor with a name, links and copies of every kind -/
def oddOne : Descriptor where
  fileSize := 3
  pieceSize := 4
  encoderType := 1
  dataPieces := 1
  parityPieces := 1
  masterKey := [1, 2, 3, 4]
  masterKeyType := "no cipher"
  skylinks := ["a\"\\\n\x01", "é"]
  chunks :=
    [⟨[[⟨Hash256.ofBytes [2], HostKey.ofBytes [7]⟩, ⟨Hash256.ofBytes [1], HostKey.ofBytes [5]⟩],
      [⟨Hash256.ofBytes [2], HostKey.ofBytes [7]⟩]]⟩]

theorem image_round_trip_odd :
    oddOne.toImage = .ok (written oddOne) ∧ (written oddOne).length < Header.bound63 ∧
      ofImage (written oddOne) = .ok oddOne := by
  have himage : oddOne.toImage = .ok (written oddOne) :=
    (toImage_eq_ok_iff _ _).2 ⟨by decide +kernel, by decide +kernel, rfl⟩
  have hlen : (written oddOne).length < Header.bound63 := by decide +kernel
  exact ⟨himage, hlen, ((image_round_trip oddOne).2 _ himage hlen).2 (by decide +kernel)⟩

end Descriptor

end Reclaim

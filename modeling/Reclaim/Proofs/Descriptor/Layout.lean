import Mathlib.Logic.Basic
import Reclaim.Proofs.Descriptor.Entries
import Reclaim.Proofs.Descriptor.Image

/-!
# Which byte strings are descriptors

A header says where the two tables of a byte string lie and how many entries they have.  `Layout`
are the conditions on a byte string and its header, each of them about a number or an entry that the
header points to; `Describes` is the descriptor that the header and the entries spell.

* `read_eq_ok_iff`, `parameters_eq_ok_iff`, `tables_eq_ok_iff`, ...   what each step accepts;
* `Numbers.checks_eq_ok_iff`   the checks before any chunk is read, as conditions on the header;
* `readAll_eq_ok_iff`          the records, as far as the header says that there are any;
* `ofImage_exactly_layouts`    a byte string is read if and only if it is laid out so.
-/

namespace Reclaim

theorem bind_eq_ok_iff {ε α β : Type} {x : Except ε α} {f : α → Except ε β} {b : β} :
    (x >>= f) = .ok b ↔ ∃ a, x = .ok a ∧ f a = .ok b := by
  cases x with
  | error e => exact ⟨fun h => (by cases h), fun ⟨_, h, _⟩ => (by cases h)⟩
  | ok a => exact ⟨fun h => ⟨a, rfl, h⟩, fun ⟨_, h, h'⟩ => (by cases h; exact h')⟩

/-! ## what a header says -/

namespace Header

/-- the type tag of the erasure code -/
def tag (h : Header) : Nat := Bytes.beNat h.erasureType

def data (h : Header) : Nat := Bytes.leNat (h.erasureParams.take 4)

def parity (h : Header) : Nat := Bytes.leNat (h.erasureParams.drop 4)

def pieces (h : Header) : Nat := h.data + h.parity

/-- the number of chunks of a file of this size; an empty file still has one -/
def chunks (h : Header) : Nat :=
  max 1 ((h.fileSize + h.pieceSize * h.data - 1) / (h.pieceSize * h.data))

/-- where the host table begins -/
def table (h : Header) : Nat := h.tableOffset.toNat

/-- where the chunk records begin -/
def records (h : Header) : Nat := h.chunkOffset.toNat

/-- the number of whole entries in the host table -/
def hosts (h : Header) : Nat := (h.records - h.table) / 57

/-- entry number `j` of the host table -/
def host (h : Header) (b : Bytes) (j : Nat) : Bytes := (b.drop (h.table + j * 57)).take 57

/-- record number `i`; bytes behind the end count as zero -/
def record (h : Header) (b : Bytes) (i : Nat) : Bytes :=
  Bytes.fit 4096 (b.drop (h.records + i * 4096))

/-- the chunks of the records, each with a slot for every piece -/
def chunkList (h : Header) (b : Bytes) : List Chunk :=
  (List.range h.chunks).map fun i => ChunkRecord.chunk (h.host b) h.pieces (h.record b i)

/-- the header is the value at the front of a byte string -/
def AtFront (h : Header) (b : Bytes) : Prop :=
  ∃ v rest, Json.parseFront b = some (v, rest) ∧ ofJson? v = some h

/-- the key that a header spells; without a key it has no bytes -/
def SpellsKey (h : Header) (key : Bytes) : Prop :=
  match h.masterKey with
  | none => key = []
  | some s => Base64.encode key = utf8 s

/-- the cipher that a header names; without a name there is none -/
def NamesCipher (h : Header) (name : String) : Prop :=
  match h.keyType with
  | none => name = "plaintext"
  | some (.name s) => name = s
  | some (.specifier spec) =>
    ∃ n, (name, n) ∈ CipherKind.specifiers ∧ spec = [0, 0, 0, 0, 0, 0, 0, n]

end Header

/-- the conditions on a byte string and the header at its front -/
structure Layout (b : Bytes) (h : Header) : Prop where
  front : h.AtFront b
  tag : h.tag = 1 ∨ h.tag = 2
  data : 1 ≤ h.data
  pieces : h.data + h.parity ≤ 256
  pieceSize : 0 < h.pieceSize
  chunkSize : h.pieceSize * h.data < bound64
  table : 0 ≤ h.tableOffset
  ordered : h.tableOffset ≤ h.chunkOffset
  within : h.chunkOffset ≤ b.length
  hosts : ∀ j < h.hosts, HostTable.Fair (h.host b j)
  key : ∃ key, h.SpellsKey key
  cipher : ∃ name, h.NamesCipher name
  lastRecord : h.records + 4096 * (h.chunks - 1) < b.length
  records : ∀ i < h.chunks, ChunkRecord.FairRecord (h.host b) h.hosts h.pieces (h.record b i)

/-- the numbers of a header, in a descriptor -/
structure Header.Numbers (h : Header) (d : Descriptor) : Prop where
  fileSize : d.fileSize.toNat = h.fileSize
  pieceSize : d.pieceSize.toNat = h.pieceSize
  encoderType : d.encoderType.toNat = h.tag
  dataPieces : d.dataPieces.toNat = h.data
  parityPieces : d.parityPieces.toNat = h.parity

/-- the descriptor that a header and the entries it points to spell -/
structure Describes (b : Bytes) (h : Header) (d : Descriptor) : Prop where
  numbers : h.Numbers d
  masterKey : h.SpellsKey d.masterKey
  masterKeyType : h.NamesCipher d.masterKeyType
  skylinks : d.skylinks = h.skylinks.getD []
  chunks : d.chunks = h.chunkList b

/-! ## the steps of the reader -/

namespace Header

theorem parseFront_eq_none {b : Bytes} (h : (Json.blank b).isEmpty = true) :
    Json.parseFront b = none := by
  rw [List.isEmpty_iff] at h
  rw [Json.parseFront, Json.parseInside_eq, Json.scan, h]
  rfl

theorem read_eq_ok_iff (b : Bytes) (h : Header) : read b = .ok h ↔ h.AtFront b := by
  rw [read]
  constructor
  · intro hread
    split at hread
    · cases hread
    · split at hread
      · cases hread
      · next v rest hparse =>
        split at hread
        · cases hread
        · next hv =>
          cases hread
          exact ⟨v, rest, hparse, hv⟩
  · rintro ⟨v, rest, hparse, hv⟩
    have hne : ¬ (Json.blank b).isEmpty = true := by
      intro hempty
      rw [parseFront_eq_none hempty] at hparse
      cases hparse
    rw [if_neg hne, hparse]
    simp only
    rw [hv]

theorem AtFront.sized {h : Header} {b : Bytes} (hf : h.AtFront b) : h.Sized := by
  obtain ⟨v, _, _, hv⟩ := hf
  exact sized_of_ofJson? hv

end Header

namespace CipherKind

theorem nameOfSpecifier?_eq_some_iff (spec : Bytes) (name : String) :
    nameOfSpecifier? spec = some name ↔
      ∃ n, (name, n) ∈ specifiers ∧ spec = [0, 0, 0, 0, 0, 0, 0, n] := by
  constructor
  · intro h
    unfold nameOfSpecifier? at h
    split at h
    · next n =>
      obtain ⟨t, ht, rfl⟩ := Option.map_eq_some_iff.1 h
      have hn : t.2 = n := by simpa using List.find?_some ht
      exact ⟨n, hn ▸ List.mem_of_find?_eq_some ht, rfl⟩
    · cases h
  · rintro ⟨n, hn, rfl⟩
    exact nameOfSpecifier?_of_mem _ hn

end CipherKind

namespace Image

theorem masterKey_eq_ok_iff (h : Header) (key : Bytes) :
    masterKey h = .ok key ↔ h.SpellsKey key := by
  rw [masterKey, Header.SpellsKey]
  cases h.masterKey with
  | none =>
    simp only [Except.ok.injEq]
    exact eq_comm
  | some s =>
    simp only [← Base64.decode_eq_some_iff]
    cases Base64.decode (utf8 s) with
    | none => simp
    | some k => simp

theorem masterKeyType_eq_ok_iff (h : Header) (name : String) :
    masterKeyType h = .ok name ↔ h.NamesCipher name := by
  rw [masterKeyType, Header.NamesCipher]
  cases h.keyType with
  | none =>
    simp only [Except.ok.injEq]
    exact eq_comm
  | some k =>
    cases k with
    | name s =>
      simp only [Except.ok.injEq]
      exact eq_comm
    | specifier spec =>
      simp only [← CipherKind.nameOfSpecifier?_eq_some_iff]
      cases CipherKind.nameOfSpecifier? spec with
      | none => simp
      | some s => simp

theorem parameters_eq_ok_iff (h : Header) (t : UInt32 × UInt32 × UInt32) :
    parameters h = .ok t ↔ (h.tag = 1 ∨ h.tag = 2) ∧ 0 < h.data ∧ 0 < h.pieceSize ∧
      t = (UInt32.ofNat h.tag, UInt32.ofNat h.data, UInt32.ofNat h.parity) := by
  rw [parameters]
  by_cases htag : h.tag = 1 ∨ h.tag = 2
  · obtain ⟨kind, hkind⟩ := (ErasureKind.ofTag_isOk_iff h.tag).2 htag
    have hread : ErasureKind.ofTag (Bytes.beNat h.erasureType) = .ok kind := hkind
    simp only [hread]
    change (if h.data = 0 then _ else if h.pieceSize = 0 then _ else
      Except.ok (UInt32.ofNat kind.tag, UInt32.ofNat h.data, UInt32.ofNat h.parity)) = _ ↔ _
    rw [Coder.tag_of_ofTag hkind, and_iff_right htag]
    by_cases hdata : h.data = 0
    · rw [if_pos hdata]
      exact ⟨fun h => (by cases h), fun h => by omega⟩
    · rw [if_neg hdata, and_iff_right (Nat.pos_of_ne_zero hdata)]
      by_cases hpiece : h.pieceSize = 0
      · rw [if_pos hpiece]
        exact ⟨fun h => (by cases h), fun h => by omega⟩
      · rw [if_neg hpiece, and_iff_right (Nat.pos_of_ne_zero hpiece), Except.ok.injEq]
        exact eq_comm
  · cases hkind : ErasureKind.ofTag h.tag with
    | error e =>
      have hread : ErasureKind.ofTag (Bytes.beNat h.erasureType) = .error e := hkind
      simp only [hread]
      exact ⟨fun h => (by cases h), fun h => absurd h.1 htag⟩
    | ok kind => exact absurd ((ErasureKind.ofTag_isOk_iff h.tag).1 ⟨kind, hkind⟩) htag

theorem offset_eq_ok_iff (what : String) (length : Nat) (n : Int) (k : Nat) :
    offset what length n = .ok k ↔ 0 ≤ n ∧ n ≤ length ∧ k = n.toNat := by
  rw [offset]
  split
  · next h =>
    rw [Except.ok.injEq]
    exact ⟨fun hk => ⟨h.1, by omega, hk.symm⟩, fun hk => hk.2.2.symm⟩
  · next h => exact ⟨fun hk => (by cases hk), fun hk => absurd ⟨hk.1, by omega⟩ h⟩

theorem entryAt_window {b : Bytes} {t c j : Nat} (hj : j < (c - t) / HostTable.entrySize) :
    HostTable.entryAt ((b.drop t).take (c - t)) j = (b.drop (t + j * 57)).take 57 := by
  have hsize : HostTable.entrySize = 57 := rfl
  rw [hsize, Nat.lt_div_iff_mul_lt (by decide)] at hj
  rw [HostTable.entryAt, List.drop_take, List.take_take, List.drop_drop, hsize,
    Nat.min_eq_left (by omega)]

/-- the host table within the bytes, entry by entry -/
theorem read_window_eq_ok_iff {h : Header} {b : Bytes} (hb : h.chunkOffset ≤ b.length)
    (ks : List (Option HostKey)) :
    HostTable.read ((b.drop h.table).take (h.records - h.table)) = .ok ks ↔
      (∀ j < h.hosts, HostTable.Fair (h.host b j)) ∧ ks = HostTable.hosts (h.host b) h.hosts := by
  have hlen : ((b.drop h.table).take (h.records - h.table)).length = h.records - h.table := by
    rw [List.length_take, List.length_drop, Header.records]
    omega
  have hentry : ∀ j < h.hosts,
      HostTable.entryAt ((b.drop h.table).take (h.records - h.table)) j = h.host b j :=
    fun j hj => entryAt_window hj
  have hhosts : HostTable.hosts (HostTable.entryAt ((b.drop h.table).take (h.records - h.table)))
      h.hosts = HostTable.hosts (h.host b) h.hosts :=
    List.map_congr_left fun j hj => by rw [hentry j (List.mem_range.1 hj)]
  rw [HostTable.read_eq_ok_iff, hlen, ← hhosts]
  refine and_congr_left fun _ => forall_congr' fun j => imp_congr_right fun hj => ?_
  rw [hentry j hj]

theorem tables_eq_ok_iff (h : Header) (b : Bytes) (hosts : List (Option HostKey)) (rest : Bytes) :
    tables h b = .ok (hosts, rest) ↔ 0 ≤ h.tableOffset ∧ h.tableOffset ≤ h.chunkOffset ∧
      h.chunkOffset ≤ b.length ∧ (∀ j < h.hosts, HostTable.Fair (h.host b j)) ∧
      hosts = HostTable.hosts (h.host b) h.hosts ∧ rest = b.drop h.records := by
  rw [tables]
  constructor
  · intro ht
    split at ht
    · cases ht
    · next t htable =>
      obtain ⟨hpos, _, rfl⟩ := (offset_eq_ok_iff _ _ _ _).1 htable
      split at ht
      · cases ht
      · next c hchunks =>
        obtain ⟨hpos', hb, rfl⟩ := (offset_eq_ok_iff _ _ _ _).1 hchunks
        split at ht
        · cases ht
        · next horder =>
          split at ht
          · cases ht
          · next ks hks =>
            cases ht
            obtain ⟨hfair, hhosts⟩ := (read_window_eq_ok_iff hb _).1 hks
            exact ⟨hpos, by omega, hb, hfair, hhosts, rfl⟩
  · rintro ⟨hpos, horder, hb, hfair, rfl, rfl⟩
    have htable : h.tableOffset = Int.ofNat h.table := (Int.toNat_of_nonneg hpos).symm
    have hrecords : h.chunkOffset = Int.ofNat h.records :=
      (Int.toNat_of_nonneg (Int.le_trans hpos horder)).symm
    exact tables_eq htable hrecords (Int.toNat_le_toNat horder) (Int.toNat_le.2 hb)
      ((read_window_eq_ok_iff hb _).2 ⟨hfair, rfl⟩)

end Image

/-! ## the descriptor of a header -/

namespace Header

/-- a descriptor with the numbers and links of a header -/
def descriptor (h : Header) (key : Bytes) (name : String) (chunks : List Chunk) : Descriptor where
  fileSize := UInt64.ofNat h.fileSize
  pieceSize := UInt64.ofNat h.pieceSize
  encoderType := UInt32.ofNat h.tag
  dataPieces := UInt32.ofNat h.data
  parityPieces := UInt32.ofNat h.parity
  masterKey := key
  masterKeyType := name
  skylinks := h.skylinks.getD []
  chunks := chunks

theorem Sized.numbers {h : Header} (hs : h.Sized) (key : Bytes) (name : String)
    (chunks : List Chunk) : h.Numbers (h.descriptor key name chunks) := by
  have htag : h.tag < Bytes.count 4 := by
    have := Bytes.leNat_lt h.erasureType.reverse
    rwa [List.length_reverse, hs.erasureType] at this
  have hdata : h.data < Bytes.count 4 := Bytes.leNat_take_lt 4 _
  have hparity : h.parity < Bytes.count 4 := by
    have := Bytes.leNat_lt (h.erasureParams.drop 4)
    rwa [List.length_drop, hs.erasureParams] at this
  exact ⟨UInt64.toNat_ofNat_of_lt' hs.fileSize, UInt64.toNat_ofNat_of_lt' hs.pieceSize,
    UInt32.toNat_ofNat_of_lt' htag, UInt32.toNat_ofNat_of_lt' hdata,
    UInt32.toNat_ofNat_of_lt' hparity⟩

theorem Numbers.eq_descriptor {h : Header} {d : Descriptor} (hd : h.Numbers d)
    (hlinks : d.skylinks = h.skylinks.getD []) :
    d = h.descriptor d.masterKey d.masterKeyType d.chunks := by
  rw [descriptor, ← hd.fileSize, ← hd.pieceSize, ← hd.encoderType, ← hd.dataPieces,
    ← hd.parityPieces, ← hlinks]
  simp only [UInt64.ofNat_toNat, UInt32.ofNat_toNat]

section
variable {h : Header} {d : Descriptor} (hd : h.Numbers d)
include hd

theorem Numbers.numPieces : d.numPieces = h.pieces := by
  rw [Descriptor.numPieces, hd.dataPieces, hd.parityPieces]
  rfl

theorem Numbers.size : d.pieceSize.toNat * d.dataPieces.toNat = h.pieceSize * h.data := by
  rw [hd.pieceSize, hd.dataPieces]

/-- the descriptor of a header passes the checks of its parameters, if the numbers allow it -/
theorem Numbers.checks_eq_ok_iff :
    d.checkErasure = .ok () ∧ (∃ size, d.checkedChunkSize = .ok size) ↔
      ((h.tag = 1 ∨ h.tag = 2) ∧ 0 < h.data ∧ h.data + h.parity ≤ 256) ∧
        h.pieceSize * h.data < bound64 := by
  rw [Descriptor.checkErasure_eq_ok_iff, Descriptor.coder_isOk_iff,
    Descriptor.checkedChunkSize_eq_ok_iff, hd.numPieces, hd.size, hd.encoderType, hd.dataPieces]
  rfl

theorem Numbers.expectedChunks (hpiece : 0 < h.pieceSize) (hdata : 0 < h.data)
    (hsize : h.pieceSize * h.data < bound64) : d.expectedChunks = h.chunks := by
  rw [Descriptor.expectedChunks_eq (Nat.mul_pos hpiece hdata) hd.size hsize, hd.fileSize]
  rfl

end

theorem chunks_pos (h : Header) : 0 < h.chunks :=
  Nat.lt_of_lt_of_le Nat.one_pos (Nat.le_max_left _ _)

/-- the records lie within the bytes if the last one begins there -/
theorem readAll_eq_ok_iff (h : Header) (b : Bytes) (expected : Nat) (cs : List Chunk) :
    ChunkRecord.readAll (HostTable.hosts (h.host b) h.hosts) h.pieces expected 0 h.chunks
        (b.drop h.records) = .ok cs ↔
      h.records + 4096 * (h.chunks - 1) < b.length ∧
      (∀ i < h.chunks, ChunkRecord.FairRecord (h.host b) h.hosts h.pieces (h.record b i)) ∧
      cs = h.chunkList b := by
  have hrecord : ∀ i, ChunkRecord.recordAt (b.drop h.records) i = h.record b i := by
    intro i
    rw [ChunkRecord.recordAt, List.drop_drop]
    rfl
  have hsize : ChunkRecord.size = 4096 := rfl
  have hpos := h.chunks_pos
  rw [ChunkRecord.readAll_eq_ok_iff, ← and_assoc, chunkList]
  simp only [hrecord, hsize, List.length_drop]
  refine and_congr_left fun _ => ⟨fun hall => ⟨?_, fun i hi => (hall i hi).2⟩, ?_⟩
  · have hlast := (hall (h.chunks - 1) (by omega)).1
    omega
  · rintro ⟨hlast, hfair⟩ i hi
    exact ⟨by omega, hfair i hi⟩

end Header

/-! ## all steps together -/

namespace Descriptor

/-- what the reader asks of a byte string, step by step -/
theorem ofImage_eq_ok_iff_steps (b : Bytes) (d : Descriptor) : ofImage b = .ok d ↔
    ∃ h key name, Header.read b = .ok h ∧
      Image.parameters h = .ok (UInt32.ofNat h.tag, UInt32.ofNat h.data, UInt32.ofNat h.parity) ∧
      Image.tables h b = .ok (HostTable.hosts (h.host b) h.hosts, b.drop h.records) ∧
      Image.masterKey h = .ok key ∧ Image.masterKeyType h = .ok name ∧
      (h.descriptor key name []).checkErasure = .ok () ∧
      (∃ size, (h.descriptor key name []).checkedChunkSize = .ok size) ∧
      ∃ cs, ChunkRecord.readAll (HostTable.hosts (h.host b) h.hosts)
          (h.descriptor key name []).numPieces (h.descriptor key name []).expectedChunks 0
          (h.descriptor key name []).expectedChunks (b.drop h.records) = .ok cs ∧
        d = h.descriptor key name cs := by
  simp only [ofImage, bind_eq_ok_iff, Prod.exists]
  constructor
  · rintro ⟨h, hread, _, _, _, hparam, _, _, htables, key, hkey, name, hname, _, herasure, hsize⟩
    obtain ⟨_, _, _, hnumbers⟩ := (Image.parameters_eq_ok_iff h _).1 hparam
    obtain ⟨_, _, _, _, rfl, rfl⟩ := (Image.tables_eq_ok_iff h b _ _).1 htables
    cases hnumbers
    obtain ⟨size, hsize, cs, hchunks, hd⟩ := hsize
    cases hd
    exact ⟨h, key, name, hread, hparam, htables, hkey, hname, herasure, ⟨size, hsize⟩, cs, hchunks,
      rfl⟩
  · rintro ⟨h, key, name, hread, hparam, htables, hkey, hname, herasure, ⟨size, hsize⟩, cs, hchunks,
      rfl⟩
    exact ⟨h, hread, _, _, _, hparam, _, _, htables, key, hkey, name, hname, _, herasure, size,
      hsize, cs, hchunks, rfl⟩

theorem ofImage_eq_ok_iff (b : Bytes) (d : Descriptor) :
    ofImage b = .ok d ↔ ∃ h, Layout b h ∧ Describes b h d := by
  rw [ofImage_eq_ok_iff_steps]
  constructor
  · rintro ⟨h, key, name, hread, hparam, htables, hkey, hname, herasure, hsize, cs, hchunks, rfl⟩
    have hfront := (Header.read_eq_ok_iff b h).1 hread
    obtain ⟨_, hdata, hpiece, _⟩ := (Image.parameters_eq_ok_iff h _).1 hparam
    obtain ⟨hnonneg, hordered, hwithin, hentries, _⟩ := (Image.tables_eq_ok_iff h b _ _).1 htables
    have hspells := (Image.masterKey_eq_ok_iff h key).1 hkey
    have hnames := (Image.masterKeyType_eq_ok_iff h name).1 hname
    have hempty := hfront.sized.numbers key name []
    obtain ⟨⟨htag, _, hpieces⟩, hlt⟩ := hempty.checks_eq_ok_iff.1 ⟨herasure, hsize⟩
    rw [hempty.numPieces, hempty.expectedChunks hpiece hdata hlt, Header.readAll_eq_ok_iff]
      at hchunks
    obtain ⟨hlast, hfair, hcs⟩ := hchunks
    exact ⟨h, ⟨hfront, htag, hdata, hpieces, hpiece, hlt, hnonneg, hordered, hwithin, hentries,
      ⟨key, hspells⟩, ⟨name, hnames⟩, hlast, hfair⟩,
      ⟨hfront.sized.numbers key name cs, hspells, hnames, rfl, hcs⟩⟩
  · rintro ⟨h, hl, hd⟩
    have hempty := hl.front.sized.numbers d.masterKey d.masterKeyType []
    obtain ⟨herasure, hsize⟩ :=
      hempty.checks_eq_ok_iff.2 ⟨⟨hl.tag, hl.data, hl.pieces⟩, hl.chunkSize⟩
    refine ⟨h, d.masterKey, d.masterKeyType, (Header.read_eq_ok_iff b h).2 hl.front,
      (Image.parameters_eq_ok_iff h _).2 ⟨hl.tag, hl.data, hl.pieceSize, rfl⟩,
      (Image.tables_eq_ok_iff h b _ _).2 ⟨hl.table, hl.ordered, hl.within, hl.hosts, rfl, rfl⟩,
      (Image.masterKey_eq_ok_iff h _).2 hd.masterKey,
      (Image.masterKeyType_eq_ok_iff h _).2 hd.masterKeyType, herasure, hsize, d.chunks, ?_,
      hd.numbers.eq_descriptor hd.skylinks⟩
    rw [hempty.numPieces, hempty.expectedChunks hl.pieceSize hl.data hl.chunkSize,
      Header.readAll_eq_ok_iff]
    exact ⟨hl.lastRecord, hl.records, hd.chunks⟩

theorem exists_describes {b : Bytes} {h : Header} (hl : Layout b h) : ∃ d, Describes b h d := by
  obtain ⟨key, hkey⟩ := hl.key
  obtain ⟨name, hname⟩ := hl.cipher
  exact ⟨h.descriptor key name (h.chunkList b), hl.front.sized.numbers key name _, hkey, hname, rfl,
    rfl⟩

/-- The reader accepts the byte strings that are laid out as the header at their front says, and no
others.  What it gives is the descriptor that the header and its tables describe: the numbers, key,
cipher and links of the header, and for each record a chunk whose slots hold the copies that name
their piece, in the order of the record. -/
theorem ofImage_exactly_layouts (b : Bytes) :
    ((∃ d, ofImage b = .ok d) ↔ ∃ h, Layout b h) ∧
      ∀ d, ofImage b = .ok d ↔ ∃ h, Layout b h ∧ Describes b h d := by
  refine ⟨⟨?_, ?_⟩, ofImage_eq_ok_iff b⟩
  · rintro ⟨d, hd⟩
    obtain ⟨h, hl, _⟩ := (ofImage_eq_ok_iff b d).1 hd
    exact ⟨h, hl⟩
  · rintro ⟨h, hl⟩
    obtain ⟨d, hd⟩ := exists_describes hl
    exact ⟨d, (ofImage_eq_ok_iff b d).2 ⟨h, hl, hd⟩⟩

end Descriptor

end Reclaim

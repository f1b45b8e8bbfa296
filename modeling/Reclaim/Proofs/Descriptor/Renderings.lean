import Reclaim.Descriptor.Topology
import Reclaim.Proofs.Json.Keys
import Reclaim.Proofs.Json.Pretty

/-!
# The documents of a descriptor

A descriptor has many documents: the fields of an object may come in any order and under any of
their names, fields that nobody knows may stand between them, a text may be written with any
escapes, and what is empty may be given as `null` or not at all.

* `Topology.Renders`   the documents of a descriptor;
* `descriptor?_of_gives`   all of them are read as it;
* `descriptor?_of_lacks`   without the type of the coder there is nothing to be read;
* `renders_toTopology`   the document that is written is one of them.
-/

namespace Reclaim

namespace Topology

open Json

/-! ## values -/

inductive IsText (s : String) : Json → Prop where
  | mk {b : Bytes} (h : Writes b (utf8 s)) : IsText s (.string b)

inductive IsHash (h : Hash256) : Json → Prop where
  | mk {b t : Bytes} (hb : Writes b t) (ht : h.Spelled t) : IsHash h (.string b)

inductive IsHost (k : HostKey) : Json → Prop where
  | mk {b t : Bytes} (hb : Writes b t) (ht : k.Spelled t) : IsHost k (.string b)

/-- a byte string by its letters; `null` for none -/
inductive IsBytes : Bytes → Json → Prop where
  | text {k b : Bytes} (h : Writes b (Base64.encode k)) : IsBytes k (.string b)
  | null : IsBytes [] .null

/-- a list by its elements; `null` for none -/
inductive IsList {α : Type} (P : α → Json → Prop) : List α → Json → Prop where
  | array {l : List α} {vs : List Json} (h : List.Forall₂ P l vs) : IsList P l (.array vs)
  | null : IsList P [] .null

/-! ## descriptors -/

def IsRef (r : SectorRef) (v : Json) : Prop :=
  ∃ named, IsObject named v ∧ Has ["merkleRoot", "MerkleRoot"] (IsHash r.root) named ∧
    Has ["hostKey", "HostKey"] (IsHost r.host) named

def IsChunk (c : Chunk) (v : Json) : Prop :=
  ∃ named, IsObject named v ∧ Has ["pieces", "Pieces"] (IsList (IsList IsRef) c.slots) named

/-- members that give the fields of a descriptor; what is not given is as it is by default -/
structure Gives (d : Descriptor) (named : List (String × Json)) : Prop where
  fileSize : Has ["fileSize", "filesize"] (· = Json.ofNat d.fileSize.toNat) named
  pieceSize : Has ["pieceSize", "piecesize"] (· = Json.ofNat d.pieceSize.toNat) named
  encoderType : Has ["encoderType", "encodertype"] (· = Json.ofNat d.encoderType.toNat) named
  dataPieces : Has ["dataPieces", "datapieces"] (· = Json.ofNat d.dataPieces.toNat) named
  parityPieces : Has ["parityPieces", "paritypieces"] (· = Json.ofNat d.parityPieces.toNat) named
  masterKey : Has ["masterKey", "masterkey"] (IsBytes d.masterKey) named ∨
    d.masterKey = [] ∧ Lacks ["masterKey", "masterkey"] named
  masterKeyType : Has ["masterKeyType", "masterkeytype"] (IsText d.masterKeyType) named ∨
    d.masterKeyType = "plaintext" ∧ Lacks ["masterKeyType", "masterkeytype"] named
  skylinks : Has ["skylinks"] (IsList IsText d.skylinks) named ∨
    d.skylinks = [] ∧ Lacks ["skylinks"] named
  chunks : Has ["chunks"] (IsList IsChunk d.chunks) named

/-- the bytes `b` are a document of the descriptor -/
def Renders (d : Descriptor) (b : Bytes) : Prop :=
  ∃ v named, Spells v b ∧ IsObject named v ∧ Gives d named

/-! ## values are read -/

theorem text?_of_isText {s : String} {v : Json} (h : IsText s v) : v.text? = some s := by
  obtain ⟨h⟩ := h
  exact bodyText?_of_writes h

theorem hash?_of_isHash {h : Hash256} {v : Json} (hv : IsHash h v) : hash? v = some h := by
  obtain ⟨hb, ht⟩ := hv
  exact hash?_of_spelled ht hb

theorem hostKey?_of_isHost {k : HostKey} {v : Json} (hv : IsHost k v) : hostKey? v = some k := by
  obtain ⟨hb, ht⟩ := hv
  exact hostKey?_of_spelled ht hb

theorem keyBytes?_of_isBytes {k : Bytes} {v : Json} (h : IsBytes k v) : keyBytes? v = some k := by
  cases h with
  | @text k b h =>
    have hascii : ∀ x ∈ Base64.encode k, x < 128 := fun x hx => (Base64.clear_encode x hx).ascii
    have htext : nullable? text? (.string b) =
        some (some (String.ofList ((Base64.encode k).map Char.ofUInt8))) := by
      rw [nullable?, text?, bodyText?_of_ascii hascii h]
      rfl
    rw [keyBytes?, htext]
    simp only
    rw [utf8_ascii _ hascii, Base64.decode_encode]
  | null => rfl

theorem listOrNull?_of_isList {α : Type} {P : α → Json → Prop} {f : Json → Option α} {l : List α}
    {v : Json} (h : IsList P l v) (hP : ∀ a v, P a v → f v = some a) :
    listOrNull? f v = some l := by
  cases h with
  | null => rfl
  | @array l vs h =>
    have hlist : list? f (.array vs) = some l := list?_array_eq_some_iff.2 (h.imp hP)
    rw [listOrNull?, nullable?, hlist]
    rfl

theorem ref?_of_isRef {r : SectorRef} {v : Json} (h : IsRef r v) : ref? v = some r := by
  obtain ⟨named, hv, hroot, hhost⟩ := h
  obtain ⟨root, eroot, hroot⟩ := hroot.read hash? fun _ => hash?_of_isHash
  obtain ⟨host, ehost, hhost⟩ := hhost.read hostKey? fun _ => hostKey?_of_isHost
  have hrecord : record? refFields v = some [some root, some host] :=
    (hv.record?_eq_some_iff (by decide)).2 (congrArg₂ (fun a b => [a, b]) eroot ehost)
  rw [ref?, hrecord]
  simp only [required?, hroot, hhost]

theorem chunk?_of_isChunk {c : Chunk} {v : Json} (h : IsChunk c v) : chunk? v = some c := by
  obtain ⟨named, hv, hpieces⟩ := h
  obtain ⟨pieces, epieces, hpieces⟩ := hpieces.read (listOrNull? (listOrNull? ref?)) fun _ h =>
    listOrNull?_of_isList h fun _ _ h => listOrNull?_of_isList h fun _ _ => ref?_of_isRef
  have hrecord : record? chunkFields v = some [some pieces] :=
    (hv.record?_eq_some_iff (by decide)).2 (congrArg (fun a => [a]) epieces)
  rw [chunk?, hrecord]
  simp only [optional?, hpieces, Option.map_some]

/-! ## every document is read -/

theorem nat?_uint64 (n : UInt64) : nat? bound64 (Json.ofNat n.toNat) = some n.toNat :=
  nat?_ofNat n.toNat_lt

theorem nat?_uint32 (n : UInt32) : nat? bound32 (Json.ofNat n.toNat) = some n.toNat :=
  nat?_ofNat n.toNat_lt

theorem descriptor?_of_gives {d : Descriptor} {named : List (String × Json)} {v : Json}
    (hv : IsObject named v) (h : Gives d named) : descriptor? v = some d := by
  obtain ⟨fileSize, e₁, h₁⟩ := h.fileSize.read _ fun _ h => h ▸ nat?_uint64 d.fileSize
  obtain ⟨pieceSize, e₂, h₂⟩ := h.pieceSize.read _ fun _ h => h ▸ nat?_uint64 d.pieceSize
  obtain ⟨encoderType, e₃, h₃⟩ := h.encoderType.read _ fun _ h => h ▸ nat?_uint32 d.encoderType
  obtain ⟨dataPieces, e₄, h₄⟩ := h.dataPieces.read _ fun _ h => h ▸ nat?_uint32 d.dataPieces
  obtain ⟨parityPieces, e₅, h₅⟩ := h.parityPieces.read _ fun _ h => h ▸ nat?_uint32 d.parityPieces
  obtain ⟨masterKey, e₆, h₆⟩ := read_or keyBytes? h.masterKey fun _ => keyBytes?_of_isBytes
  obtain ⟨masterKeyType, e₇, h₇⟩ := read_or text? h.masterKeyType fun _ => text?_of_isText
  obtain ⟨skylinks, e₈, h₈⟩ := read_or (listOrNull? text?) h.skylinks fun _ h =>
    listOrNull?_of_isList h fun _ _ => text?_of_isText
  obtain ⟨chunks, e₉, h₉⟩ := h.chunks.read (listOrNull? chunk?) fun _ h =>
    listOrNull?_of_isList h fun _ _ => chunk?_of_isChunk
  have hrecord : record? descriptorFields v = some [some fileSize, some pieceSize,
      some encoderType, some dataPieces, some parityPieces, masterKey, masterKeyType, skylinks,
      some chunks] := by
    refine (hv.record?_eq_some_iff (by decide)).2 ?_
    simp only [List.map_cons, List.map_nil, Option.toList_some, e₁, e₂, e₃, e₄, e₅, e₆, e₇, e₈, e₉]
    rfl
  have htype : CipherKind.plaintext.name = "plaintext" := rfl
  have hchunks : optional? [] (listOrNull? chunk?) (some chunks) = some d.chunks := h₉
  rw [descriptor?, hrecord]
  simp only [required?, htype, h₁, h₂, h₃, h₄, h₅, h₆, h₇, h₈, hchunks, bind, Option.bind,
    UInt64.ofNat_toNat, UInt32.ofNat_toNat]

/-- members without the type of the coder give no descriptor -/
theorem descriptor?_of_lacks {named : List (String × Json)} {v : Json} (hv : IsObject named v)
    (h : Lacks ["encoderType", "encodertype"] named) : descriptor? v = none := by
  rw [Option.eq_none_iff_forall_ne_some]
  intro d hd
  rw [descriptor?] at hd
  obtain ⟨found, hfound, hd⟩ := Option.bind_eq_some_iff.1 hd
  have hgiven := (hv.record?_eq_some_iff (by decide)).1 hfound
  split at hd
  · next encoderType _ _ _ _ _ _ =>
    have hthird := congrArg (fun values : List (List Json) => values.getD 2 []) hgiven
    have htype : encoderType.toList = [] := Eq.trans hthird h
    rw [Option.toList_eq_nil_iff.1 htype] at hd
    simp only [Option.bind_eq_bind, Option.bind_eq_some_iff] at hd
    obtain ⟨_, _, _, _, _, h, _⟩ := hd
    cases h
  · cases hd

/-! ## the document that is written -/

theorem plain_ofRef (r : SectorRef) : Plain (ofRef r) := by
  refine plain_ofMembers ?_
  simp only [List.forall_mem_cons]
  exact ⟨plain_ofHash r.root, plain_ofHost r.host, fun m hm => absurd hm List.not_mem_nil⟩

theorem plain_ofChunk (c : Chunk) : Plain (ofChunk c) := by
  refine plain_ofMembers ?_
  simp only [List.forall_mem_cons]
  exact ⟨plain_map (plain_map plain_ofRef) c.slots, fun m hm => absurd hm List.not_mem_nil⟩

/-- the members of a descriptor's document -/
def members (d : Descriptor) : List (String × Json) :=
  [("fileSize", Json.ofNat d.fileSize.toNat), ("pieceSize", Json.ofNat d.pieceSize.toNat),
   ("encoderType", Json.ofNat d.encoderType.toNat), ("dataPieces", Json.ofNat d.dataPieces.toNat),
   ("parityPieces", Json.ofNat d.parityPieces.toNat),
   ("masterKey", Json.ofDigits (Base64.encode d.masterKey)),
   ("masterKeyType", Json.ofText d.masterKeyType),
   ("skylinks", .array (d.skylinks.map Json.ofText)), ("chunks", .array (d.chunks.map ofChunk))]

theorem ofDescriptor_eq (d : Descriptor) : ofDescriptor d = ofMembers (members d) := rfl

theorem plain_ofDescriptor (d : Descriptor) : Plain (ofDescriptor d) := by
  rw [ofDescriptor_eq]
  refine plain_ofMembers ?_
  simp only [members, List.forall_mem_cons]
  refine ⟨plain_ofNat _, plain_ofNat _, plain_ofNat _, plain_ofNat _, plain_ofNat _,
    plain_ofDigits Base64.clear_encode, plain_ofText _, plain_map plain_ofText _,
    plain_map plain_ofChunk _, ?_⟩
  exact fun m hm => absurd hm List.not_mem_nil

theorem isHash_ofHash (h : Hash256) : IsHash h (ofHash h) :=
  .mk (writes_clear Hex.clear_digits) h.spelled_digits

theorem isHost_ofHost (k : HostKey) : IsHost k (ofHost k) :=
  .mk (writes_clear (clear_host k)) k.spelled_digits

theorem isList_map {α : Type} {P : α → Json → Prop} {f : α → Json} (h : ∀ a, P a (f a))
    (l : List α) : IsList P l (.array (l.map f)) := by
  refine .array ?_
  induction l with
  | nil => exact .nil
  | cons a l ih => exact .cons (h a) ih

theorem isRef_ofRef (r : SectorRef) : IsRef r (ofRef r) :=
  ⟨_, isObject_ofMembers _, ⟨_, rfl, isHash_ofHash r.root⟩, ⟨_, rfl, isHost_ofHost r.host⟩⟩

theorem isChunk_ofChunk (c : Chunk) : IsChunk c (ofChunk c) :=
  ⟨_, isObject_ofMembers _, _, rfl, isList_map (isList_map isRef_ofRef) c.slots⟩

theorem gives_members (d : Descriptor) : Gives d (members d) where
  fileSize := ⟨_, rfl, rfl⟩
  pieceSize := ⟨_, rfl, rfl⟩
  encoderType := ⟨_, rfl, rfl⟩
  dataPieces := ⟨_, rfl, rfl⟩
  parityPieces := ⟨_, rfl, rfl⟩
  masterKey := .inl ⟨_, rfl, .text (writes_clear Base64.clear_encode)⟩
  masterKeyType := .inl ⟨_, rfl, .mk (writes_escape _)⟩
  skylinks := .inl ⟨_, rfl, isList_map (fun _ => .mk (writes_escape _)) d.skylinks⟩
  chunks := ⟨_, rfl, isList_map isChunk_ofChunk d.chunks⟩

/-- what is written for a descriptor is one of its documents -/
theorem renders_toTopology (d : Descriptor) : Renders d d.toTopology :=
  ⟨_, members d, spells_prettyAt (plain_ofDescriptor d) 0, isObject_ofMembers _, gives_members d⟩

end Topology

end Reclaim

import Reclaim.Descriptor.Header
import Reclaim.Proofs.Json.Record

/-!
# The header line there and back

* `Header.Fair`        a header whose numbers and arrays have their widths;
* `ofJson?_toJson`     the value of such a header gives the header back;
* `read_render`        and so does its line, whatever follows it;
* `length_render_le`   a header with smaller offsets is no longer;
* `sized_of_ofJson?`   whatever is read has the widths of its fields.
-/

namespace Reclaim.Header

open Json

/-- a header whose numbers and arrays have the widths of their fields -/
structure Fair (h : Header) : Prop where
  fileSize : h.fileSize < bound64
  pieceSize : h.pieceSize < bound64
  tableOffset : ∃ n < bound63, h.tableOffset = Int.ofNat n
  chunkOffset : ∃ n < bound63, h.chunkOffset = Int.ofNat n
  erasureType : h.erasureType.length = 4
  erasureParams : h.erasureParams.length = 8
  specifier : ∀ spec, h.keyType = some (.specifier spec) → spec.length = 8

/-! ## fields -/

theorem bytes?_map {b : Bytes} {n : Nat} (h : b.length = n) :
    bytes? n (.array (b.map ofByte)) = some b := by
  have hb : list? (nat? 256) (.array (b.map ofByte)) = some (b.map UInt8.toNat) :=
    list?_map (fun x => nat?_ofNat x.toNat_lt) b
  have hback : (b.map UInt8.toNat).map UInt8.ofNat = b := by
    rw [List.map_map]
    have hid : UInt8.ofNat ∘ UInt8.toNat = id := by
      funext x
      exact UInt8.ofNat_toNat
    rw [hid, List.map_id]
  rw [bytes?, hb]
  simp only
  rw [List.length_map, if_pos h, hback]

theorem keyType?_ofKeyType {k : KeyType} (h : ∀ spec, k = .specifier spec → spec.length = 8) :
    keyType? (ofKeyType k) = some k := by
  cases k with
  | name s =>
    rw [ofKeyType, keyType?, text?_ofText]
  | specifier spec =>
    rw [ofKeyType, keyType?, bytes?_map (h spec rfl)]
    rfl

theorem nullable?_ofOption {α : Type} {f : α → Json} {g : Json → Option α} {o : Option α}
    (hn : ∀ a, (f a).isNull = false) (hg : ∀ a, o = some a → g (f a) = some a) :
    nullable? g (ofOption f o) = some o := by
  cases o with
  | none => rfl
  | some a =>
    rw [ofOption, nullable?, hn, hg a rfl]
    rfl

theorem int?_ofInt {i : Int} (h : ∃ n < bound63, i = Int.ofNat n) :
    int? bound63 (ofInt i) = some i := by
  obtain ⟨n, hn, rfl⟩ := h
  exact int?_ofNat hn

theorem isNull_ofKeyType (k : KeyType) : (ofKeyType k).isNull = false := by
  cases k <;> rfl

/-! ## the value of a header -/

/-- the members of a header -/
def members (h : Header) : List (String × Json) :=
  [("filesize", Json.ofNat h.fileSize), ("piecesize", Json.ofNat h.pieceSize),
   ("pubkeytableoffset", ofInt h.tableOffset), ("chunkoffset", ofInt h.chunkOffset),
   ("erasurecodetype", .array (h.erasureType.map ofByte)),
   ("erasurecodeparams", .array (h.erasureParams.map ofByte)),
   ("masterkey", ofOption Json.ofText h.masterKey), ("masterkeytype", ofOption ofKeyType h.keyType),
   ("skylinks", ofOption (fun l => .array (l.map Json.ofText)) h.skylinks)]

theorem toJson_eq (h : Header) : h.toJson = ofMembers h.members := rfl

theorem ofJson?_toJson {h : Header} (hf : h.Fair) : ofJson? h.toJson = some h := by
  have hkey : nullable? keyType? (ofOption ofKeyType h.keyType) = some h.keyType :=
    nullable?_ofOption isNull_ofKeyType fun k hk => keyType?_ofKeyType fun spec hs =>
      hf.specifier spec (by rw [hk, hs])
  have hmaster : nullable? text? (ofOption ofText h.masterKey) = some h.masterKey :=
    nullable?_ofOption (fun _ => rfl) fun s _ => text?_ofText s
  have hlinks : nullable? (list? text?) (ofOption (fun l => .array (l.map ofText)) h.skylinks) =
      some h.skylinks :=
    nullable?_ofOption (fun _ => rfl) fun l _ => list?_map_self text?_ofText l
  rw [ofJson?, toJson_eq, record?_ofMembers (by decide) rfl]
  show (required? (nat? bound64) (some (Json.ofNat h.fileSize))).bind _ = _
  simp only [required?, optional?, nat?_ofNat hf.fileSize, nat?_ofNat hf.pieceSize,
    int?_ofInt hf.tableOffset, int?_ofInt hf.chunkOffset, bytes?_map hf.erasureType,
    bytes?_map hf.erasureParams, hkey, hmaster, hlinks, bind, Option.bind]

/-! ## the line of a header -/

theorem plain_ofInt {i : Int} (h : ∃ n < bound63, i = Int.ofNat n) : Plain (ofInt i) := by
  obtain ⟨n, _, rfl⟩ := h
  exact plain_ofNat n

theorem plain_ofByte (x : UInt8) : Plain (ofByte x) := plain_ofNat x.toNat

theorem plain_ofOption {α : Type} {f : α → Json} (hf : ∀ a, Plain (f a)) (o : Option α) :
    Plain (ofOption f o) := by
  cases o with
  | none => exact .null
  | some a => exact hf a

theorem plain_ofKeyType (k : KeyType) : Plain (ofKeyType k) := by
  cases k with
  | name s => exact plain_ofText s
  | specifier spec => exact plain_map plain_ofByte spec

theorem plain_toJson {h : Header} (hf : h.Fair) : Plain h.toJson := by
  rw [toJson_eq]
  refine plain_ofMembers ?_
  simp only [members, List.forall_mem_cons]
  refine ⟨plain_ofNat _, plain_ofNat _, plain_ofInt hf.tableOffset, plain_ofInt hf.chunkOffset,
    plain_map plain_ofByte _, plain_map plain_ofByte _, plain_ofOption plain_ofText _,
    plain_ofOption plain_ofKeyType _, plain_ofOption (plain_map plain_ofText) _, ?_⟩
  exact fun m hm => absurd hm List.not_mem_nil

theorem render_eq_cons (h : Header) : ∃ r, h.render = 123 :: r := ⟨_, rfl⟩

/-- the line of a header is read as the header -/
theorem read_render {h : Header} (hf : h.Fair) {r : Bytes} (hr : Stops r) :
    read (h.render ++ r) = .ok h := by
  obtain ⟨w, _, hparse⟩ := parseFront_compact (plain_toJson hf) hr
  have hne : ¬ (blank (h.render ++ r)).isEmpty = true := by
    obtain ⟨t, e⟩ := render_eq_cons h
    rw [e, List.cons_append, blank_cons (by decide)]
    exact Bool.false_ne_true
  rw [read, if_neg hne, render, hparse]
  simp only
  rw [ofJson?_toJson hf]

/-! ## its length -/

/-- a header whose tables begin at the given places -/
def withOffsets (h : Header) (table chunks : Nat) : Header :=
  { h with tableOffset := Int.ofNat table, chunkOffset := Int.ofNat chunks }

/-- smaller offsets make no longer line -/
theorem length_render_le (h : Header) {t t' c c' : Nat} (ht : t ≤ t') (hc : c ≤ c') :
    (h.withOffsets t c).render.length ≤ (h.withOffsets t' c').render.length := by
  have h1 := length_decimal_le t t' ht
  have h2 := length_decimal_le c c' hc
  simp only [render, toJson_eq, ofMembers, members, withOffsets, ofInt, Json.ofNat, List.map_cons,
    List.map_nil, compact, compactMembers, List.length_cons, List.length_append]
  omega

/-! ## what was read -/

theorem nat?_lt {bound n : Nat} {v : Json} (h : nat? bound v = some n) : n < bound := by
  unfold nat? at h
  split at h
  · split at h
    · cases h
    · split at h
      · next hlt =>
        cases h
        exact hlt
      · cases h
  · cases h

theorem length_bytes? {n : Nat} {v : Json} {b : Bytes} (h : bytes? n v = some b) :
    b.length = n := by
  unfold bytes? at h
  split at h
  · cases h
  · split at h
    · next hlen =>
      cases h
      rw [List.length_map, hlen]
    · cases h

theorem required?_eq_some {α : Type} {f : Json → Option α} {o : Option Json} {a : α}
    (h : required? f o = some a) : ∃ v, f v = some a := by
  cases o with
  | none => cases h
  | some v => exact ⟨v, h⟩

/-- a header whose numbers and arrays have the widths of their fields, wherever its offsets lie -/
structure Sized (h : Header) : Prop where
  fileSize : h.fileSize < bound64
  pieceSize : h.pieceSize < bound64
  erasureType : h.erasureType.length = 4
  erasureParams : h.erasureParams.length = 8

theorem sized_of_ofJson? {v : Json} {h : Header} (hv : ofJson? v = some h) : h.Sized := by
  unfold ofJson? at hv
  obtain ⟨fields, _, hv⟩ := Option.bind_eq_some_iff.1 hv
  split at hv
  · simp only [Option.bind_eq_bind, Option.bind_eq_some_iff, Option.some.injEq] at hv
    obtain ⟨fileSize, hfile, pieceSize, hpiece, _, _, _, _, erasureType, htype, erasureParams,
      hparams, _, _, _, _, _, _, rfl⟩ := hv
    obtain ⟨_, hfile⟩ := required?_eq_some hfile
    obtain ⟨_, hpiece⟩ := required?_eq_some hpiece
    obtain ⟨_, htype⟩ := required?_eq_some htype
    obtain ⟨_, hparams⟩ := required?_eq_some hparams
    exact ⟨nat?_lt hfile, nat?_lt hpiece, length_bytes? htype, length_bytes? hparams⟩
  · cases hv

end Reclaim.Header

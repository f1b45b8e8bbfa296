import Reclaim.Proofs.Bytes
import Reclaim.Proofs.Cipher.Stream
import Reclaim.Proofs.Descriptor.Validate
import Reclaim.Proofs.Recovery.Chunks
import Reclaim.Upload

/-!
# What is stored

* `length_cut`, `flatten_cut`   how a file is cut into chunks;
* `Upload.Built`      what is known of a file that was stored (`built_of_upload`);
* `Built.validate`    its descriptor can be used;
* `Built.wellformed`, `Built.allCode`   its claims stand for the pieces of its chunks.
-/

namespace Reclaim

namespace Upload

/-! ## the chunks of a file -/

section
variable (size : Nat) (hsize : size ≠ 0) (data : Bytes)
include hsize

/-- an empty file still has a chunk -/
theorem length_cut : (cut size data).length = max 1 ((data.length + size - 1) / size) := by
  cases data with
  | nil =>
    have e : (([] : Bytes).length + size - 1) / size = 0 := by
      rw [List.length_nil, Nat.zero_add]
      exact Nat.div_eq_of_lt (by omega)
    rw [e]
    rfl
  | cons x r =>
    have h : 1 ≤ ((x :: r).length + size - 1) / size := by
      rw [Nat.le_div_iff_mul_le (Nat.pos_of_ne_zero hsize), List.length_cons]
      omega
    show (Bytes.segments size (x :: r)).length = _
    rw [Bytes.length_segments size hsize, Nat.max_eq_right h]

theorem getElem?_cut (i : Nat) (hi : i < (cut size data).length) :
    (cut size data)[i]? = some ((data.drop (i * size)).take size) ∧ i * size ≤ data.length := by
  cases data with
  | nil =>
    have h0 : i = 0 := Nat.lt_one_iff.1 hi
    rw [h0, Nat.zero_mul]
    exact ⟨by rw [List.drop_nil, List.take_nil]; rfl, Nat.le_refl _⟩
  | cons x r =>
    have e := Bytes.getElem?_segments size hsize (x :: r) i
    have hi : i < (Bytes.segments size (x :: r)).length := hi
    have hlt : i * size < (x :: r).length := by
      by_contra h
      rw [if_neg h] at e
      exact absurd (List.getElem?_eq_none_iff.1 e) (Nat.not_le.2 hi)
    rw [if_pos hlt] at e
    exact ⟨e, Nat.le_of_lt hlt⟩

theorem flatten_cut : (cut size data).flatten = data := by
  cases data with
  | nil => rfl
  | cons x r => exact Bytes.flatten_segments size (x :: r) hsize

theorem flatten_take_cut (j : Nat) : ((cut size data).take j).flatten = data.take (j * size) := by
  cases data with
  | nil =>
    rw [List.take_nil]
    cases j with
    | zero => rfl
    | succ j => exact congrArg List.flatten List.take_nil
  | cons x r => exact Bytes.flatten_take_segments size hsize (x :: r) j

end

/-! ## where the pieces go -/

/-- everything a successful upload went through -/
structure Built (spec : Spec) (data : Bytes) (stored : Stored) (coder : Coder) (key : MasterKey)
    (ps : List (List Placement)) : Prop where
  made : Coder.make spec.kind spec.data spec.parity = .ok coder
  keyed : MasterKey.make spec.cipher (masterKey spec.cipher data.length) = .ok key
  size : spec.pieceSize * spec.data < bound64
  length : data.length < bound64
  placed :
    placeAll spec coder key (hostList spec) 0 (cut (spec.pieceSize * spec.data) data) = .ok ps
  descriptor : stored.descriptor = describe spec data ps
  placements : stored.placements = ps.flatten

theorem built_of_upload {spec : Spec} {data : Bytes} {stored : Stored}
    (h : upload spec data = .ok stored) :
    ∃ coder key ps, Built spec data stored coder key ps := by
  unfold upload at h
  split at h
  · cases h
  · next coder hcoder =>
    split at h
    · cases h
    · next key hkey =>
      split at h
      · cases h
      · next hsize =>
        split at h
        · cases h
        · next ps hps =>
          cases h
          obtain ⟨h1, h2⟩ := not_or.1 hsize
          exact ⟨coder, key, ps, hcoder, hkey, Nat.lt_of_not_le h1, Nat.lt_of_not_le h2, hps, rfl, rfl⟩

theorem fits_of_encode {c : Coder} {b : Bytes} {w : Nat} {pieces : List Bytes} (hw : 0 < w)
    (h : c.encode b w = .ok pieces) : c.Fits w := by
  refine ⟨hw, fun hk => ?_⟩
  unfold Coder.encode at h
  simp only [hk] at h
  split at h
  · cases h
  · split at h
    · cases h
    · next hm => exact not_not.1 hm

theorem getElem?_place (spec : Spec) (key : MasterKey) (hosts : List HostKey) (chunk : Nat)
    (pieces : List Bytes) (i : Nat) :
    (place spec key hosts chunk pieces)[i]? = pieces[i]?.map fun b =>
      ⟨chunk, i, hosts.getD ((chunk * pieces.length + i) % hosts.length) default,
        sectorRoot (sector spec key chunk i b), sector spec key chunk i b⟩ := by
  rw [place, List.getElem?_map, List.getElem?_zipIdx, Option.map_map]
  cases pieces[i]? with
  | none => rfl
  | some b => rw [Nat.zero_add]; rfl

/-- the sectors of each chunk are those of its pieces -/
theorem place_of_placeAll {spec : Spec} {coder : Coder} {key : MasterKey} {hosts : List HostKey}
    {chunk : Nat} {bs : List Bytes} {ps : List (List Placement)}
    (h : placeAll spec coder key hosts chunk bs = .ok ps) (j : Nat) (l : List Placement)
    (hl : ps[j]? = some l) :
    ∃ b pieces, bs[j]? = some b ∧ coder.encode b spec.pieceSize = .ok pieces
      ∧ l = place spec key hosts (chunk + j) pieces := by
  induction bs generalizing chunk ps j with
  | nil =>
    cases h
    cases hl
  | cons b bs ih =>
    unfold placeAll at h
    split at h
    · cases h
    · next pieces hpieces =>
      split at h
      · cases h
      · next ps' hps =>
        cases h
        cases j with
        | zero =>
          cases hl
          exact ⟨b, pieces, rfl, hpieces, rfl⟩
        | succ j =>
          obtain ⟨b', pieces', h1, h2, h3⟩ := ih hps j hl
          refine ⟨b', pieces', h1, h2, ?_⟩
          rw [h3, Nat.add_assoc, Nat.add_comm 1]

theorem length_place (spec : Spec) (key : MasterKey) (hosts : List HostKey) (chunk : Nat)
    (pieces : List Bytes) : (place spec key hosts chunk pieces).length = pieces.length := by
  rw [place, List.length_map, List.length_zipIdx]

theorem piece_of_sector (t : Recovery.Target) (spec : Spec) (chunk i : Nat) (b : Bytes)
    (hw : t.width = b.length) : t.piece chunk i (sector spec t.key chunk i b) = b := by
  have hl := (t.key.derive chunk i).length_crypt b
  have htake : (sector spec t.key chunk i b).take b.length = (t.key.derive chunk i).crypt b := by
    have hmax : b.length ≤ max spec.sectorSize b.length := Nat.le_max_right _ _
    unfold sector Bytes.fit
    dsimp only
    rw [hl, List.take_append_of_le_length (by rw [List.length_take, hl]; omega), List.take_take,
      Nat.min_eq_left hmax, ← hl, List.take_length]
  unfold Recovery.Target.piece
  rw [show t.descriptor.pieceSize.toNat = b.length from hw, htake, PieceKey.crypt_crypt]

/-- the claims about stored chunks stand for their pieces, if the sectors are known by their roots -/
theorem allCode_of_placeAll {t : Recovery.Target} (ht : t.Wellformed) (spec : Spec)
    (hosts : List HostKey) (P : Hash256 → Bytes → Prop) (hw : t.width = spec.pieceSize)
    (bs : List Bytes) (hbs : ∀ b ∈ bs, b.length ≤ t.width * t.coder.data) (chunk : Nat)
    (ps : List (List Placement)) (h : placeAll spec t.coder t.key hosts chunk bs = .ok ps)
    (hP : ∀ l ∈ ps, ∀ p ∈ l, ∀ b, P p.root b → b = p.sector) :
    Recovery.AllCode t P chunk (ps.map claims) (bs.map (Bytes.fit (t.width * t.coder.data))) := by
  induction bs generalizing chunk ps with
  | nil =>
    cases h
    trivial
  | cons b bs ih =>
    have he := Coder.encode_eq t.coder t.width ht.fits b (hbs b List.mem_cons_self)
    rw [hw] at he
    unfold placeAll at h
    rw [he] at h
    simp only at h
    split at h
    · cases h
    · next ps' hps =>
      cases h
      refine ⟨⟨Bytes.length_fit .., ?_, ?_⟩,
        ih (fun b' hb' => hbs b' (List.mem_cons_of_mem _ hb')) (chunk + 1) ps' hps
          fun l hl => hP l (List.mem_cons_of_mem _ hl)⟩
      · show (List.map _ _).length = _
        rw [List.length_map, length_place, Coder.length_pieces, ht.pieces]
      · intro i s hs sec hsec
        have hl := Coder.length_of_mem_pieces t.coder t.width ht.fits
          (b.fit (t.width * t.coder.data)) (Bytes.length_fit ..)
        rw [hw] at hl ⊢
        have hslot := getElem?_place spec t.key hosts chunk
          (t.coder.pieces spec.pieceSize (b.fit (spec.pieceSize * t.coder.data))) i
        cases hp : (t.coder.pieces spec.pieceSize (b.fit (spec.pieceSize * t.coder.data)))[i]? with
        | none =>
          rw [hp] at hslot
          have hs : s ∈ (List.map (fun p : Placement => [(⟨p.root, p.host⟩ : SectorRef)])
            (place spec t.key hosts chunk
              (t.coder.pieces spec.pieceSize (b.fit (spec.pieceSize * t.coder.data))))).getD i [] := hs
          rw [List.getD_eq_getElem?_getD, List.getElem?_map, hslot] at hs
          cases hs
        | some x =>
          rw [hp] at hslot
          have hs : s ∈ (List.map (fun p : Placement => [(⟨p.root, p.host⟩ : SectorRef)])
            (place spec t.key hosts chunk
              (t.coder.pieces spec.pieceSize (b.fit (spec.pieceSize * t.coder.data))))).getD i [] := hs
          rw [List.getD_eq_getElem?_getD, List.getElem?_map, hslot] at hs
          have hs := List.mem_singleton.1 hs
          rw [hs] at hsec
          have hsector := hP _ List.mem_cons_self _ (List.mem_of_getElem? hslot) sec hsec
          have hx := hl x (List.mem_of_getElem? hp)
          rw [hsector]
          exact congrArg some (piece_of_sector t spec chunk i x (hw.trans hx.symm)).symm

/-! ## the descriptor of a stored file -/

namespace Built

/-- a stored file as something to recover -/
def target (stored : Stored) (coder : Coder) (key : MasterKey) : Recovery.Target :=
  ⟨stored.descriptor, coder, key⟩

section
variable {spec : Spec} {data : Bytes} {stored : Stored} {coder : Coder} {key : MasterKey}
  {ps : List (List Placement)} (hb : Built spec data stored coder key ps)
  (hp : 0 < spec.pieceSize)
include hb

theorem data_eq : coder.data = spec.data := (Coder.make_ok hb.made).2.1

theorem parity_eq : coder.parity = spec.parity := (Coder.make_ok hb.made).2.2

theorem data_pos : 0 < spec.data := by
  rw [← hb.data_eq]
  exact coder.data_pos

theorem pieceSize_toNat : stored.descriptor.pieceSize.toNat = spec.pieceSize := by
  have h : spec.pieceSize ≤ spec.pieceSize * spec.data := Nat.le_mul_of_pos_right _ hb.data_pos
  rw [hb.descriptor]
  exact UInt64.toNat_ofNat_of_lt' (Nat.lt_of_le_of_lt h hb.size)

theorem dataPieces_toNat : stored.descriptor.dataPieces.toNat = coder.data := by
  have h := coder.pieces_le
  rw [hb.descriptor, hb.data_eq]
  rw [hb.data_eq] at h
  exact UInt32.toNat_ofNat_of_lt'
    (Nat.lt_of_le_of_lt (Nat.le_trans (Nat.le_add_right ..) h) (by decide))

theorem parityPieces_toNat : stored.descriptor.parityPieces.toNat = coder.parity := by
  have h := coder.pieces_le
  rw [hb.descriptor, hb.parity_eq]
  rw [hb.parity_eq] at h
  exact UInt32.toNat_ofNat_of_lt'
    (Nat.lt_of_le_of_lt (Nat.le_trans (Nat.le_add_left ..) h) (by decide))

theorem fileSize_toNat : stored.descriptor.fileSize.toNat = data.length := by
  rw [hb.descriptor]
  exact UInt64.toNat_ofNat_of_lt' hb.length

theorem numPieces_eq : stored.descriptor.numPieces = coder.numPieces := by
  rw [Descriptor.numPieces, hb.dataPieces_toNat, hb.parityPieces_toNat]
  rfl

theorem coder_eq : stored.descriptor.coder = .ok coder := by
  have htag : stored.descriptor.encoderType.toNat = spec.kind.tag := by
    rw [hb.descriptor]
    show (UInt32.ofNat spec.kind.tag).toNat = _
    cases spec.kind <;> rfl
  rw [Descriptor.coder, htag, hb.dataPieces_toNat, hb.parityPieces_toNat, hb.data_eq, hb.parity_eq,
    Coder.ofTag, ErasureKind.ofTag_tag]
  exact hb.made

theorem key_eq : stored.descriptor.key = .ok key := by
  rw [Descriptor.key, hb.descriptor]
  show MasterKey.ofName spec.cipher.name (masterKey spec.cipher data.length) = _
  rw [MasterKey.ofName, CipherKind.ofName_name]
  exact hb.keyed

theorem chunkSize_eq : stored.descriptor.chunkSize = spec.pieceSize * spec.data := by
  have h := hb.size
  rw [Descriptor.chunkSize, hb.pieceSize_toNat, hb.dataPieces_toNat, hb.data_eq]
  exact Nat.min_eq_left (Nat.le_sub_one_of_lt h)

theorem chunks_eq : stored.descriptor.chunks = ps.map claims := by
  rw [hb.descriptor]
  rfl

include hp

theorem chunkSize_pos : spec.pieceSize * spec.data ≠ 0 :=
  Nat.ne_of_gt (Nat.mul_pos hp hb.data_pos)

theorem length_le_of_mem_cut : ∀ b ∈ cut (spec.pieceSize * spec.data) data,
    b.length ≤ spec.pieceSize * coder.data := by
  intro b h
  obtain ⟨i, hi, rfl⟩ := List.mem_iff_getElem.1 h
  have e := (getElem?_cut _ (hb.chunkSize_pos hp) data i hi).1
  rw [List.getElem?_eq_getElem hi, Option.some_inj] at e
  rw [e, hb.data_eq]
  exact List.length_take_le _ _

theorem fits : coder.Fits spec.pieceSize := by
  have hpl := hb.placed
  have hne := length_cut _ (hb.chunkSize_pos hp) data
  cases hcut : cut (spec.pieceSize * spec.data) data with
  | nil =>
    rw [hcut, List.length_nil] at hne
    omega
  | cons b bs =>
    rw [hcut, placeAll] at hpl
    cases he : coder.encode b spec.pieceSize with
    | ok pieces => exact fits_of_encode hp he
    | error e =>
      rw [he] at hpl
      cases hpl

theorem wellformed : (target stored coder key).Wellformed where
  data := hb.dataPieces_toNat.symm
  pieces := hb.numPieces_eq.symm
  fits := by
    have e : (target stored coder key).width = spec.pieceSize := hb.pieceSize_toNat
    rw [e]
    exact hb.fits hp

/-- a stored sector was made for a piece, and the descriptor claims it for this piece -/
theorem stored_at (p : Placement) (h : p ∈ stored.placements) :
    ∃ x : Bytes, x.length = spec.pieceSize ∧ p.sector = sector spec key p.chunk p.piece x
      ∧ p.root = sectorRoot p.sector
      ∧ ∃ k, stored.descriptor.chunks[p.chunk]? = some k
          ∧ k.slots[p.piece]? = some [⟨p.root, p.host⟩] := by
  rw [hb.placements] at h
  obtain ⟨l, hl, hpl⟩ := List.mem_flatten.1 h
  obtain ⟨j, hj⟩ := List.mem_iff_getElem?.1 hl
  obtain ⟨b, pieces, hcut, henc, rfl⟩ := place_of_placeAll hb.placed j l hj
  rw [Nat.zero_add] at hpl hj
  obtain ⟨i, hi⟩ := List.mem_iff_getElem?.1 hpl
  have hplace := getElem?_place spec key (hostList spec) j pieces i
  rw [hi] at hplace
  obtain ⟨x, hx, rfl⟩ := Option.map_eq_some_iff.1 hplace.symm
  have hle := hb.length_le_of_mem_cut hp b (List.mem_of_getElem? hcut)
  have hpieces := Except.ok.inj (henc.symm.trans (Coder.encode_eq coder _ (hb.fits hp) b hle))
  have hlen := Coder.length_of_mem_pieces coder _ (hb.fits hp) _ (Bytes.length_fit _ b) x
    (by rw [← hpieces]; exact List.mem_of_getElem? hx)
  refine ⟨x, hlen, rfl, rfl, claims (place spec key (hostList spec) j pieces), ?_, ?_⟩
  · rw [hb.chunks_eq, List.getElem?_map, hj]
    rfl
  · show (List.map _ _)[i]? = _
    rw [List.getElem?_map, hi]
    rfl

theorem root_of_mem : ∀ p ∈ stored.placements, p.root = sectorRoot p.sector := by
  intro p h
  obtain ⟨-, -, -, hroot, -⟩ := hb.stored_at hp p h
  exact hroot

theorem length_sector : ∀ p ∈ stored.placements,
    p.sector.length = max spec.sectorSize spec.pieceSize := by
  intro p h
  obtain ⟨x, hx, hsec, -⟩ := hb.stored_at hp p h
  rw [hsec, sector, Bytes.length_fit, PieceKey.length_crypt, hx]

/-- the claims of a stored file stand for the pieces of its chunks, if its sectors are known by
their roots -/
theorem allCode (P : Hash256 → Bytes → Prop)
    (hP : ∀ p ∈ stored.placements, ∀ b, P p.root b → b = p.sector) :
    Recovery.AllCode (target stored coder key) P 0 stored.descriptor.chunks
      ((cut (spec.pieceSize * spec.data) data).map (Bytes.fit (spec.pieceSize * coder.data))) := by
  have hw : (target stored coder key).width = spec.pieceSize := hb.pieceSize_toNat
  have h := allCode_of_placeAll (hb.wellformed hp) spec (hostList spec) P hw
    (cut (spec.pieceSize * spec.data) data)
    (by rw [hw]; exact hb.length_le_of_mem_cut hp) 0 ps hb.placed
    (fun l hl p hpl => hP p (by rw [hb.placements]; exact List.mem_flatten.2 ⟨l, hl, hpl⟩))
  rw [hw] at h
  rw [hb.chunks_eq]
  exact h

theorem chunkLen_eq (i : Nat) (b : Bytes)
    (h : (cut (spec.pieceSize * spec.data) data)[i]? = some b) :
    stored.descriptor.chunkLen i = b.length := by
  have hi := (List.getElem?_eq_some_iff.1 h).1
  obtain ⟨e, hle⟩ := getElem?_cut _ (hb.chunkSize_pos hp) data i hi
  have hlt := hb.length
  rw [e, Option.some_inj] at h
  rw [← h, List.length_take, List.length_drop, Descriptor.chunkLen, hb.chunkSize_eq,
    hb.fileSize_toNat]
  unfold bound64 at hlt ⊢
  omega

/-- what is to be written for the chunks of a file is the file -/
theorem outputs_eq :
    Recovery.outputs (target stored coder key) 0
        ((cut (spec.pieceSize * spec.data) data).map (Bytes.fit (spec.pieceSize * coder.data)))
      = cut (spec.pieceSize * spec.data) data := by
  have key' : ∀ (bs : List Bytes) (chunk : Nat),
      (∀ i b, bs[i]? = some b → stored.descriptor.chunkLen (chunk + i) = b.length) →
      (∀ b ∈ bs, b.length ≤ spec.pieceSize * coder.data) →
      Recovery.outputs (target stored coder key) chunk
        (bs.map (Bytes.fit (spec.pieceSize * coder.data))) = bs := by
    intro bs
    induction bs with
    | nil => exact fun _ _ _ => rfl
    | cons b bs ih =>
      intro chunk hlen hle
      have hb0 : (target stored coder key).descriptor.chunkLen chunk = b.length := hlen 0 b rfl
      have hfit : (b.fit (spec.pieceSize * coder.data)).take b.length = b := by
        have h := hle b List.mem_cons_self
        rw [Bytes.fit, List.take_append_of_le_length (by rw [List.length_take]; omega),
          List.take_take, Nat.min_eq_left h, List.take_length]
      rw [List.map_cons, Recovery.outputs, hb0, hfit, ih (chunk + 1) (fun i b' h => ?_)
        fun b' h => hle b' (List.mem_cons_of_mem _ h)]
      rw [← hlen (i + 1) b' h, Nat.add_assoc, Nat.add_comm 1]
  exact key' _ 0 (fun i b h => by rw [Nat.zero_add]; exact hb.chunkLen_eq hp i b h)
    (hb.length_le_of_mem_cut hp)

theorem length_chunks :
    stored.descriptor.chunks.length = (cut (spec.pieceSize * spec.data) data).length := by
  have h := (hb.allCode hp (fun _ _ => False) fun _ _ _ h => h.elim).length_eq
  rwa [List.length_map] at h

/-- the descriptor of a stored file can be used -/
theorem validate : stored.descriptor.validate = .ok () := by
  refine (Descriptor.validate_eq_ok_iff _).2 ⟨?_, ?_, ⟨coder, hb.coder_eq⟩, ?_, ?_,
    (hb.allCode hp (fun _ _ => False) fun _ _ _ h => h.elim).slots⟩
  · intro h
    have := hb.dataPieces_toNat
    rw [h] at this
    exact Nat.ne_of_gt coder.data_pos this.symm
  · intro h
    have := hb.pieceSize_toNat
    rw [h] at this
    exact Nat.ne_of_gt hp this.symm
  · rw [hb.pieceSize_toNat, hb.dataPieces_toNat, hb.data_eq]
    exact hb.size
  · rw [hb.length_chunks hp, length_cut _ (hb.chunkSize_pos hp), Descriptor.expectedChunks,
      hb.chunkSize_eq, if_neg (hb.chunkSize_pos hp), hb.fileSize_toNat]

end

end Built

end Upload

end Reclaim

import Reclaim.Proofs.Descriptor.Topology

/-!
# Documents with every spelling

* `Topology.Record`, `Topology.Repeats`   an object of a document in which a field is given twice;
* `descriptor?_of_repeats`   such a document gives no descriptor;
* `ofTopology_renderings`    a usable descriptor is read from each of its documents, and nothing is
                             read from a document with a field given twice.
-/

namespace Reclaim

namespace Topology

open Json

/-! ## fields given twice -/

/-- two members of an object go by names of one field -/
def Repeats (fields : FieldNames) (ms : List (Bytes × Json)) : Prop :=
  ∃ names ∈ fields, ∃ m m' : Bytes × Json, [m, m'].Sublist ms ∧
    (∃ name ∈ names, Writes m.1 (utf8 name)) ∧ ∃ name ∈ names, Writes m'.1 (utf8 name)

/-- a member that goes by one of the names holds the list `vs` -/
def HoldsList (names : List String) (ms : List (Bytes × Json)) (vs : List Json) : Prop :=
  ∃ m ∈ ms, (∃ name ∈ names, Writes m.1 (utf8 name)) ∧ m.2 = .array vs

/-- the objects of a document that are records, with the fields they are looked through for: the
document itself, its chunks, and the copies in the slots of the chunks -/
inductive Record : Json → FieldNames → List (Bytes × Json) → Prop where
  | whole (ms : List (Bytes × Json)) : Record (.object ms) descriptorFields ms
  | chunk {ms ms₁ : List (Bytes × Json)} {chunks : List Json} (h : HoldsList ["chunks"] ms chunks)
      (h₁ : .object ms₁ ∈ chunks) : Record (.object ms) chunkFields ms₁
  | copy {ms ms₁ ms₂ : List (Bytes × Json)} {chunks slots copies : List Json}
      (h : HoldsList ["chunks"] ms chunks) (h₁ : .object ms₁ ∈ chunks)
      (hs : HoldsList ["pieces", "Pieces"] ms₁ slots) (hc : .array copies ∈ slots)
      (h₂ : .object ms₂ ∈ copies) : Record (.object ms) refFields ms₂

section
variable {fields : FieldNames} {ms : List (Bytes × Json)} {names : List String}

theorem goesBy_of_writes {m : Bytes × Json} (h : ∃ name ∈ names, Writes m.1 (utf8 name)) :
    goesBy names m = true := by
  obtain ⟨name, hn, hw⟩ := h
  exact (goesBy_eq_true_iff (bodyText?_of_writes hw)).2 hn

theorem record?_of_repeats (hf : fields.flatten.Nodup) (h : Repeats fields ms) :
    record? fields (.object ms) = none := by
  obtain ⟨names, hn, m, m', hsub, hm, hm'⟩ := h
  exact record?_repeated hf hn hsub (goesBy_of_writes hm) (goesBy_of_writes hm')

theorem mem_valuesFor {vs : List Json} (h : HoldsList names ms vs) :
    .array vs ∈ valuesFor names ms := by
  obtain ⟨m, hm, hn, he⟩ := h
  exact List.mem_map.2 ⟨m, List.mem_filter.2 ⟨hm, goesBy_of_writes hn⟩, he⟩

theorem read_of_listOrNull? {α : Type} {f : Json → Option α} {vs : List Json} {l : List α}
    (h : listOrNull? f (.array vs) = some l) {v : Json} (hv : v ∈ vs) : ∃ a, f v = some a := by
  obtain ⟨o, ho, -⟩ := Option.map_eq_some_iff.1 h
  obtain ⟨l', hl, -⟩ := Option.map_eq_some_iff.1 ho
  have hread := list?_array_eq_some_iff.1 hl
  obtain ⟨i, rfl⟩ := List.mem_iff_get.1 hv
  exact ⟨_, hread.get (hread.length_eq.symm ▸ i.2) i.2⟩

theorem read_of_chunk? {c : Chunk} (h : chunk? (.object ms) = some c) {slots : List Json}
    (hs : HoldsList ["pieces", "Pieces"] ms slots) {slot : Json} (hm : slot ∈ slots) :
    ∃ l, listOrNull? ref? slot = some l := by
  rw [chunk?] at h
  split at h
  · next pieces hrecord =>
    have hpieces := value_of_record? (by decide) hrecord (i := 0) rfl (mem_valuesFor hs)
    cases hpieces
    obtain ⟨l, hl, -⟩ := Option.map_eq_some_iff.1 h
    exact read_of_listOrNull? hl hm
  · cases h

theorem read_of_descriptor? {d : Descriptor} (h : descriptor? (.object ms) = some d)
    {chunks : List Json} (hs : HoldsList ["chunks"] ms chunks) {v : Json} (hm : v ∈ chunks) :
    ∃ c, chunk? v = some c := by
  rw [descriptor?] at h
  obtain ⟨found, hrecord, h⟩ := Option.bind_eq_some_iff.1 h
  have hchunks := value_of_record? (by decide) hrecord (i := 8) rfl (mem_valuesFor hs)
  split at h
  · cases hchunks
    simp only [Option.bind_eq_bind, Option.bind_eq_some_iff] at h
    obtain ⟨_, _, _, _, _, _, _, _, _, _, _, _, _, _, _, _, l, hl, _⟩ := h
    exact read_of_listOrNull? hl hm
  · cases h

end

theorem descriptor?_of_repeats {v : Json} {fields : FieldNames} {ms : List (Bytes × Json)}
    (hr : Record v fields ms) (h : Repeats fields ms) : descriptor? v = none := by
  rw [Option.eq_none_iff_forall_ne_some]
  intro d hd
  cases hr with
  | whole =>
    rw [descriptor?, record?_of_repeats (by decide) h] at hd
    cases hd
  | chunk hc h₁ =>
    obtain ⟨c, hchunk⟩ := read_of_descriptor? hd hc h₁
    rw [chunk?, record?_of_repeats (by decide) h] at hchunk
    cases hchunk
  | copy hc h₁ hs hslot h₂ =>
    obtain ⟨c, hchunk⟩ := read_of_descriptor? hd hc h₁
    obtain ⟨l, hl⟩ := read_of_chunk? hchunk hs hslot
    obtain ⟨r, href⟩ := read_of_listOrNull? hl h₂
    rw [ref?, record?_of_repeats (by decide) h] at href
    cases href

end Topology

namespace Descriptor

open Reclaim.Topology

/-- A usable descriptor is read from each of its documents; nothing is read from a document in which
a field of the whole, of a chunk or of a copy is given twice. -/
theorem ofTopology_renderings (d : Descriptor) (hd : d.validate = .ok ()) :
    (∀ b, Renders d b → ofTopology b = .ok d) ∧
      ∀ b v fields ms, Json.Spells v b → Record v fields ms → Repeats fields ms →
        ofTopology b = .error .json := by
  constructor
  · rintro b ⟨v, named, hb, hv, hg⟩
    refine ofTopology_eq_ok_iff.2 ⟨readTopology_eq_ok_iff.2 ?_, (validate_eq_ok_iff d).1 hd⟩
    rw [Json.parse_of_spells hb]
    exact descriptor?_of_gives hv hg
  · intro b v fields ms hb hr h
    have hnone : (Json.parse b).bind descriptor? = none := by
      rw [Json.parse_of_spells hb]
      exact descriptor?_of_repeats hr h
    rw [ofTopology, readTopology, hnone]

end Descriptor

/-! ## a document of an older export -/

namespace Topology

open Json

/-- the copy of the one piece that has any -/
def lonelyCopy : SectorRef :=
  ⟨Hash256.ofBytes (List.replicate 32 171), HostKey.ofBytes (List.replicate 32 1)⟩

/-- a file of five bytes in two pieces of which one is lost -/
def lonely : Descriptor where
  fileSize := 5
  pieceSize := 64
  encoderType := 1
  dataPieces := 1
  parityPieces := 1
  masterKey := []
  masterKeyType := "plaintext"
  skylinks := []
  chunks := [⟨[[lonelyCopy], []]⟩]

/-- the mark of a hash and its digits in upper case -/
def shoutedRoot : Bytes := 104 :: 58 :: (List.replicate 32 [65, 66]).flatten

/-- the members of the copy, the host first -/
def exportedCopy : List (String × Json) :=
  [("HostKey", ofHost lonelyCopy.host), ("MerkleRoot", .string shoutedRoot)]

/-- the members of a document of the file: the chunks first, nothing for the lost piece, no key,
no type of the key and no links, and a member that no field knows with a number that no word holds
and a string that is no text -/
def exported : List (String × Json) :=
  [("chunks", .array [ofMembers [("Pieces", .array [.array [ofMembers exportedCopy], .null])]]),
   ("note", .array [.number [45, 48, 46, 53, 101, 43, 57, 57, 57],
     .string [92, 117, 100, 56, 48, 48]]),
   ("paritypieces", Json.ofNat 1), ("filesize", Json.ofNat 5), ("piecesize", Json.ofNat 64),
   ("encodertype", Json.ofNat 1), ("masterkey", .null), ("datapieces", Json.ofNat 1)]

theorem clear_shoutedRoot : ∀ x ∈ shoutedRoot, Clear x := by
  have all : ∀ x ∈ shoutedRoot, decide (Clear x) = true := List.all_eq_true.1 (by decide)
  exact fun x hx => of_decide_eq_true (all x hx)

theorem isRef_exported : IsRef lonelyCopy (ofMembers exportedCopy) := by
  refine ⟨exportedCopy, isObject_ofMembers _, ⟨_, rfl, ?_⟩, ⟨_, rfl, ?_⟩⟩
  · exact .mk (writes_clear clear_shoutedRoot) (.marked rfl)
  · exact isHost_ofHost _

theorem gives_exported : Gives lonely exported where
  fileSize := ⟨_, rfl, rfl⟩
  pieceSize := ⟨_, rfl, rfl⟩
  encoderType := ⟨_, rfl, rfl⟩
  dataPieces := ⟨_, rfl, rfl⟩
  parityPieces := ⟨_, rfl, rfl⟩
  masterKey := .inl ⟨_, rfl, .null⟩
  masterKeyType := .inr ⟨rfl, rfl⟩
  skylinks := .inr ⟨rfl, rfl⟩
  chunks := by
    refine ⟨_, rfl, .array (.cons ?_ .nil)⟩
    refine ⟨_, isObject_ofMembers _, _, rfl, .array (.cons ?_ (.cons .null .nil))⟩
    exact .array (.cons isRef_exported .nil)

theorem plain_exported : ∀ m ∈ exported, Plain m.2 := by
  have hroot : Plain (.string shoutedRoot) := plain_ofDigits clear_shoutedRoot
  have hcopy : Plain (ofMembers exportedCopy) :=
    plain_ofMembers (List.forall_mem_cons.2 ⟨plain_ofHost _, List.forall_mem_singleton.2 hroot⟩)
  have hslots : Plain (.array [.array [ofMembers exportedCopy], .null]) :=
    .array (List.forall_mem_cons.2
      ⟨.array (List.forall_mem_singleton.2 hcopy), List.forall_mem_singleton.2 .null⟩)
  have hchunk : Plain (ofMembers [("Pieces", .array [.array [ofMembers exportedCopy], .null])]) :=
    plain_ofMembers (List.forall_mem_singleton.2 hslots)
  have hfraction : Digits [53] := ⟨List.cons_ne_nil _ _, List.all_eq_true.1 rfl⟩
  have hexponent : Digits [57, 57, 57] := ⟨List.cons_ne_nil _ _, List.all_eq_true.1 rfl⟩
  have hnumber : Numeral [45, 48, 46, 53, 101, 43, 57, 57, 57] :=
    .minus .zero (.point hfraction) (.signed (.inl rfl) (.inl rfl) hexponent)
  have hstring : Body [92, 117, 100, 56, 48, 48] :=
    .code (by decide) (by decide) (by decide) (by decide) .nil
  have hnote : Plain (.array [.number [45, 48, 46, 53, 101, 43, 57, 57, 57],
      .string [92, 117, 100, 56, 48, 48]]) :=
    .array (List.forall_mem_cons.2
      ⟨.number hnumber, List.forall_mem_singleton.2 (.string hstring)⟩)
  simp only [exported, List.forall_mem_cons]
  exact ⟨.array (List.forall_mem_singleton.2 hchunk), hnote, plain_ofNat _, plain_ofNat _,
    plain_ofNat _, plain_ofNat _, .null, plain_ofNat _, fun m hm => absurd hm List.not_mem_nil⟩

end Topology

namespace Descriptor

open Reclaim.Topology

/-- An older export is read, over several lines as it is; with the size of the file given once more,
by its present name, it is not. -/
theorem ofTopology_renderings_exported :
    lonely.validate = .ok () ∧
      ofTopology (Json.ofMembers exported).pretty = .ok lonely ∧
      ofTopology (Json.ofMembers (("fileSize", Json.ofNat 5) :: exported)).pretty =
        .error .json := by
  have hd : lonely.validate = .ok () := by decide +kernel
  have htwice : Json.Plain (Json.ofMembers (("fileSize", Json.ofNat 5) :: exported)) :=
    Json.plain_ofMembers (List.forall_mem_cons.2 ⟨Json.plain_ofNat 5, plain_exported⟩)
  obtain ⟨hread, hrepeats⟩ := ofTopology_renderings lonely hd
  refine ⟨hd, hread _ ⟨_, _, Json.spells_prettyAt (Json.plain_ofMembers plain_exported) 0,
    Json.isObject_ofMembers _, gives_exported⟩, ?_⟩
  refine hrepeats _ _ _ _ (Json.spells_prettyAt htwice 0) (.whole _)
    ⟨["fileSize", "filesize"], by decide, (_, Json.ofNat 5), (_, Json.ofNat 5), ?_,
      ⟨"fileSize", by decide, Json.writes_escape _⟩, ⟨"filesize", by decide, Json.writes_escape _⟩⟩
  exact .cons_cons _ (.cons _ (.cons _ (.cons _ (.cons_cons _ (List.nil_sublist _)))))

end Descriptor

end Reclaim

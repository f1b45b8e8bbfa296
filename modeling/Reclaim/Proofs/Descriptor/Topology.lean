import Reclaim.Proofs.Descriptor.Renderings
import Reclaim.Proofs.Descriptor.Validate

/-!
# Topology documents there and back

* `descriptor?_ofDescriptor`   the value of a descriptor gives it back;
* `readTopology_toTopology`    a document is read as its descriptor, white space behind it or not;
* `ofTopology_eq_ok_iff`       what is read for use is what is read and valid;
* `topology_round_trip`        the three ways round together.
-/

namespace Reclaim

namespace Topology

open Json

theorem descriptor?_ofDescriptor (d : Descriptor) : descriptor? (ofDescriptor d) = some d :=
  descriptor?_of_gives (isObject_ofMembers _) (gives_members d)

end Topology

namespace Descriptor

variable {b w : Bytes} {d d' : Descriptor}

theorem readTopology_eq_ok_iff :
    readTopology b = .ok d ↔ (Json.parse b).bind Topology.descriptor? = some d := by
  rw [readTopology]
  split
  · next h =>
    rw [h]
    exact ⟨fun e => (nomatch e), fun e => (nomatch e)⟩
  · next h =>
    rw [h]
    exact ⟨fun e => by cases e; rfl, fun e => by cases e; rfl⟩

/-- what is read for use is what is read and valid -/
theorem ofTopology_eq_ok_iff : ofTopology b = .ok d ↔ readTopology b = .ok d ∧ d.Valid := by
  rw [← validate_eq_ok_iff, ofTopology]
  constructor
  · intro h
    split at h
    · cases h
    · next d' hread =>
      split at h
      · cases h
      · next hvalid =>
        cases h
        exact ⟨hread, hvalid⟩
  · rintro ⟨hread, hvalid⟩
    rw [hread]
    simp only
    rw [hvalid]

theorem readTopology_toTopology (d : Descriptor) (hw : Json.White w) :
    readTopology (d.toTopology ++ w) = .ok d := by
  rw [readTopology_eq_ok_iff, toTopology, Json.parse_pretty (Topology.plain_ofDescriptor d) hw]
  exact Topology.descriptor?_ofDescriptor d

theorem ofTopology_toTopology (hd : d.Valid) (hw : Json.White w) :
    ofTopology (d.toTopology ++ w) = .ok d :=
  ofTopology_eq_ok_iff.2 ⟨readTopology_toTopology d hw, hd⟩

theorem toTopology_inj (h : d.toTopology = d'.toTopology) : d = d' := by
  have hd := readTopology_toTopology d Json.white_nil
  rw [h, readTopology_toTopology d' Json.white_nil] at hd
  cases hd
  rfl

/-- A document is read as the descriptor that it was written for, and for use if that descriptor
can be used.  Whatever text a usable descriptor was read from, its own document is read as it again;
and no two descriptors share a document. -/
theorem topology_round_trip (d : Descriptor) :
    readTopology d.toTopology = .ok d ∧
      (d.validate = .ok () → ofTopology d.toTopology = .ok d) ∧
      (∀ b, ofTopology b = .ok d → ofTopology d.toTopology = .ok d) ∧
      ∀ d' : Descriptor, d'.toTopology = d.toTopology → d' = d := by
  have hread : readTopology d.toTopology = .ok d := by
    have := readTopology_toTopology d Json.white_nil
    rwa [List.append_nil] at this
  refine ⟨hread, fun hd => ?_, fun b hb => ?_, fun d' h => toTopology_inj h⟩
  · exact ofTopology_eq_ok_iff.2 ⟨hread, (validate_eq_ok_iff d).1 hd⟩
  · exact ofTopology_eq_ok_iff.2 ⟨hread, (ofTopology_eq_ok_iff.1 hb).2⟩

/-- a descriptor whose texts have marks, backslashes, controls and characters of every length -/
def scrawled : Descriptor where
  fileSize := 5
  pieceSize := 18446744073709551615
  encoderType := 2
  dataPieces := 1
  parityPieces := 1
  masterKey := [0, 255, 62, 63]
  masterKeyType := "\"\\/\x00\t\x7f"
  skylinks := ["", "é€😀", "\n\x1f\u2028"]
  chunks :=
    [⟨[[⟨Hash256.ofBytes [171], HostKey.ofBytes [1]⟩, ⟨Hash256.ofBytes [171], HostKey.ofBytes [1]⟩],
      []]⟩]

theorem topology_round_trip_scrawled :
    scrawled.validate = .ok () ∧ ofTopology scrawled.toTopology = .ok scrawled ∧
      ofTopology (scrawled.toTopology ++ [13, 10]) = .ok scrawled := by
  have hd : scrawled.validate = .ok () := by decide +kernel
  have hw : ∀ c ∈ ([13, 10] : Bytes), Json.isBlank c = true := List.all_eq_true.1 (by decide)
  have hback := ofTopology_toTopology ((validate_eq_ok_iff scrawled).1 hd) hw
  exact ⟨hd, (topology_round_trip scrawled).2.2.1 _ hback, hback⟩

end Descriptor

end Reclaim

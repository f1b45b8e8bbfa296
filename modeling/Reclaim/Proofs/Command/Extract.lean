import Reclaim.Command.Run
import Reclaim.Proofs.Descriptor.Canonical
import Reclaim.Proofs.Descriptor.Image
import Reclaim.Proofs.Descriptor.Topology
import Reclaim.Proofs.Disk.Files

/-!
# The two forms of a descriptor

* `readTopology_written`     an image is no topology document, whatever it describes;
* `loadDescriptor_image`, `loadDescriptor_topology`   each form is loaded as what it was written for;
* `runExtract_written`       so is what is extracted from a file, and the file itself afterwards;
* `runRecover_congr`, `runCheck_congr`   files that are loaded alike are recovered and checked alike;
* `forms_never_confused`     all this together.
-/

namespace Reclaim

variable {d : Descriptor} {b w : Bytes} {p q : Path} {disk disk' : Disk}

/-! ## images are no documents -/

theorem Header.descriptor?_toJson (h : Header) : Topology.descriptor? h.toJson = none := by
  rw [toJson_eq]
  exact Topology.descriptor?_of_lacks (Json.isObject_ofMembers _) rfl

namespace Descriptor

theorem readTopology_written (h : Image.chunkStart d < Header.bound63) :
    readTopology (Image.written d) = .error .json := by
  obtain ⟨r, hr⟩ := Image.written_eq h
  obtain ⟨w, _, hfront⟩ := Json.parseFront_compact (Header.plain_toJson (Image.fair_header h))
    (Json.stops_cons (c := 10) (by decide) r)
  have hparse : (Json.parse (Image.written d)).bind Topology.descriptor? = none := by
    rw [hr, Json.parse, Header.render, hfront]
    simp only
    split
    · exact Header.descriptor?_toJson _
    · rfl
  rw [readTopology, hparse]

theorem ofTopology_written (h : Image.chunkStart d < Header.bound63) :
    ofTopology (Image.written d) = .error .json := by
  rw [ofTopology, readTopology_written h]

end Descriptor

/-! ## files that are loaded -/

open Descriptor

theorem loadDescriptor_eq_ok_iff : loadDescriptor p disk = .ok d ↔
    ∃ b, disk.read p = .ok b ∧
      (ofTopology b = .ok d ∨ (∃ e, ofTopology b = .error e) ∧ ofImage b = .ok d) := by
  unfold loadDescriptor
  constructor
  · intro h
    split at h
    · cases h
    · cases h
    · next b hb =>
      split at h
      · next ht =>
        cases h
        exact ⟨b, hb, .inl ht⟩
      · next e ht =>
        split at h
        · next hi =>
          cases h
          exact ⟨b, hb, .inr ⟨⟨e, ht⟩, hi⟩⟩
        · cases h
  · rintro ⟨b, hb, ht | ⟨⟨e, ht⟩, hi⟩⟩
    · rw [hb]
      simp only [ht]
    · rw [hb]
      simp only [ht, hi]

theorem loadDescriptor_valid (h : loadDescriptor p disk = .ok d) : d.Valid := by
  obtain ⟨b, -, ht | ⟨-, hi⟩⟩ := loadDescriptor_eq_ok_iff.1 h
  · exact (ofTopology_eq_ok_iff.1 ht).2
  · obtain ⟨h, hl, hd⟩ := (ofImage_eq_ok_iff b d).1 hi
    exact hd.valid hl

/-- wherever the bytes `b` are in a file, the descriptor is loaded from it -/
def Descriptor.LoadedFrom (d : Descriptor) (b : Bytes) : Prop :=
  ∀ (p : Path) (disk : Disk), disk.read p = .ok b → loadDescriptor p disk = .ok d

theorem loadedFrom_topology (hd : d.Valid) (hw : Json.White w) :
    d.LoadedFrom (d.toTopology ++ w) := fun _ _ h =>
  loadDescriptor_eq_ok_iff.2 ⟨_, h, .inl (ofTopology_toTopology hd hw)⟩

theorem loadedFrom_document (hd : d.Valid) : d.LoadedFrom d.toTopology := by
  have h := loadedFrom_topology hd Json.white_nil
  rwa [List.append_nil] at h

theorem exists_file (b : Bytes) : ∃ p disk, Disk.read disk p = .ok b := by
  refine ⟨⟨["file"]⟩, Disk.empty.put ["file"] (.file b), ?_⟩
  refine Disk.read_eq_ok_iff.2 ⟨["file"], rfl, ?_⟩
  exact Disk.node?_put_self _ _ _ (List.cons_ne_nil _ _)

theorem loadedFrom_image_iff (hd : d.toImage = .ok b) (hb : b.length < Header.bound63) :
    d.LoadedFrom b ↔ d.hosts.length ≤ Topology.bound32 := by
  obtain ⟨hv, hc, rfl⟩ := (toImage_eq_ok_iff d b).1 hd
  have hstart := Nat.lt_of_le_of_lt (Image.length_written d) hb
  have htopology := ofTopology_written hstart
  have himage := ofImage_written ((validate_eq_ok_iff d).1 hv) hc hstart
  rw [← kept_eq_iff]
  constructor
  · intro h
    obtain ⟨p, disk, hread⟩ := exists_file (Image.written d)
    obtain ⟨b, hb, hload⟩ := loadDescriptor_eq_ok_iff.1 (h p disk hread)
    rw [hread] at hb
    cases hb
    rw [htopology, himage] at hload
    rcases hload with ht | ⟨-, hi⟩
    · cases ht
    · exact Except.ok.inj hi
  · intro hkept p disk hread
    refine loadDescriptor_eq_ok_iff.2 ⟨_, hread, .inr ⟨⟨_, htopology⟩, ?_⟩⟩
    rw [himage, hkept]

namespace Command

/-! ## what is extracted -/

theorem runExtract_said (h : loadDescriptor p disk = .ok d) :
    runExtract p none disk = (.ok ⟨d.toTopology ++ [10], ""⟩, disk) := by
  rw [runExtract, h]

/-- the document that was written is loaded as the descriptor, and so is the file it was extracted
from, even if the document has taken its place -/
theorem runExtract_written (h : loadDescriptor p disk = .ok d) {speech : Speech}
    (hrun : runExtract p (some q) disk = (.ok speech, disk')) :
    loadDescriptor q disk' = .ok d ∧ loadDescriptor p disk' = .ok d := by
  have hdoc := loadedFrom_document (loadDescriptor_valid h)
  rw [runExtract, h] at hrun
  simp only at hrun
  split at hrun
  · cases hrun
  · next hwrite =>
    cases hrun
    obtain ⟨here, hfile, honly⟩ := Disk.write_ok hwrite
    refine ⟨hdoc q disk' (Disk.read_eq_ok_iff.2 ⟨here, hfile⟩), ?_⟩
    obtain ⟨b, hb, hread⟩ := loadDescriptor_eq_ok_iff.1 h
    rcases honly.read hfile.2 hb with hsame | hdocument
    · exact loadDescriptor_eq_ok_iff.2 ⟨b, hsame, hread⟩
    · exact hdoc p disk' hdocument

/-! ## what is done with it -/

theorem runRecover_congr (hp : loadDescriptor p disk = .ok d) (hq : loadDescriptor q disk = .ok d)
    (orders : Run.Orders) (output : Path) (o : HostOptions) (progress : Bool) :
    runRecover orders p output o progress disk = runRecover orders q output o progress disk := by
  rw [runRecover, runRecover, hp, hq]

/-- only the name of a report that none was given for comes from the name of the file -/
theorem runCheck_congr (hp : loadDescriptor p disk = .ok d) (hq : loadDescriptor q disk = .ok d)
    (orders : Run.Orders) (now : String) (o : HostOptions) (output : Option Path) :
    runCheck orders now q o (some (output.getD (reportPath p o.dataDir))) disk =
      runCheck orders now p o output disk := by
  rw [runCheck, runCheck, hp, hq]
  rfl

end Command

namespace Descriptor

open Command

/-- No image is taken for a topology document.  A descriptor is loaded from its image, as long as
the places of its hosts fit there, and from its document with any white space behind it.  Whatever
a file is loaded as, so is what is extracted from it, said or written, and the file itself
afterwards; and files that are loaded alike are recovered and checked alike, a report going where
it is told to or else where the name of the first file says. -/
theorem forms_never_confused (d : Descriptor) :
    (∀ b, d.toImage = .ok b → b.length < Header.bound63 →
      ofTopology b = .error .json ∧ (d.LoadedFrom b ↔ d.hosts.length ≤ Topology.bound32)) ∧
    (d.validate = .ok () → ∀ w, Json.White w → d.LoadedFrom (d.toTopology ++ w)) ∧
    ∀ p disk, loadDescriptor p disk = .ok d →
      (runExtract p none disk = (.ok ⟨d.toTopology ++ [10], ""⟩, disk) ∧
        d.LoadedFrom (d.toTopology ++ [10])) ∧
      (∀ q speech disk', runExtract p (some q) disk = (.ok speech, disk') →
        loadDescriptor q disk' = .ok d ∧ loadDescriptor p disk' = .ok d) ∧
      ∀ q, loadDescriptor q disk = .ok d →
        (∀ orders output o progress,
          runRecover orders q output o progress disk =
            runRecover orders p output o progress disk) ∧
        ∀ orders now o output,
          runCheck orders now q o (some (output.getD (reportPath p o.dataDir))) disk =
            runCheck orders now p o output disk := by
  have hline : ∀ c ∈ ([10] : Bytes), Json.isBlank c = true := List.all_eq_true.1 (by decide)
  refine ⟨fun b hd hb => ⟨?_, loadedFrom_image_iff hd hb⟩, fun hv w hw => ?_, fun p disk h => ?_⟩
  · obtain ⟨-, -, rfl⟩ := (toImage_eq_ok_iff d b).1 hd
    exact ofTopology_written (Nat.lt_of_le_of_lt (Image.length_written d) hb)
  · exact loadedFrom_topology ((validate_eq_ok_iff d).1 hv) hw
  · refine ⟨⟨runExtract_said h, loadedFrom_topology (loadDescriptor_valid h) hline⟩, ?_, ?_⟩
    · exact fun q speech disk' hrun => runExtract_written h hrun
    · exact fun q hq => ⟨fun orders output o progress => runRecover_congr hq h orders output o progress,
        fun orders now o output => runCheck_congr h hq orders now o output⟩

/-- a disk with an image on it -/
def shelf : Disk := Disk.empty.put ["odd"] (.file (Image.written oddOne))

theorem forms_never_confused_odd :
    ofTopology (Image.written oddOne) = .error .json ∧
      oddOne.LoadedFrom (oddOne.toTopology ++ [32, 13, 10]) ∧
      loadDescriptor ⟨["odd"]⟩ shelf = .ok oddOne ∧
      ∃ speech disk', runExtract ⟨["odd"]⟩ (some ⟨["odd.json"]⟩) shelf = (.ok speech, disk') ∧
        loadDescriptor ⟨["odd.json"]⟩ disk' = .ok oddOne ∧
        ∀ orders output o progress, runRecover orders ⟨["odd.json"]⟩ output o progress disk' =
          runRecover orders ⟨["odd"]⟩ output o progress disk' := by
  obtain ⟨himages, hdocuments, hfiles⟩ := forms_never_confused oddOne
  have hv : oddOne.validate = .ok () := by decide +kernel
  have hw : ∀ c ∈ ([32, 13, 10] : Bytes), Json.isBlank c = true :=
    List.all_eq_true.1 (by decide)
  have himage : oddOne.toImage = .ok (Image.written oddOne) :=
    (toImage_eq_ok_iff _ _).2 ⟨hv, by decide +kernel, rfl⟩
  obtain ⟨htopology, hloaded⟩ := himages _ himage (by decide +kernel)
  have hload : loadDescriptor ⟨["odd"]⟩ shelf = .ok oddOne := hloaded.2 (by decide +kernel) _ _ rfl
  have hrun : ∃ speech disk',
      runExtract ⟨["odd"]⟩ (some ⟨["odd.json"]⟩) shelf = (.ok speech, disk') := by
    rw [runExtract, hload]
    exact ⟨_, _, rfl⟩
  obtain ⟨speech, disk', hrun⟩ := hrun
  obtain ⟨hextracted, hstill⟩ := (hfiles _ _ hload).2.1 _ _ _ hrun
  exact ⟨htopology, hdocuments hv _ hw, hload, speech, disk', hrun, hextracted,
    ((hfiles _ _ hstill).2.2 _ hextracted).1⟩

end Descriptor

end Reclaim

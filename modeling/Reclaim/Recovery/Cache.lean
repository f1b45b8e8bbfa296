import Reclaim.Key

/-!
# Sectors kept during a run

A cache keeps the first copy of each sector it is given and never gives one up.

* `get?_insert` what is found after an insertion.
-/

namespace Reclaim

/-- verified sectors by root, the latest first -/
structure Cache where
  sectors : List (Hash256 × Bytes)

namespace Cache

def empty : Cache := ⟨[]⟩

def get? (c : Cache) (root : Hash256) : Option Bytes := c.sectors.lookup root

def contains (c : Cache) (root : Hash256) : Bool := (c.get? root).isSome

def size (c : Cache) : Nat := c.sectors.length

/-- keep a sector, unless there is one for this root -/
def insert (c : Cache) (root : Hash256) (sector : Bytes) : Cache :=
  if c.contains root then c else ⟨(root, sector) :: c.sectors⟩

theorem get?_empty (root : Hash256) : empty.get? root = none := rfl

theorem get?_insert (c : Cache) (root r : Hash256) (sector : Bytes) :
    (c.insert root sector).get? r
      = if r = root then some ((c.get? root).getD sector) else c.get? r := by
  unfold insert
  split
  · next h =>
    obtain ⟨b, hb⟩ := Option.isSome_iff_exists.1 h
    split
    · next e => rw [e, hb, Option.getD_some]
    · rfl
  · next h =>
    have hn : c.get? root = none := by
      cases hc : c.get? root with
      | none => rfl
      | some b => exact absurd (by rw [contains, hc]; rfl) h
    unfold get? at hn ⊢
    rw [List.lookup_cons]
    split
    · next e =>
      rw [if_pos (eq_of_beq e), hn, Option.getD_none]
    · next e => rw [if_neg (fun he => by rw [he, beq_self_eq_true] at e; cases e)]

end Cache

end Reclaim

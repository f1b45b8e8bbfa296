import Mathlib.Algebra.Order.BigOperators.Group.List
import Mathlib.Algebra.Order.Ring.Nat
import Reclaim.Host.Amount

/-!
# The price of a read

* `toNat_plus`, `toNat_times`   sums and products are exact, or the largest amount;
* `toNat_total`         a sum that fits does not wrap;
* `readCost_eq`         the price is the exact one, at most the largest amount;
* `readCost_exact`      it is what the steps in 128 bits come to, whatever the order of the sections,
                        and only grows with prices and sections.
-/

namespace Reclaim

/-! ## amounts -/

namespace Amount

variable (a b : Amount)

theorem toNat_largest : largest.toNat = maxAmount := by decide

theorem toNat_plus : (plus a b).toNat = addAmount a.toNat b.toNat := by
  have hmax : maxAmount + 1 = 2 ^ 128 := by decide
  rw [plus, addAmount, BitVec.uaddOverflow]
  by_cases h : a.toNat + b.toNat ≥ 2 ^ 128
  · rw [if_pos (decide_eq_true h), toNat_largest]
    omega
  · rw [if_neg (by rwa [decide_eq_true_eq]), BitVec.toNat_add_of_lt (Nat.lt_of_not_le h)]
    omega

theorem toNat_times : (times a b).toNat = mulAmount a.toNat b.toNat := by
  have hmax : maxAmount + 1 = 2 ^ 128 := by decide
  rw [times, mulAmount, BitVec.umulOverflow]
  by_cases h : a.toNat * b.toNat ≥ 2 ^ 128
  · rw [if_pos (decide_eq_true h), toNat_largest]
    omega
  · rw [if_neg (by rwa [decide_eq_true_eq]), BitVec.toNat_mul_of_lt (Nat.lt_of_not_le h)]
    omega

/-- a sum that fits does not wrap -/
theorem toNat_total {l : List Amount} (h : (l.map BitVec.toNat).sum < 2 ^ 128) :
    (total l).toNat = (l.map BitVec.toNat).sum := by
  -- on the amounts still to come, `a` being what those before them come to
  have hfold : ∀ (l : List Amount) (a : Amount), a.toNat + (l.map BitVec.toNat).sum < 2 ^ 128 →
      (l.foldl (· + ·) a).toNat = a.toNat + (l.map BitVec.toNat).sum := by
    intro l
    induction l with
    | nil => exact fun a _ => rfl
    | cons b l ih =>
      intro a h
      rw [List.map_cons, List.sum_cons, ← Nat.add_assoc] at h ⊢
      have hab : (a + b).toNat = a.toNat + b.toNat :=
        BitVec.toNat_add_of_lt (Nat.lt_of_le_of_lt (Nat.le_add_right _ _) h)
      rw [List.foldl_cons, ih (a + b) (by rwa [hab]), hab]
  have hzero : (0 : Amount).toNat = 0 := rfl
  have := hfold l 0 (by rwa [hzero, Nat.zero_add])
  rwa [hzero, Nat.zero_add] at this

theorem toNat_ofNat {n : Nat} (h : n < 2 ^ 128) : (BitVec.ofNat 128 n).toNat = n := by
  rw [BitVec.toNat_ofNat, Nat.mod_eq_of_lt h]

end Amount

/-! ## prices -/

/-- prices as they are held: each is an amount -/
structure HostSettings.Held (s : HostSettings) : Prop where
  base : s.base < 2 ^ 128
  access : s.access < 2 ^ 128
  bandwidth : s.bandwidth < 2 ^ 128

/-- no price of `s` is above that of `t` -/
structure HostSettings.AtMost (s t : HostSettings) : Prop where
  base : s.base ≤ t.base
  access : s.access ≤ t.access
  bandwidth : s.bandwidth ≤ t.bandwidth

/-- sections as they can be asked for: each length has 32 bits, and there are not too many -/
structure Askable (sections : List ReadSection) : Prop where
  lengths : ∀ p ∈ sections, p.length < 2 ^ 32
  count : sections.length < 2 ^ 96

/-- the bytes of all sections together -/
def sectionBytes (sections : List ReadSection) : Nat := (sections.map ReadSection.length).sum

/-- what a read costs with no largest amount -/
def exactCost (s : HostSettings) (sections : List ReadSection) : Nat :=
  s.base + s.access * sections.length + s.bandwidth * sectionBytes sections

section
variable {s t : HostSettings} {sections more : List ReadSection}

theorem foldr_length (sections : List ReadSection) :
    sections.foldr (fun p n => p.length + n) 0 = sectionBytes sections := by
  rw [sectionBytes, List.sum_eq_foldr, List.foldr_map]

theorem readCost_eq (s : HostSettings) (sections : List ReadSection) :
    readCost s sections = min (2 ^ 128 - 1) (exactCost s sections) := by
  have hmax : maxAmount = 2 ^ 128 - 1 := by decide
  rw [readCost, foldr_length, addAmount, addAmount, mulAmount, mulAmount, hmax, exactCost]
  omega

theorem sectionBytes_lt (h : Askable sections) : sectionBytes sections < 2 ^ 128 := by
  have hle : sectionBytes sections ≤ sections.length * (2 ^ 32 - 1) := by
    have := List.sum_le_card_nsmul (sections.map ReadSection.length) (2 ^ 32 - 1) fun n hn => by
      obtain ⟨p, hp, rfl⟩ := List.mem_map.1 hn
      exact Nat.le_pred_of_lt (h.lengths p hp)
    rwa [List.length_map] at this
  have hcount := h.count
  omega

theorem toNat_bytes (h : Askable sections) :
    (Amount.bytes sections).toNat = sectionBytes sections := by
  have hlengths : (sections.map fun p => BitVec.ofNat 128 p.length).map BitVec.toNat =
      sections.map ReadSection.length := by
    rw [List.map_map]
    refine List.map_congr_left fun p hp => ?_
    have := h.lengths p hp
    exact Amount.toNat_ofNat (by omega)
  have hsum := sectionBytes_lt h
  rw [sectionBytes, ← hlengths] at hsum
  rw [Amount.bytes, Amount.toNat_total hsum, hlengths, sectionBytes]

theorem toNat_readCost (hs : s.Held) (h : Askable sections) :
    (Amount.readCost s sections).toNat = readCost s sections := by
  have hcount := h.count
  rw [Amount.readCost, Amount.toNat_plus, Amount.toNat_plus, Amount.toNat_times,
    Amount.toNat_times, toNat_bytes h, Amount.toNat_ofNat hs.base,
    Amount.toNat_ofNat hs.access, Amount.toNat_ofNat hs.bandwidth,
    Amount.toNat_ofNat (by omega), readCost, foldr_length]

theorem exactCost_perm (h : sections.Perm more) : exactCost s sections = exactCost s more := by
  rw [exactCost, exactCost, h.length_eq, sectionBytes, (h.map _).sum_eq, ← sectionBytes]

theorem exactCost_mono (hp : s.AtMost t) (h : sections.Sublist more) :
    exactCost s sections ≤ exactCost t more := by
  have hbytes : sectionBytes sections ≤ sectionBytes more :=
    (h.map _).sum_le_sum fun _ _ => Nat.zero_le _
  exact Nat.add_le_add (Nat.add_le_add hp.base (Nat.mul_le_mul hp.access h.length_le))
    (Nat.mul_le_mul hp.bandwidth hbytes)

end

/-- The price of a read is the exact price, or the largest amount if that is less; the steps that
reckon it in 128 bits come to the same, nothing wrapping around on the way.  So the order of the
sections does not matter, and the price does not fall when a price rises or sections are added,
wherever they stand. -/
theorem readCost_exact (s : HostSettings) (sections : List ReadSection) (hs : s.Held)
    (h : Askable sections) :
    (Amount.readCost s sections).toNat = readCost s sections ∧
      readCost s sections = min (2 ^ 128 - 1) (exactCost s sections) ∧
      (∀ other, sections.Perm other → Amount.readCost s other = Amount.readCost s sections) ∧
      (∀ t : HostSettings, t.Held → s.AtMost t →
        Amount.readCost s sections ≤ Amount.readCost t sections) ∧
      ∀ more, Askable more → sections.Sublist more →
        Amount.readCost s sections ≤ Amount.readCost s more := by
  have hcost : ∀ {t more}, t.Held → Askable more →
      (Amount.readCost t more).toNat = min (2 ^ 128 - 1) (exactCost t more) := fun ht hmore => by
    rw [toNat_readCost ht hmore, readCost_eq]
  have hrefl : s.AtMost s := ⟨Nat.le_refl _, Nat.le_refl _, Nat.le_refl _⟩
  have hgrows : ∀ {a b : Nat}, a ≤ b → min (2 ^ 128 - 1) a ≤ min (2 ^ 128 - 1) b := by omega
  refine ⟨toNat_readCost hs h, readCost_eq s sections, fun other hp => ?_, fun t ht hst => ?_,
    fun more hmore hsub => ?_⟩
  · have hother : Askable other :=
      ⟨fun p hp' => h.lengths p (hp.mem_iff.2 hp'), hp.length_eq ▸ h.count⟩
    apply BitVec.eq_of_toNat_eq
    rw [hcost hs hother, hcost hs h, exactCost_perm hp]
  · rw [BitVec.le_def, hcost hs h, hcost ht h]
    exact hgrows (exactCost_mono hst (List.Sublist.refl _))
  · rw [BitVec.le_def, hcost hs h, hcost hs hmore]
    exact hgrows (exactCost_mono hrefl hsub)

/-- two sections of different lengths, at small prices and with one as large as it can be -/
theorem readCost_exact_largest :
    let long : ReadSection := ⟨Hash256.zero, 0, 4294967295⟩
    let short : ReadSection := ⟨Hash256.zero, 64, 4096⟩
    let low : HostSettings := ⟨1, 2, 3⟩
    let high : HostSettings := ⟨1, maxAmount, 3⟩
    low.Held ∧ high.Held ∧ low.AtMost high ∧ Askable [long, short] ∧
      readCost low [long, short] = 5 + 3 * 4294971391 ∧
      (Amount.readCost low [long, short]).toNat = 5 + 3 * 4294971391 ∧
      Amount.readCost low [short, long] = Amount.readCost low [long, short] ∧
      (Amount.readCost high [long, short]).toNat = maxAmount ∧
      Amount.readCost low [long, short] ≤ Amount.readCost high [long, short] ∧
      Amount.readCost low [short] ≤ Amount.readCost low [long, short] := by
  intro long short low high
  have hlow : low.Held := ⟨by decide, by decide, by decide⟩
  have hhigh : high.Held := ⟨by decide, by decide, by decide⟩
  have hmost : low.AtMost high := ⟨by decide, by decide, by decide⟩
  have hboth : Askable [long, short] := ⟨by decide, by decide⟩
  have hshort : Askable [short] := ⟨by decide, by decide⟩
  obtain ⟨hnat, hexact, horder, hdearer, -⟩ := readCost_exact low [long, short] hlow hboth
  obtain ⟨hnat', hexact', -⟩ := readCost_exact high [long, short] hhigh hboth
  obtain ⟨-, -, -, -, hmore⟩ := readCost_exact low [short] hlow hshort
  have hcost : readCost low [long, short] = 5 + 3 * 4294971391 := by
    rw [hexact]
    decide
  refine ⟨hlow, hhigh, hmost, hboth, hcost, hnat.trans hcost, horder _ (.swap short long []), ?_,
    hdearer high hhigh hmost, hmore _ hboth (.cons long (.refl _))⟩
  rw [hnat', hexact']
  decide

end Reclaim

import Reclaim.Proofs.Recovery.Race
import Reclaim.Proofs.Erasure.Codeword
import Reclaim.Recovery.Recover

/-!
# What the collection of a chunk's pieces gives

* `Collected.Sound`   every piece found comes from a genuine sector for one of its own claims, and
                      the pieces are counted right;
* `Collected.Tried`   how far the first pass over the claims has come;
* `tryClaims_rule`, `search_rule`   what the two passes preserve;
* `collect_eq_ok_iff`, `collect_eq_error_iff`   what collecting comes to;
* `collect_rule`      the pieces of a chunk that has enough of them;
* `collect_succeeds`  there are enough of them if as many can be found at hosts.
-/

namespace Reclaim.Recovery

variable {σ : Type}

/-! ## slots -/

theorem length_filterMap_set (slots : Slots) (i : Nat) (b : Bytes) (h : slots[i]? = some none) :
    ((slots.set i (some b)).filterMap id).length = (slots.filterMap id).length + 1 := by
  induction slots generalizing i with
  | nil => cases h
  | cons a slots ih =>
    cases i with
    | zero =>
      rw [List.getElem?_cons_zero, Option.some_inj] at h
      rw [h]
      rfl
    | succ i =>
      rw [List.getElem?_cons_succ] at h
      have e := ih i h
      rw [List.set_cons_succ]
      cases a with
      | none => exact e
      | some x => exact congrArg Nat.succ e

theorem length_le_of_filled (slots : Slots) (places : List Nat) (hn : places.Nodup)
    (h : ∀ i ∈ places, ∃ b, slots[i]? = some (some b)) :
    places.length ≤ (slots.filterMap id).length := by
  rw [Erasure.filterMap_id_eq, List.length_map]
  refine (List.Nodup.subperm hn fun i hi => ?_).length_le
  obtain ⟨b, hb⟩ := h i hi
  refine List.mem_filter.2 ⟨List.mem_range.2 (List.getElem?_eq_some_iff.1 hb).1, ?_⟩
  rw [List.getD_eq_getElem?_getD, List.getElem?_map, hb]
  rfl

theorem getD_of_drop {claims : List (List SectorRef)} {piece : Nat} {slot : List SectorRef}
    {rest : List (List SectorRef)} (h : claims.drop piece = slot :: rest) :
    claims.getD piece [] = slot ∧ claims.drop (piece + 1) = rest := by
  constructor
  · have : (claims.drop piece)[0]? = claims[piece + 0]? := List.getElem?_drop
    rw [h, Nat.add_zero] at this
    rw [List.getD_eq_getElem?_getD, ← this]
    rfl
  · rw [← List.drop_drop, h]
    rfl

theorem lt_of_claimed {claims : List (List SectorRef)} {i : Nat} (h : claims.getD i [] ≠ []) :
    i < claims.length := by
  by_contra hi
  rw [List.getD_eq_default _ _ (Nat.le_of_not_lt hi)] at h
  exact h rfl

/-- a slot is open if nothing was found for it -/
def Collected.Open (k : Collected) (i : Nat) : Prop := k.slots[i]? = some Option.none

theorem open_add {k : Collected} {piece i : Nat} {b : Bytes} (h : i ≠ piece) :
    (k.add piece b).Open i ↔ k.Open i := by
  unfold Collected.Open Collected.add
  rw [List.getElem?_set_ne (Ne.symm h)]

theorem not_open_add {k : Collected} {piece : Nat} {b : Bytes} (h : k.Open piece) :
    ¬(k.add piece b).Open piece := by
  intro ho
  have hlt := (List.getElem?_eq_some_iff.1 h).1
  have e : (k.slots.set piece (some b))[piece]? = some none := ho
  rw [List.getElem?_set_self hlt] at e
  cases e

/-! ## pieces and claims -/

section
variable (c : Settings) (t : Target) (chunk : Nat) (claims : List (List SectorRef))

/-- a piece out of a genuine sector for one of the claimed copies of piece `i` -/
def Claimed (w : Wire σ) (i : Nat) (b : Bytes) : Prop :=
  ∃ s ∈ claims.getD i [], ∃ sector, Genuine c w s.root sector ∧ b = t.piece chunk i sector

/-- the pieces found so far are counted, and they are claimed where they stand -/
structure Collected.Sound (w : Wire σ) (k : Collected) : Prop where
  length : k.slots.length = t.descriptor.numPieces
  count : (k.slots.filterMap id).length = k.found
  claimed : ∀ i b, k.slots[i]? = some (some b) → Claimed c t chunk claims w i b

/-- the first pass over the claims has come to number `piece`: from there on all slots are open, and
before it the open slots with claims are those that are missing -/
structure Collected.Tried (piece : Nat) (k : Collected) : Prop where
  ahead : ∀ i, piece ≤ i → i < k.slots.length → k.Open i
  nodup : k.missing.Nodup
  missing : ∀ i ∈ k.missing, i < piece ∧ k.Open i ∧ claims.getD i [] ≠ []
  behind : ∀ i < piece, claims.getD i [] ≠ [] → k.Open i → i ∈ k.missing

end

section
variable {c : Settings} {t : Target} {chunk : Nat} {claims : List (List SectorRef)}
  {n : Network σ} {gone : HostKey → Prop} {w w' : Wire σ} {k : Collected}

theorem Collected.Sound.mono (hw : Wire.Evolves n gone w w')
    (h : k.Sound c t chunk claims w) : k.Sound c t chunk claims w' := by
  refine ⟨h.length, h.count, fun i b hb => ?_⟩
  obtain ⟨s, hs, sector, hg, e⟩ := h.claimed i b hb
  exact ⟨s, hs, sector, hg.mono hw, e⟩

theorem sound_none (c : Settings) (t : Target) (chunk : Nat) (claims : List (List SectorRef))
    (w : Wire σ) : (Collected.none t.descriptor.numPieces).Sound c t chunk claims w := by
  refine ⟨List.length_replicate, ?_, fun i b hb => ?_⟩
  · show ((List.replicate _ none).filterMap id).length = 0
    rw [List.filterMap_replicate_of_none rfl]
    rfl
  · have := List.eq_of_mem_replicate (List.mem_of_getElem? hb)
    cases this

theorem tried_none (claims : List (List SectorRef)) (numPieces : Nat) :
    (Collected.none numPieces).Tried claims 0 := by
  refine ⟨fun i _ hi => ?_, List.nodup_nil, fun i hi => absurd hi List.not_mem_nil,
    fun i hi => absurd hi (Nat.not_lt_zero i)⟩
  have hi : i < numPieces := by
    have e : (Collected.none numPieces).slots.length = numPieces := List.length_replicate
    omega
  show (List.replicate numPieces none)[i]? = some none
  rw [List.getElem?_replicate, if_pos hi]

theorem Collected.Sound.add {piece : Nat} {b : Bytes} (h : k.Sound c t chunk claims w)
    (ho : k.Open piece) (hb : Claimed c t chunk claims w piece b) :
    (k.add piece b).Sound c t chunk claims w := by
  refine ⟨?_, ?_, fun i b' hb' => ?_⟩
  · exact List.length_set.trans h.length
  · exact (length_filterMap_set k.slots piece b ho).trans (congrArg Nat.succ h.count)
  · by_cases hi : i = piece
    · have e : (k.slots.set piece (some b))[i]? = some (some b') := hb'
      rw [hi, List.getElem?_set_self (List.getElem?_eq_some_iff.1 ho).1] at e
      cases e
      rw [hi]
      exact hb
    · have e : (k.slots.set piece (some b))[i]? = some (some b') := hb'
      rw [List.getElem?_set_ne (Ne.symm hi)] at e
      exact h.claimed i b' e

/-! ## one step of the first pass -/

theorem Collected.Tried.skip {piece : Nat} (h : k.Tried claims piece)
    (he : claims.getD piece [] = []) : k.Tried claims (piece + 1) := by
  refine ⟨fun i hi hl => h.ahead i (by omega) hl, h.nodup, fun i hi => ?_, fun i hi hc ho => ?_⟩
  · obtain ⟨h1, h2, h3⟩ := h.missing i hi
    exact ⟨by omega, h2, h3⟩
  · by_cases hp : i = piece
    · rw [hp] at hc
      exact absurd he hc
    · exact h.behind i (by omega) hc ho

theorem Collected.Tried.add {piece : Nat} (h : k.Tried claims piece) (ho : k.Open piece)
    (b : Bytes) : (k.add piece b).Tried claims (piece + 1) := by
  refine ⟨fun i hi hl => ?_, h.nodup, fun i hi => ?_, fun i hi hc hopen => ?_⟩
  · have hl : i < (k.slots.set piece (some b)).length := hl
    rw [List.length_set] at hl
    exact (open_add (by omega)).2 (h.ahead i (by omega) hl)
  · obtain ⟨h1, h2, h3⟩ := h.missing i hi
    exact ⟨by omega, (open_add (by omega)).2 h2, h3⟩
  · by_cases hp : i = piece
    · rw [hp] at hopen
      exact absurd hopen (not_open_add ho)
    · exact h.behind i (by omega) hc ((open_add hp).1 hopen)

theorem Collected.Tried.miss {piece : Nat} (h : k.Tried claims piece) (ho : k.Open piece)
    (hc : claims.getD piece [] ≠ []) : (k.miss piece).Tried claims (piece + 1) := by
  refine ⟨fun i hi hl => h.ahead i (by omega) hl, ?_, fun i hi => ?_, fun i hi hci hopen => ?_⟩
  · refine List.nodup_append.2 ⟨h.nodup, List.nodup_singleton _, fun a ha b hb => ?_⟩
    have := (h.missing a ha).1
    rw [List.mem_singleton.1 hb]
    omega
  · rcases List.mem_append.1 hi with hi | hi
    · obtain ⟨h1, h2, h3⟩ := h.missing i hi
      exact ⟨by omega, h2, h3⟩
    · rw [List.mem_singleton.1 hi]
      exact ⟨by omega, ho, hc⟩
  · by_cases hp : i = piece
    · exact List.mem_append.2 (.inr (List.mem_singleton.2 hp))
    · exact List.mem_append.2 (.inl (h.behind i (by omega) hci hopen))

end

/-! ## the two passes -/

section
variable {n : Network σ} {c : Settings} {gone : HostKey → Prop} (t : Target) (chunk : Nat)
  {claims : List (List SectorRef)} {r : Run σ}

/-- the first pass finds claimed pieces, and tries all of them unless it finds enough -/
theorem tryClaims_rule (hs : Spares n c gone r.wire) (hr : r.Sound c)
    (hlen : claims.length = t.descriptor.numPieces) (rest : List (List SectorRef)) (piece : Nat)
    (hrest : claims.drop piece = rest) (k : Collected) (hk : k.Sound c t chunk claims r.wire)
    (ht : k.Tried claims piece) :
    Run.Leads n c gone r (tryClaims n c t chunk piece rest k r).2
      ∧ (tryClaims n c t chunk piece rest k r).1.Sound c t chunk claims
          (tryClaims n c t chunk piece rest k r).2.wire
      ∧ (t.descriptor.minPieces ≤ (tryClaims n c t chunk piece rest k r).1.found
          ∨ (tryClaims n c t chunk piece rest k r).1.Tried claims claims.length) := by
  induction rest generalizing piece k r with
  | nil =>
    have hle : claims.length ≤ piece := List.drop_eq_nil_iff.1 hrest
    refine ⟨.refl, hk, .inr ⟨fun i hi hl => ?_, ht.nodup, fun i hi => ?_, fun i hi => ?_⟩⟩
    · have hl : i < k.slots.length := hl
      rw [hk.length, ← hlen] at hl
      omega
    · obtain ⟨h1, h2, h3⟩ := ht.missing i hi
      refine ⟨?_, h2, h3⟩
      have := (List.getElem?_eq_some_iff.1 h2).1
      rwa [hk.length, ← hlen] at this
    · exact ht.behind i (by omega)
  | cons slot rest ih =>
    have hpiece : piece < claims.length := by
      have := congrArg List.length hrest
      rw [List.length_drop, List.length_cons] at this
      omega
    obtain ⟨hslot, hdrop⟩ := getD_of_drop hrest
    have ho : k.Open piece := ht.ahead piece (Nat.le_refl _) (by rw [hk.length, ← hlen]; exact hpiece)
    rw [tryClaims]
    split
    · next hfull => exact ⟨.refl, hk, .inl hfull⟩
    · split
      · next hempty =>
        refine ih hs hr (piece + 1) hdrop k hk (ht.skip ?_)
        rw [hslot]
        exact List.isEmpty_iff.1 hempty
      · next hempty =>
        have hclaim : claims.getD piece [] ≠ [] := by
          rw [hslot]
          exact fun h => hempty (List.isEmpty_iff.2 h)
        obtain ⟨hl, hg⟩ := Run.fetchAny_rule hs slot
        cases hf : (Run.fetchAny n c slot r).1 with
        | some sector =>
          simp only [hf]
          obtain ⟨s, hsm, hgen⟩ := hg sector hf hr
          have hcl : Claimed c t chunk claims (Run.fetchAny n c slot r).2.wire piece
              (t.piece chunk piece sector) :=
            ⟨s, by rw [hslot]; exact hsm, sector, hgen, rfl⟩
          obtain ⟨h1, h2⟩ := ih (hs.mono hl.wire) (hl.sound hr) (piece + 1) hdrop _
            ((hk.mono hl.wire).add ho hcl) (ht.add ho _)
          exact ⟨hl.trans h1, h2⟩
        | none =>
          simp only [hf]
          obtain ⟨h1, h2⟩ := ih (hs.mono hl.wire) (hl.sound hr) (piece + 1) hdrop (k.miss piece)
            ⟨hk.length, hk.count, (hk.mono hl.wire).claimed⟩ (ht.miss ho hclaim)
          exact ⟨hl.trans h1, h2⟩

/-- there is always a host with a contract that serves the sector with the given root -/
def Offered (n : Network σ) (c : Settings) (gone : HostKey → Prop) (origin : Wire σ)
    (root : Hash256) : Prop :=
  ∃ host, Serves n c gone origin host root
    ∧ ∀ w, Wire.Evolves n gone origin w → host ∈ n.hosts w.net

theorem Offered.mono {w w' : Wire σ} {root : Hash256} (hw : Wire.Evolves n gone w w')
    (h : Offered n c gone w root) : Offered n c gone w' root := by
  obtain ⟨host, h1, h2⟩ := h
  exact ⟨host, h1.mono hw, fun v hv => h2 v (hw.trans hv)⟩

theorem searchRoot_mem {i : Nat} (h : claims.getD i [] ≠ []) :
    ∃ s ∈ claims.getD i [], searchRoot claims i = s.root := by
  unfold searchRoot
  cases e : claims.getD i [] with
  | nil => exact absurd e h
  | cons s rest => exact ⟨s, List.mem_cons_self, rfl⟩

/-- the second pass finds claimed pieces, and among them all that are offered unless it finds
enough -/
theorem search_rule (orders : Run.Orders) (hs : Spares n c gone r.wire) (hr : r.Sound c)
    (pieces : List Nat) (hn : pieces.Nodup) (k : Collected)
    (hk : k.Sound c t chunk claims r.wire)
    (hp : ∀ i ∈ pieces, k.Open i ∧ claims.getD i [] ≠ []) :
    Run.Leads n c gone r (search n c orders t chunk claims pieces k r).2
      ∧ (search n c orders t chunk claims pieces k r).1.Sound c t chunk claims
          (search n c orders t chunk claims pieces k r).2.wire
      ∧ (t.descriptor.minPieces ≤ (search n c orders t chunk claims pieces k r).1.found
          ∨ ∀ i, (k.Open i → i ∈ pieces) → Offered n c gone r.wire (searchRoot claims i) →
              ¬(search n c orders t chunk claims pieces k r).1.Open i) := by
  induction pieces generalizing k r with
  | nil => exact ⟨.refl, hk, .inr fun i hi _ ho => absurd (hi ho) List.not_mem_nil⟩
  | cons piece rest ih =>
    obtain ⟨hnot, hn⟩ := List.nodup_cons.1 hn
    obtain ⟨ho, hclaim⟩ := hp piece List.mem_cons_self
    have hp' : ∀ i ∈ rest, k.Open i ∧ claims.getD i [] ≠ [] :=
      fun i hi => hp i (List.mem_cons_of_mem _ hi)
    rw [search]
    split
    · next hfull => exact ⟨.refl, hk, .inl hfull⟩
    · obtain ⟨hl, hg⟩ := Run.race_rule hs orders (searchRoot claims piece)
      cases hf : (Run.race n c orders (searchRoot claims piece) r).1 with
      | some sector =>
        simp only [hf]
        obtain ⟨s, hsm, hroot⟩ := searchRoot_mem hclaim
        have hcl : Claimed c t chunk claims (Run.race n c orders (searchRoot claims piece) r).2.wire
            piece (t.piece chunk piece sector) :=
          ⟨s, hsm, sector, hroot ▸ hg sector hf hr, rfl⟩
        have hopen : ∀ i ∈ rest, (k.add piece (t.piece chunk piece sector)).Open i
            ∧ claims.getD i [] ≠ [] := by
          intro i hi
          have hne : i ≠ piece := by
            rintro rfl
            exact hnot hi
          exact ⟨(open_add hne).2 (hp' i hi).1, (hp' i hi).2⟩
        obtain ⟨h1, h2, h3⟩ := ih (hs.mono hl.wire) (hl.sound hr) hn _
          ((hk.mono hl.wire).add ho hcl) hopen
        refine ⟨hl.trans h1, h2, h3.imp id fun h i hi hoff => h i (fun hio => ?_) (hoff.mono hl.wire)⟩
        have hne : i ≠ piece := by
          rintro rfl
          exact not_open_add ho hio
        exact (List.mem_cons.1 (hi ((open_add hne).1 hio))).resolve_left hne
      | none =>
        simp only [hf]
        obtain ⟨h1, h2, h3⟩ := ih (hs.mono hl.wire) (hl.sound hr) hn k (hk.mono hl.wire) hp'
        refine ⟨hl.trans h1, h2, h3.imp id fun h i hi hoff => h i (fun hio => ?_) (hoff.mono hl.wire)⟩
        refine (List.mem_cons.1 (hi hio)).resolve_left ?_
        rintro rfl
        obtain ⟨host, hserves, hhost⟩ := hoff
        obtain ⟨b, hb⟩ := Run.race_finds hs orders (hhost r.wire .refl) hserves
        rw [hb] at hf
        cases hf

end

/-! ## the pieces of a chunk -/

section
variable (n : Network σ) (c : Settings) (orders : Run.Orders) (t : Target) (chunk : Nat)
  (claims : List (List SectorRef)) (r : Run σ)

/-- what the two passes find -/
def gathered : Collected × Run σ :=
  let a := tryClaims n c t chunk 0 claims (Collected.none t.descriptor.numPieces) r
  if a.1.found < t.descriptor.minPieces then search n c orders t chunk claims a.1.missing a.1 a.2
  else a

theorem collect_eq :
    collect n c orders t chunk claims r
      = if (gathered n c orders t chunk claims r).1.found < t.descriptor.minPieces then
          (.error (.unrecoverable chunk (gathered n c orders t chunk claims r).1.found
            t.descriptor.minPieces), (gathered n c orders t chunk claims r).2)
        else (.ok (gathered n c orders t chunk claims r).1.slots,
          (gathered n c orders t chunk claims r).2) := rfl

section
variable {n c orders t chunk claims r}

theorem run_collect :
    (collect n c orders t chunk claims r).2 = (gathered n c orders t chunk claims r).2 := by
  rw [collect_eq]
  split <;> rfl

theorem collect_eq_ok_iff {slots : Slots} :
    (collect n c orders t chunk claims r).1 = .ok slots
      ↔ t.descriptor.minPieces ≤ (gathered n c orders t chunk claims r).1.found
          ∧ (gathered n c orders t chunk claims r).1.slots = slots := by
  rw [collect_eq]
  split
  · next hfew =>
    constructor
    · intro h
      cases h
    · intro h
      exact absurd hfew (Nat.not_lt.2 h.1)
  · next hmany =>
    rw [Except.ok.injEq]
    exact ⟨fun h => ⟨Nat.le_of_not_lt hmany, h⟩, And.right⟩

/-- a chunk is given up only for want of pieces -/
theorem collect_eq_error_iff {e : RecoveryError} :
    (collect n c orders t chunk claims r).1 = .error e
      ↔ (gathered n c orders t chunk claims r).1.found < t.descriptor.minPieces
          ∧ .unrecoverable chunk (gathered n c orders t chunk claims r).1.found
              t.descriptor.minPieces = e := by
  rw [collect_eq]
  split
  · next hfew =>
    rw [Except.error.injEq]
    exact ⟨fun h => ⟨hfew, h⟩, And.right⟩
  · next hmany =>
    constructor
    · intro h
      cases h
    · intro h
      exact absurd h.1 hmany

end

variable {n c claims r} {gone : HostKey → Prop}

theorem gathered_rule (hs : Spares n c gone r.wire) (hr : r.Sound c)
    (hlen : claims.length = t.descriptor.numPieces) :
    Run.Leads n c gone r (gathered n c orders t chunk claims r).2
      ∧ (gathered n c orders t chunk claims r).1.Sound c t chunk claims
          (gathered n c orders t chunk claims r).2.wire
      ∧ (t.descriptor.minPieces ≤ (gathered n c orders t chunk claims r).1.found
          ∨ ∀ i, claims.getD i [] ≠ [] → Offered n c gone r.wire (searchRoot claims i) →
              ¬(gathered n c orders t chunk claims r).1.Open i) := by
  obtain ⟨h1, h2, h3⟩ := tryClaims_rule t chunk hs hr hlen claims 0 rfl _
    (sound_none c t chunk claims r.wire) (tried_none claims _)
  unfold gathered
  generalize tryClaims n c t chunk 0 claims (Collected.none t.descriptor.numPieces) r = a at h1 h2 h3
  dsimp only
  split
  · next hfew =>
    have ht := h3.resolve_left (Nat.not_le.2 hfew)
    obtain ⟨h4, h5, h6⟩ := search_rule t chunk orders (hs.mono h1.wire) (h1.sound hr) a.1.missing ht.nodup
      a.1 h2 (fun i hi => (ht.missing i hi).2)
    refine ⟨h1.trans h4, h5, h6.imp id fun h i hclaim hoff => h i (fun ho => ?_) (hoff.mono h1.wire)⟩
    exact ht.behind i (lt_of_claimed hclaim) hclaim ho
  · next hmany => exact ⟨h1, h2, .inl (Nat.le_of_not_lt hmany)⟩

/-- a chunk is given up only for want of pieces, and otherwise there are enough pieces, each in a
slot of its own claims -/
theorem collect_rule (hs : Spares n c gone r.wire) (hr : r.Sound c)
    (hlen : claims.length = t.descriptor.numPieces) :
    Run.Leads n c gone r (collect n c orders t chunk claims r).2
      ∧ (∀ slots, (collect n c orders t chunk claims r).1 = .ok slots →
          slots.length = t.descriptor.numPieces
            ∧ t.descriptor.minPieces ≤ (slots.filterMap id).length
            ∧ ∀ i b, slots[i]? = some (some b) →
                Claimed c t chunk claims (collect n c orders t chunk claims r).2.wire i b)
      ∧ ∀ e, (collect n c orders t chunk claims r).1 = .error e →
          ∃ found, e = .unrecoverable chunk found t.descriptor.minPieces := by
  obtain ⟨h1, h2, -⟩ := gathered_rule orders t chunk hs hr hlen
  rw [run_collect]
  refine ⟨h1, fun slots h => ?_, fun e h => ?_⟩
  · obtain ⟨hmany, rfl⟩ := collect_eq_ok_iff.1 h
    refine ⟨h2.length, ?_, h2.claimed⟩
    rw [h2.count]
    exact hmany
  · exact ⟨_, (collect_eq_error_iff.1 h).2.symm⟩

/-- if enough pieces of a chunk are offered, then enough are found -/
theorem collect_succeeds (hs : Spares n c gone r.wire) (hr : r.Sound c)
    (hlen : claims.length = t.descriptor.numPieces) (pieces : List Nat) (hn : pieces.Nodup)
    (hmany : t.descriptor.minPieces ≤ pieces.length)
    (hoff : ∀ i ∈ pieces, claims.getD i [] ≠ [] ∧ Offered n c gone r.wire (searchRoot claims i)) :
    ∃ slots, (collect n c orders t chunk claims r).1 = .ok slots := by
  obtain ⟨-, h2, h3⟩ := gathered_rule orders t chunk hs hr hlen
  have henough : t.descriptor.minPieces ≤ (gathered n c orders t chunk claims r).1.found := by
    rcases h3 with h3 | h3
    · exact h3
    · rw [← h2.count]
      refine Nat.le_trans hmany (length_le_of_filled _ pieces hn fun i hi => ?_)
      obtain ⟨hclaim, hi'⟩ := hoff i hi
      have hlt : i < (gathered n c orders t chunk claims r).1.slots.length := by
        rw [h2.length, ← hlen]
        exact lt_of_claimed hclaim
      have hfilled := h3 i hclaim hi'
      unfold Collected.Open at hfilled
      rw [List.getElem?_eq_getElem hlt] at hfilled ⊢
      cases e : (gathered n c orders t chunk claims r).1.slots[i] with
      | none => exact absurd (congrArg some e) hfilled
      | some b => exact ⟨b, rfl⟩
  exact ⟨_, collect_eq_ok_iff.2 ⟨henough, rfl⟩⟩

end

end Reclaim.Recovery

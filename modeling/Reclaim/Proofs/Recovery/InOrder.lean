import Reclaim.Proofs.Health.Survey
import Reclaim.Proofs.Host.Memory
import Reclaim.Proofs.Recovery.Available
import Reclaim.Proofs.Recovery.Turns

/-!
# The pieces of a chunk are collected in order

* `fill`              the slots with the pieces out of certain sectors filled in;
* `tryClaims_eq`, `search_eq`, `gathered_eq`   both passes over the slots are calls in turn until
                      there is enough;
* `InOrder`           which pieces are tried, which are searched for, and when;
* `collect_in_order`  collecting goes in this order and takes no more pieces than it needs, each out
                      of a genuine sector of its own slot.
-/

namespace Reclaim.Recovery

open Run

variable {σ : Type}

/-! ## filling slots -/

section
variable (t : Target) (chunk : Nat)

/-- the slots with the pieces out of these sectors filled in -/
def fill (l : List (Nat × Bytes)) (slots : Slots) : Slots :=
  l.foldl (fun slots e => slots.set e.1 (some (t.piece chunk e.1 e.2))) slots

theorem fill_cons (e : Nat × Bytes) (l : List (Nat × Bytes)) (slots : Slots) :
    fill t chunk (e :: l) slots = fill t chunk l (slots.set e.1 (some (t.piece chunk e.1 e.2))) :=
  rfl

theorem fill_append (l l' : List (Nat × Bytes)) (slots : Slots) :
    fill t chunk (l ++ l') slots = fill t chunk l' (fill t chunk l slots) := List.foldl_append

theorem length_fill (l : List (Nat × Bytes)) (slots : Slots) :
    (fill t chunk l slots).length = slots.length := by
  induction l generalizing slots with
  | nil => rfl
  | cons e l ih => rw [fill_cons, ih, List.length_set]

theorem getElem?_fill_of_not_mem {l : List (Nat × Bytes)} {i : Nat} (h : i ∉ l.map Prod.fst)
    (slots : Slots) : (fill t chunk l slots)[i]? = slots[i]? := by
  induction l generalizing slots with
  | nil => rfl
  | cons e l ih =>
    rw [List.map_cons, List.mem_cons, not_or] at h
    rw [fill_cons, ih h.2, List.getElem?_set_ne (Ne.symm h.1)]

theorem getElem?_fill {l : List (Nat × Bytes)} (hn : (l.map Prod.fst).Nodup) {e : Nat × Bytes}
    (he : e ∈ l) {slots : Slots} (hlt : e.1 < slots.length) :
    (fill t chunk l slots)[e.1]? = some (some (t.piece chunk e.1 e.2)) := by
  induction l generalizing slots with
  | nil => exact absurd he List.not_mem_nil
  | cons first l ih =>
    obtain ⟨hnot, hn⟩ := List.nodup_cons.1 hn
    rw [fill_cons]
    rcases List.mem_cons.1 he with rfl | he
    · rw [getElem?_fill_of_not_mem t chunk hnot, List.getElem?_set_self hlt]
    · exact ih hn he (by rw [List.length_set]; exact hlt)

theorem getElem?_fill_iff {l : List (Nat × Bytes)} (hn : (l.map Prod.fst).Nodup) {count : Nat}
    (hlt : ∀ e ∈ l, e.1 < count) {i : Nat} {b : Bytes} :
    (fill t chunk l (List.replicate count none))[i]? = some (some b)
      ↔ ∃ sector, (i, sector) ∈ l ∧ b = t.piece chunk i sector := by
  have hlen : (List.replicate count (none : Option Bytes)).length = count := List.length_replicate
  constructor
  · intro hb
    by_cases hi : i ∈ l.map Prod.fst
    · obtain ⟨e, he, rfl⟩ := List.mem_map.1 hi
      rw [getElem?_fill t chunk hn he (by rw [hlen]; exact hlt e he), Option.some_inj,
        Option.some_inj] at hb
      exact ⟨e.2, he, hb.symm⟩
    · rw [getElem?_fill_of_not_mem t chunk hi] at hb
      cases List.eq_of_mem_replicate (List.mem_of_getElem? hb)
  · rintro ⟨sector, hm, rfl⟩
    exact getElem?_fill t chunk hn hm (by rw [hlen]; exact hlt _ hm)

end

/-! ## both passes -/

/-- what is there after calls that gave certain sectors, or none -/
def Collected.after (t : Target) (chunk : Nat) (k : Collected) (l : List (Nat × Option Bytes)) :
    Collected :=
  ⟨fill t chunk (got l) k.slots, k.found + (got l).length, k.missing ++ missed l⟩

section
variable (t : Target) (chunk : Nat) (k : Collected) (l : List (Nat × Option Bytes)) (piece : Nat)

theorem after_nil : k.after t chunk [] = k := by
  rw [Collected.after, missed_nil, List.append_nil]
  rfl

theorem after_some (sector : Bytes) :
    k.after t chunk ((piece, some sector) :: l)
      = (k.add piece (t.piece chunk piece sector)).after t chunk l := by
  rw [Collected.after, got_cons_some, missed_cons_some, List.length_cons,
    Nat.add_comm (got l).length, ← Nat.add_assoc]
  rfl

theorem after_none :
    k.after t chunk ((piece, none) :: l) = (k.miss piece).after t chunk l := by
  rw [Collected.after, got_cons_none, missed_cons_none, List.append_cons]
  rfl

end

section
variable (n : Network σ) (c : Settings) (orders : Orders) (t : Target) (chunk : Nat)
  (claims : List (List SectorRef))

/-- trying the claimed copies of a piece -/
def tryPiece : Call σ := fun piece r => fetchAny n c (claims.getD piece []) r

/-- searching all hosts for a piece -/
def searchPiece : Call σ := fun piece r => race n c orders (searchRoot claims piece) r

/-- the first pass tries piece after piece until there is enough, leaving out empty slots -/
theorem tryClaims_eq (piece : Nat) (slots : List (List SectorRef))
    (hdrop : claims.drop piece = slots) (k : Collected) (r : Run σ) {places : List Nat}
    (hplaces : places = (List.range' piece slots.length).filter fun i =>
      !(claims.getD i []).isEmpty)
    {s : List (Nat × Option Bytes) × Run σ}
    (hs : s = sweep (tryPiece n c claims) t.descriptor.minPieces places k.found r) :
    tryClaims n c t chunk piece slots k r = (k.after t chunk s.1, s.2) := by
  induction slots generalizing piece k r places s with
  | nil =>
    subst hplaces hs
    show (k, r) = (k.after t chunk [], r)
    rw [after_nil]
  | cons slot rest ih =>
    obtain ⟨hslot, hrest⟩ := getD_of_drop hdrop
    rw [List.length_cons, List.range'_succ, List.filter_cons, hslot] at hplaces
    rw [tryClaims]
    split
    · next hfull =>
      rw [sweep_full _ _ _ _ _ hfull] at hs
      rw [hs, after_nil]
    · next hfew =>
      split
      · next hempty =>
        rw [hempty] at hplaces
        exact ih (piece + 1) hrest k r hplaces hs
      · next hfilled =>
        have hcall : tryPiece n c claims piece r = fetchAny n c slot r := by rw [tryPiece, hslot]
        rw [Bool.eq_false_iff.2 hfilled] at hplaces
        rw [hplaces, Bool.not_false, if_pos rfl, sweep, if_neg hfew, hcall] at hs
        dsimp only at hs ⊢
        rw [hs]
        cases hf : (fetchAny n c slot r).1 with
        | some sector =>
          rw [after_some]
          exact ih (piece + 1) hrest _ _ rfl rfl
        | none =>
          rw [after_none]
          exact ih (piece + 1) hrest _ _ rfl rfl

/-- the second pass searches for piece after piece until there is enough -/
theorem search_eq (pieces : List Nat) (k : Collected) (r : Run σ)
    {s : List (Nat × Option Bytes) × Run σ}
    (hs : s = sweep (searchPiece n c orders claims) t.descriptor.minPieces pieces k.found r) :
    search n c orders t chunk claims pieces k r
      = ({ k.after t chunk s.1 with missing := k.missing }, s.2) := by
  induction pieces generalizing k r s with
  | nil =>
    subst hs
    show (k, r) = ({ k.after t chunk [] with missing := k.missing }, r)
    rw [after_nil]
  | cons piece rest ih =>
    rw [search]
    split
    · next hfull =>
      rw [sweep_full _ _ _ _ _ hfull] at hs
      rw [hs, after_nil]
    · next hfew =>
      have hcall : searchPiece n c orders claims piece r
        = race n c orders (searchRoot claims piece) r := rfl
      rw [sweep, if_neg hfew, hcall] at hs
      dsimp only at hs ⊢
      rw [hs]
      cases hf : (race n c orders (searchRoot claims piece) r).1 with
      | some sector =>
        rw [after_some]
        exact ih _ _ rfl
      | none =>
        rw [after_none]
        exact ih _ _ rfl

/-- the pieces that have claimed copies, in order -/
def claimedPieces : List Nat :=
  (List.range claims.length).filter fun i => !(claims.getD i []).isEmpty

/-- the attempts at claimed copies of the pieces of a chunk, and the run after them -/
def attempts (r : Run σ) : List (Nat × Option Bytes) × Run σ :=
  sweep (tryPiece n c claims) t.descriptor.minPieces (claimedPieces claims) 0 r

/-- the searches for pieces that were missed, and the run after them -/
def searches (r : Run σ) : List (Nat × Option Bytes) × Run σ :=
  let a := attempts n c t claims r
  sweep (searchPiece n c orders claims) t.descriptor.minPieces (missed a.1) (got a.1).length a.2

/-- what is gathered is what was got by both passes -/
theorem gathered_eq (r : Run σ) :
    (gathered n c orders t chunk claims r).1.slots
        = fill t chunk (got (attempts n c t claims r).1
            ++ got (searches n c orders t claims r).1)
          (List.replicate t.descriptor.numPieces none)
      ∧ (gathered n c orders t chunk claims r).1.found
        = (got (attempts n c t claims r).1).length
            + (got (searches n c orders t claims r).1).length
      ∧ (gathered n c orders t chunk claims r).2 = (searches n c orders t claims r).2 := by
  have hfirst : tryClaims n c t chunk 0 claims (Collected.none t.descriptor.numPieces) r
      = ((Collected.none t.descriptor.numPieces).after t chunk (attempts n c t claims r).1,
          (attempts n c t claims r).2) := by
    refine tryClaims_eq n c t chunk claims 0 claims rfl _ r ?_ rfl
    rw [claimedPieces, List.range_eq_range']
  unfold gathered
  dsimp only
  rw [hfirst, fill_append]
  generalize hk : (Collected.none t.descriptor.numPieces).after t chunk (attempts n c t claims r).1
    = k
  have hslots : k.slots = fill t chunk (got (attempts n c t claims r).1)
      (List.replicate t.descriptor.numPieces none) := by
    rw [← hk]
    rfl
  have hfound : k.found = (got (attempts n c t claims r).1).length := by
    rw [← hk]
    exact Nat.zero_add _
  have hmissing : k.missing = missed (attempts n c t claims r).1 := by
    rw [← hk]
    exact List.nil_append _
  rw [← hslots, ← hfound]
  have hsearches : searches n c orders t claims r = sweep (searchPiece n c orders claims)
      t.descriptor.minPieces k.missing k.found (attempts n c t claims r).2 := by
    rw [hmissing, hfound]
    rfl
  split
  · rw [search_eq n c orders t chunk claims k.missing k _ hsearches]
    exact ⟨rfl, rfl, rfl⟩
  · next hfull =>
    rw [hsearches, sweep_full _ _ _ _ _ (Nat.not_lt.1 hfull)]
    exact ⟨rfl, rfl, rfl⟩

end

/-! ## in order -/

/-- which pieces are tried and which are searched for on the way from one run to another, and what
that gives: first the claimed copies of pieces are tried, in the order of the pieces, and then the
pieces for which that gave nothing are searched for, in the same order; either goes on as long as
there is not enough, and no longer -/
structure InOrder (n : Network σ) (c : Settings) (orders : Orders) (claims : List (List SectorRef))
    (need : Nat) (r r' : Run σ) (tried searched : List (Nat × Option Bytes)) : Prop where
  /-- one call after the other; the searches on record are those for the pieces searched for, by the
  root of the first claimed copy -/
  calls : ∃ between : Run σ, Turns (tryPiece n c claims) r tried between
    ∧ Turns (searchPiece n c orders claims) between searched r'
    ∧ between.wire.searches = r.wire.searches
    ∧ ∃ begun : List Hash256, begun.Sublist (searched.map fun a => searchRoot claims a.1)
        ∧ r'.wire.searches = between.wire.searches ++ begun
  tried_prefix : tried.map Prod.fst <+: claimedPieces claims
  tried_hungry : ∀ before a after, tried = before ++ a :: after → (got before).length < need
  tried_all : (got tried).length < need → tried.map Prod.fst = claimedPieces claims
  searched_prefix : searched.map Prod.fst <+: missed tried
  searched_root : ∀ a ∈ searched, ∃ s rest, claims.getD a.1 [] = s :: rest
    ∧ searchRoot claims a.1 = s.root
  /-- no search before all pieces with claimed copies were tried -/
  searched_late : searched ≠ [] → tried.map Prod.fst = claimedPieces claims
    ∧ (got tried).length < need
  searched_hungry : ∀ before a after, searched = before ++ a :: after →
    (got tried).length + (got before).length < need
  searched_all : (got tried).length + (got searched).length < need →
    searched.map Prod.fst = missed tried

section
variable {n : Network σ} {c : Settings} {orders : Orders} {claims : List (List SectorRef)}
  {need : Nat} {r r' : Run σ} {tried searched : List (Nat × Option Bytes)}

theorem mem_claimedPieces {i : Nat} : i ∈ claimedPieces claims ↔ claims.getD i [] ≠ [] := by
  rw [claimedPieces, List.mem_filter, List.mem_range, Bool.not_eq_true', List.isEmpty_eq_false_iff]
  exact ⟨And.right, fun h => ⟨lt_of_claimed h, h⟩⟩

theorem nodup_claimedPieces (claims : List (List SectorRef)) : (claimedPieces claims).Nodup :=
  List.nodup_range.filter _

variable (h : InOrder n c orders claims need r r' tried searched)
include h

theorem InOrder.nodup : ((got tried ++ got searched).map Prod.fst).Nodup := by
  have hall : ((got tried).map Prod.fst ++ missed tried).Nodup :=
    (got_perm_missed tried).nodup_iff.2
      (h.tried_prefix.sublist.nodup (nodup_claimedPieces claims))
  have hsearched := (got_sublist searched).trans h.searched_prefix.sublist
  rw [List.map_append]
  exact ((List.Sublist.refl _).append hsearched).nodup hall

theorem InOrder.claimed {i : Nat} (hi : i ∈ tried.map Prod.fst ∨ i ∈ searched.map Prod.fst) :
    claims.getD i [] ≠ [] := by
  refine mem_claimedPieces.1 (h.tried_prefix.subset (hi.elim id fun hi => ?_))
  exact (got_perm_missed tried).subset (List.mem_append_right _ (h.searched_prefix.subset hi))

theorem InOrder.claimed_of_got {e : Nat × Bytes} (he : e ∈ got tried ++ got searched) :
    claims.getD e.1 [] ≠ [] := by
  refine h.claimed ((List.mem_append.1 he).imp (fun he => ?_) fun he => ?_)
  · exact (got_sublist tried).subset (List.mem_map.2 ⟨e, he, rfl⟩)
  · exact (got_sublist searched).subset (List.mem_map.2 ⟨e, he, rfl⟩)

theorem InOrder.genuine (hr : r.Sound c) :
    ∀ e ∈ got tried ++ got searched, ∃ s ∈ claims.getD e.1 [], Genuine c r'.wire s.root e.2 := by
  obtain ⟨between, htried, hsearched, -⟩ := h.calls
  obtain ⟨hleads, hfirst⟩ := htried.rule (n := n) (c := c) (fun i => claims.getD i [])
    fun piece _ r => fetchAny_rule (spares_all n c r.wire) (claims.getD piece [])
  obtain ⟨hleads', hsecond⟩ := hsearched.rule (n := n) (c := c) (fun i => claims.getD i [])
    fun piece hp r => by
      obtain ⟨hl, hg⟩ := race_rule (spares_all n c r.wire) orders (searchRoot claims piece)
      obtain ⟨s, hs, hroot⟩ := searchRoot_mem (h.claimed (.inr hp))
      exact ⟨hl, fun b hb hr => ⟨s, hs, hroot ▸ hg b hb hr⟩⟩
  intro e he
  rcases List.mem_append.1 he with he | he
  · obtain ⟨s, hs, hg⟩ := hfirst hr e he
    exact ⟨s, hs, hg.mono hleads'.wire⟩
  · exact hsecond (hleads.sound hr) e he

end

theorem length_got_le (n : Network σ) (c : Settings) (orders : Orders) (t : Target)
    (claims : List (List SectorRef)) (r : Run σ) :
    (got (attempts n c t claims r).1).length + (got (searches n c orders t claims r).1).length
      ≤ t.descriptor.minPieces := by
  have hfirst := sweep_le (tryPiece n c claims) t.descriptor.minPieces (claimedPieces claims) 0 r
    (Nat.zero_le _)
  rw [Nat.zero_add] at hfirst
  exact sweep_le _ _ _ _ _ hfirst

theorem inOrder_attempts (n : Network σ) (c : Settings) (orders : Orders) (t : Target)
    (claims : List (List SectorRef)) (r : Run σ) :
    InOrder n c orders claims t.descriptor.minPieces r (searches n c orders t claims r).2
      (attempts n c t claims r).1 (searches n c orders t claims r).1 := by
  have htried := sweep_prefix (tryPiece n c claims) t.descriptor.minPieces
    (claimedPieces claims) 0 r
  have hall : (got (attempts n c t claims r).1).length < t.descriptor.minPieces →
      (attempts n c t claims r).1.map Prod.fst = claimedPieces claims := by
    intro hfew
    refine (sweep_over (tryPiece n c claims) _ (claimedPieces claims) 0 r).resolve_left fun hmany => ?_
    rw [Nat.zero_add] at hmany
    exact Nat.not_le.2 hfew hmany
  have hhungry : ∀ before a after, (searches n c orders t claims r).1 = before ++ a :: after →
      (got (attempts n c t claims r).1).length + (got before).length < t.descriptor.minPieces :=
    fun before a after he => sweep_hungry _ _ _ _ _ he
  have hturns := sweep_turns (tryPiece n c claims) t.descriptor.minPieces
    (claimedPieces claims) 0 r
  have hturns' := sweep_turns (searchPiece n c orders claims) t.descriptor.minPieces
    (missed (attempts n c t claims r).1) (got (attempts n c t claims r).1).length
    (attempts n c t claims r).2
  have hnext : (searches n c orders t claims r).1.map Prod.fst
      <+: missed (attempts n c t claims r).1 := sweep_prefix _ _ _ _ _
  refine ⟨⟨(attempts n c t claims r).2, hturns, hturns', hturns.searches_eq fun piece r =>
      fetchAny_searches n c _ r, hturns'.searches_sublist fun piece r =>
      race_searches n c orders _ r⟩, htried, fun before a after he => ?_, hall, hnext,
    fun a ha => ?_, fun hne => ?_, hhungry, fun hfew => ?_⟩
  · have hlt := sweep_hungry _ _ _ _ _ he
    rwa [Nat.zero_add] at hlt
  · have hmem := hnext.subset (List.mem_map.2 ⟨a, ha, rfl⟩)
    have hclaim := mem_claimedPieces.1 (htried.subset
      ((got_perm_missed _).subset (List.mem_append_right _ hmem)))
    unfold searchRoot
    cases hrefs : claims.getD a.1 [] with
    | nil => exact absurd hrefs hclaim
    | cons s rest => exact ⟨s, rest, rfl, rfl⟩
  · cases hs : (searches n c orders t claims r).1 with
    | nil => exact absurd hs hne
    | cons a after =>
      have hfew := hhungry [] a after hs
      exact ⟨hall hfew, hfew⟩
  · exact (sweep_over (searchPiece n c orders claims) _ _ _ _).resolve_left (Nat.not_le.2 hfew)

/-- whatever was fetched before and whatever hosts do, the pieces of a chunk are collected in order:
claimed copies are tried slot by slot, and only if that does not give enough, the missed pieces are
searched for; a chunk that is not given up has just as many slots filled as it needs, each with its
own part of the file, deciphered from a sector for one of its own claimed copies; and a chunk that
is given up lacks pieces, those that it has being counted -/
theorem collect_in_order (n : Network σ) (c : Settings) (orders : Orders) (net : σ)
    (p : Option Progress) (r : Run σ) (hr : Later n c (Run.fresh net p) r) (t : Target)
    (hv : t.descriptor.validate = .ok ()) (chunk : Nat) (k : Chunk)
    (hk : t.descriptor.chunks[chunk]? = some k) :
    ∃ tried searched : List (Nat × Option Bytes),
      InOrder n c orders k.slots t.descriptor.minPieces r
          (collect n c orders t chunk k.slots r).2 tried searched
        ∧ ((got tried ++ got searched).map Prod.fst).Nodup
        ∧ (∀ e ∈ got tried ++ got searched, ∃ s ∈ k.slots.getD e.1 [],
            Genuine c (collect n c orders t chunk k.slots r).2.wire s.root e.2)
        ∧ (∀ slots, (collect n c orders t chunk k.slots r).1 = .ok slots →
            slots.length = t.descriptor.numPieces
              ∧ (slots.filterMap id).length = t.descriptor.dataPieces.toNat
              ∧ (∀ i, i < slots.length → k.slots.getD i [] = [] → slots[i]? = some none)
              ∧ ∀ i b, slots[i]? = some (some b) ↔ ∃ payload,
                  (i, payload) ∈ got tried ++ got searched
                    ∧ b = (t.key.derive chunk i).crypt (payload.take
                        (min t.descriptor.pieceSize.toNat c.sectorSize)))
        ∧ ∀ e, (collect n c orders t chunk k.slots r).1 = .error e →
            e = .unrecoverable chunk (got tried ++ got searched).length
                t.descriptor.dataPieces.toNat
              ∧ (got tried ++ got searched).length < t.descriptor.dataPieces.toNat := by
  have hsound := later_sound hr (sound_fresh c net p)
  have hlen : k.slots.length = t.descriptor.numPieces :=
    ((Descriptor.validate_eq_ok_iff _).1 hv).slots k (List.mem_of_getElem? hk)
  obtain ⟨hslots, hfound, hrun⟩ := gathered_eq n c orders t chunk k.slots r
  have horder := inOrder_attempts n c orders t k.slots r
  have hle := length_got_le n c orders t k.slots r
  have hcount := (gathered_rule orders t chunk (spares_all n c r.wire) hsound hlen).2.1.count
  refine ⟨(attempts n c t k.slots r).1, (searches n c orders t k.slots r).1, ?_⟩
  rw [run_collect, hrun]
  generalize (attempts n c t k.slots r).1 = tried at *
  generalize (searches n c orders t k.slots r).1 = searched at *
  have hgenuine := horder.genuine hsound
  have hlt : ∀ e ∈ got tried ++ got searched, e.1 < t.descriptor.numPieces := by
    intro e he
    rw [← hlen]
    exact lt_of_claimed (horder.claimed_of_got he)
  refine ⟨horder, horder.nodup, hgenuine, fun slots hok => ?_, fun e he => ?_⟩
  · obtain ⟨hmany, rfl⟩ := collect_eq_ok_iff.1 hok
    rw [hcount, hslots, hfound]
    rw [hfound] at hmany
    have hslen : (fill t chunk (got tried ++ got searched)
        (List.replicate t.descriptor.numPieces none)).length = t.descriptor.numPieces := by
      rw [length_fill, List.length_replicate]
    refine ⟨hslen, Nat.le_antisymm hle hmany, fun i hi hempty => ?_, fun i b => ?_⟩
    · rw [getElem?_fill_of_not_mem, List.getElem?_replicate, if_pos (hslen ▸ hi)]
      intro hm
      obtain ⟨e, he, rfl⟩ := List.mem_map.1 hm
      exact horder.claimed_of_got he hempty
    · rw [getElem?_fill_iff t chunk horder.nodup hlt]
      refine exists_congr fun payload => and_congr_right fun hm => ?_
      obtain ⟨s, -, hg⟩ := hgenuine _ hm
      rw [Target.piece, ← hg.length, List.take_eq_take_min]
  · obtain ⟨hfew, rfl⟩ := collect_eq_error_iff.1 he
    rw [hfound, ← List.length_append] at hfew ⊢
    exact ⟨rfl, hfew⟩

/-! ## a small case -/

/-- the claimed copies of two bytes: of the first piece at a host that knows no contract and at one
that changes what it serves, of the second nowhere, and of the parity piece where it is -/
def scattered : Chunk :=
  ⟨[[⟨sectorRoot [7], HostKey.ofBytes [2]⟩, ⟨sectorRoot [7], HostKey.ofBytes [3]⟩], [],
    [⟨sectorRoot [8], HostKey.ofBytes [1]⟩]]⟩

def ofScattered : Target where
  descriptor :=
    { Health.fileOfByte [] with
      fileSize := 2, dataPieces := 2, parityPieces := 1, chunks := [scattered] }
  coder := ⟨.whole, 2, 1, Nat.two_pos, by decide⟩
  key := .plaintext

/-- these hosts, the first of them with both pieces -/
def scatteredHosts : Memory.Hosts :=
  (((Health.serverAndStale.putSector (HostKey.ofBytes [1]) (sectorRoot [8]) [8]).addHost
    (HostKey.ofBytes [3])).putSector (HostKey.ofBytes [3]) (sectorRoot [7]) [7]).setBehavior
      (HostKey.ofBytes [3]) .corrupt

/-- a run that has fetched the parity piece -/
def parityFetched : Run Memory.Hosts :=
  (fetch Memory.network Health.byteSettings (HostKey.ofBytes [1]) (sectorRoot [8])
    (Run.fresh scatteredHosts none)).2

/-- collecting the pieces after that -/
def collectScattered : Except RecoveryError Slots × Run Memory.Hosts :=
  collect Memory.network Health.byteSettings Orders.byTime ofScattered 0 scattered.slots
    parityFetched

theorem later_parityFetched :
    Later Memory.network Health.byteSettings (Run.fresh scatteredHosts none) parityFetched :=
  .single (.fetch ..)

theorem collectScattered_ok : ∃ slots, collectScattered.1 = .ok slots := by
  have hstatic := Memory.static Health.byteSettings scatteredHosts
  have hserves : HostKey.ofBytes [1] ∈ Memory.network.hosts scatteredHosts
      ∧ Memory.tells Health.byteSettings scatteredHosts (HostKey.ofBytes [1]) (sectorRoot [7])
        = .serves
      ∧ Memory.tells Health.byteSettings scatteredHosts (HostKey.ofBytes [1]) (sectorRoot [8])
        = .serves := by decide +kernel
  obtain ⟨hlisted, hfirst, hparity⟩ := hserves
  have hled : parityFetched.Led Memory.network scatteredHosts
      (Memory.tells Health.byteSettings scatteredHosts) :=
    (fetch_led hstatic (led_fresh ..) (.inr (by decide))).1
  have hsound := later_sound later_parityFetched
    (sound_fresh Health.byteSettings scatteredHosts none)
  refine collect_finds ofScattered 0 hstatic hled hsound Orders.byTime rfl
    (fun slot => !slot.isEmpty) (fun slot hslot hsome => ?_) rfl (by decide)
  rcases List.mem_cons.1 hslot with rfl | hslot
  · exact .inl ⟨_, rfl, HostKey.ofBytes [1], hlisted, hfirst⟩
  rcases List.mem_cons.1 hslot with rfl | hslot
  · cases hsome
  · rw [List.mem_singleton.1 hslot]
    exact .inr ⟨_, List.mem_singleton_self _, hlisted, hparity⟩

theorem tried_scattered {r' : Run Memory.Hosts} {tried searched : List (Nat × Option Bytes)}
    (h : InOrder Memory.network Health.byteSettings Orders.byTime scattered.slots 2 parityFetched r'
      tried searched) : tried = [(0, none), (2, some [8])] := by
  have hclaimed : claimedPieces scattered.slots = [0, 2] := by decide
  have hvain : (tryPiece Memory.network Health.byteSettings scattered.slots 0 parityFetched).1
      = none := by decide +kernel
  have hparity : (tryPiece Memory.network Health.byteSettings scattered.slots 2
      (tryPiece Memory.network Health.byteSettings scattered.slots 0 parityFetched).2).1
        = some [8] := by decide +kernel
  have hprefix := h.tried_prefix
  have hall := h.tried_all
  rw [hclaimed] at hprefix hall
  obtain ⟨between, hturns, -⟩ := h.calls
  cases hturns with
  | done => cases hall (by decide)
  | call _ piece rest =>
    obtain ⟨rfl, hafter⟩ := List.cons_prefix_cons.1 hprefix
    rw [hvain] at hall ⊢
    cases rest with
    | done => cases hall (by decide)
    | call _ piece rest =>
      obtain ⟨rfl, hlast⟩ := List.cons_prefix_cons.1 hafter
      rw [hparity]
      cases rest with
      | done => rfl
      | call => cases List.prefix_nil.1 hlast

/-- the first piece, of which the claimed copies give nothing, is searched for and found, and the
second, of which none is claimed, is left out -/
theorem collect_in_order_searched :
    Later Memory.network Health.byteSettings (Run.fresh scatteredHosts none) parityFetched
      ∧ ofScattered.descriptor.validate = .ok ()
      ∧ ofScattered.descriptor.chunks[0]? = some scattered
      ∧ ∃ searched payload,
          InOrder Memory.network Health.byteSettings Orders.byTime scattered.slots 2 parityFetched
              collectScattered.2 [(0, none), (2, some [8])] searched
            ∧ got searched = [(0, payload)]
            ∧ collectScattered.1 = .ok [some (payload.take 1), none, some [8]] := by
  have hvalid : ofScattered.descriptor.validate = .ok () := by decide +kernel
  obtain ⟨slots, hslots⟩ := collectScattered_ok
  obtain ⟨tried, searched, horder, -, -, hok, -⟩ := collect_in_order Memory.network
    Health.byteSettings Orders.byTime scatteredHosts none parityFetched later_parityFetched
    ofScattered hvalid 0 scattered rfl
  obtain rfl := tried_scattered horder
  obtain ⟨hlength, hcount, hnone, hfilled⟩ := hok slots hslots
  have hgot : got [((0 : Nat), none), (2, some [(8 : UInt8)])] = [(2, [8])] := rfl
  rw [hgot] at hfilled
  have hsecond := hnone 1 (hlength ▸ by decide) rfl
  have hthird := (hfilled 2 [8]).2 ⟨[8], List.mem_cons_self, rfl⟩
  obtain ⟨first, second, third, rfl⟩ := List.length_eq_three.1 hlength
  cases hsecond
  cases hthird
  have hmissed : searched.map Prod.fst <+: [0] := horder.searched_prefix
  rcases got_of_prefix_singleton hmissed with hnothing | ⟨payload, hsearched⟩
  · rw [hnothing, List.append_nil] at hfilled
    cases first with
    | none => exact absurd hcount (by decide)
    | some b =>
      obtain ⟨payload, hmem, -⟩ := (hfilled 0 b).1 rfl
      cases List.mem_singleton.1 hmem
  · have hfirst := (hfilled 0 (payload.take 1)).2
      ⟨payload, List.mem_append_right _ (hsearched ▸ List.mem_singleton_self _), rfl⟩
    cases hfirst
    exact ⟨later_parityFetched, hvalid, rfl, searched, payload, horder, hsearched, hslots⟩

end Reclaim.Recovery

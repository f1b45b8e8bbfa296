import Reclaim.Proofs.Cipher.Stream
import Reclaim.Proofs.Recovery.Static

/-!
# Which pieces a recovery comes by

The hosts always answer the same.  A piece is *available* if some host serves one of its claimed
copies.  The second pass searches for the first claimed copy only, so that not every available piece
is found; but it is if a host serves its first copy, or if a copy is served by the very host that is
said to keep it.

* `Collected.AtHand`      every piece found comes from a sector that is at hand;
* `collect_available`     the pieces of a chunk are no more than are available;
* `Findable`, `collect_finds`   there are enough of them if as many are findable;
* `recoverChunks_available`, `recoverChunks_finds`   the same of all chunks.
-/

namespace Reclaim

variable {σ : Type}

namespace Run

section
variable {n : Network σ} {c : Settings} {r : Run σ} {root : Hash256} {host : HostKey} {b : Bytes}

/-! ## what is found is at hand -/

theorem get?_remember (hc : r.cache.get? root = none) (b : Bytes) :
    (r.remember root b).cache.get? root = some b := by
  rw [remember, Cache.get?_insert, if_pos rfl, hc]
  rfl

theorem fetch_at_hand (hb : (fetch n c host root r).1 = .ok b) :
    (fetch n c host root r).2.cache.get? root = some b := by
  cases hc : r.cache.get? root with
  | some b' =>
    rw [fetch_cached n c r hc] at hb ⊢
    cases hb
    exact hc
  | none =>
    cases hd : (download n c host root r.wire).1 with
    | error e =>
      rw [fetch_error n c r hc hd] at hb
      cases hb
    | ok b' =>
      rw [fetch_ok n c r hc hd] at hb ⊢
      cases hb
      exact get?_remember (r := { r with wire := _, tally := _ }) hc b

theorem fetchAny_at_hand {refs : List SectorRef} (hb : (fetchAny n c refs r).1 = some b) :
    ∃ s ∈ refs, (fetchAny n c refs r).2.cache.get? s.root = some b := by
  induction refs generalizing r with
  | nil => cases hb
  | cons s rest ih =>
    have later : ∀ r', (fetchAny n c rest r').1 = some b →
        ∃ s' ∈ s :: rest, (fetchAny n c rest r').2.cache.get? s'.root = some b := by
      intro r' hb'
      obtain ⟨s', hs', hget⟩ := ih hb'
      exact ⟨s', List.mem_cons_of_mem _ hs', hget⟩
    by_cases hp : passes n r s = true
    · rw [fetchAny_pass n c r rest hp] at hb ⊢
      exact later r hb
    · cases hf : (fetch n c s.host s.root r).1 with
      | ok b' =>
        rw [fetchAny_ok n c r rest hp hf] at hb ⊢
        cases hb
        exact ⟨s, List.mem_cons_self, fetch_at_hand hf⟩
      | error e =>
        rw [fetchAny_error n c r rest hp hf] at hb ⊢
        exact later _ hb

theorem race_at_hand {orders : Orders} (hb : (race n c orders root r).1 = some b) :
    (race n c orders root r).2.cache.get? root = some b := by
  cases hc : r.cache.get? root with
  | some b' =>
    rw [race_cached n c orders r hc] at hb ⊢
    cases hb
    exact hc
  | none =>
    by_cases hh : n.hosts r.wire.net = []
    · rw [race_nobody n c orders r hc hh] at hb
      cases hb
    · cases hwin : (raced n c orders root r).2.winner with
      | none =>
        rw [race_lost n c orders r hc hh hwin] at hb
        cases hb
      | some b' =>
        rw [race_won n c orders r hc hh hwin] at hb ⊢
        cases hb
        refine get?_remember ?_ b
        rw [(afterRace_quiet n (fun _ => True) r _).1, hc]

theorem fetchAny_finds {net : σ} {tells : HostKey → Hash256 → Verdict} (h : n.Static c net tells)
    (hl : r.Led n net tells) {refs : List SectorRef}
    (hs : ∃ s ∈ refs, s.host ∈ n.hosts net ∧ tells s.host s.root = .serves) :
    ∃ b, (fetchAny n c refs r).1 = some b := by
  induction refs generalizing r with
  | nil =>
    obtain ⟨s, hm, -⟩ := hs
    exact absurd hm List.not_mem_nil
  | cons s rest ih =>
    obtain ⟨hled, hfound⟩ := claim_led h hl s
    rw [Recovery.fetchAny_cons]
    cases hf : (fetchAny n c [s] r).1 with
    | some b => exact ⟨b, rfl⟩
    | none =>
      refine ih hled ?_
      obtain ⟨s', hm, hs'⟩ := hs
      rcases List.mem_cons.1 hm with rfl | hm
      · obtain ⟨b, hb⟩ := hfound hs'
        rw [hf] at hb
        cases hb
      · exact ⟨s', hm, hs'⟩

end

end Run

namespace Recovery

/-! ## counting slots -/

theorem filled_le_countP (slots : Slots) (claims : List (List SectorRef))
    (p : List SectorRef → Bool) (hlen : slots.length = claims.length)
    (h : ∀ i b, slots[i]? = some (some b) → p (claims.getD i []) = true) :
    (slots.filterMap id).length ≤ claims.countP p := by
  induction slots generalizing claims with
  | nil => exact Nat.zero_le _
  | cons o slots ih =>
    cases claims with
    | nil => cases hlen
    | cons slot claims =>
      have hrest := ih claims (Nat.succ.inj hlen) fun i b hb => h (i + 1) b hb
      cases o with
      | none => exact hrest.trans (List.countP_cons .. ▸ Nat.le_add_right _ _)
      | some b =>
        have hp : p slot = true := h 0 b rfl
        rw [List.countP_cons, if_pos hp]
        exact Nat.succ_le_succ hrest

theorem countP_le_filled (slots : Slots) (claims : List (List SectorRef))
    (p : List SectorRef → Bool) (hlen : slots.length = claims.length)
    (h : ∀ i, p (claims.getD i []) = true → slots[i]? ≠ some none) :
    claims.countP p ≤ (slots.filterMap id).length := by
  induction slots generalizing claims with
  | nil =>
    cases claims with
    | nil => exact Nat.le_refl 0
    | cons slot claims => cases hlen
  | cons o slots ih =>
    cases claims with
    | nil => cases hlen
    | cons slot claims =>
      have hrest := ih claims (Nat.succ.inj hlen) fun i hi => h (i + 1) hi
      cases o with
      | none =>
        have hp : ¬p slot = true := fun hp => h 0 hp rfl
        rw [List.countP_cons, if_neg hp]
        exact hrest
      | some b =>
        rw [List.countP_cons]
        refine Nat.le_trans (Nat.add_le_add_left ?_ _) (Nat.add_le_add_right hrest 1)
        split
        · exact Nat.le_refl 1
        · exact Nat.zero_le 1

/-! ## the pieces of a chunk are at hand -/

section
variable {n : Network σ} {c : Settings} {net : σ} {tells : HostKey → Hash256 → Verdict}
  {t : Target} {chunk : Nat} {claims : List (List SectorRef)} {r r' : Run σ} {k : Collected}
  {orders : Run.Orders}

/-- every piece found comes from a sector at hand that one of its own claims names -/
def Collected.AtHand (t : Target) (chunk : Nat) (claims : List (List SectorRef)) (r : Run σ)
    (k : Collected) : Prop :=
  ∀ i b, k.slots[i]? = some (some b) →
    ∃ s ∈ claims.getD i [], ∃ sector, r.cache.get? s.root = some sector
      ∧ b = t.piece chunk i sector

theorem Collected.AtHand.moves (h : k.AtHand t chunk claims r) (hm : Run.Moves n c r r') :
    k.AtHand t chunk claims r' := by
  intro i b hb
  obtain ⟨s, hs, sector, hget, e⟩ := h i b hb
  exact ⟨s, hs, sector, (Run.later_keeps (Run.later_of_moves hm)).1 _ _ hget, e⟩

theorem Collected.AtHand.add (h : k.AtHand t chunk claims r) {piece : Nat} {sector : Bytes}
    (hs : ∃ s ∈ claims.getD piece [], r.cache.get? s.root = some sector) :
    (k.add piece (t.piece chunk piece sector)).AtHand t chunk claims r := by
  intro i b hb
  replace hb : (k.slots.set piece (some (t.piece chunk piece sector)))[i]? = some (some b) := hb
  by_cases hi : piece = i
  · obtain ⟨s, hs, hget⟩ := hs
    rw [List.getElem?_set, if_pos hi] at hb
    split at hb
    · cases hb
      exact ⟨s, hi ▸ hs, sector, hget, hi ▸ rfl⟩
    · cases hb
  · rw [List.getElem?_set_ne hi] at hb
    exact h i b hb

theorem atHand_none (t : Target) (chunk : Nat) (claims : List (List SectorRef)) (r : Run σ)
    (numPieces : Nat) : (Collected.none numPieces).AtHand t chunk claims r := by
  intro i b hb
  have := List.eq_of_mem_replicate (List.mem_of_getElem? hb)
  cases this

theorem tryClaims_atHand (rest : List (List SectorRef)) (piece : Nat)
    (hrest : claims.drop piece = rest) (hk : k.AtHand t chunk claims r) :
    (tryClaims n c t chunk piece rest k r).1.AtHand t chunk claims
      (tryClaims n c t chunk piece rest k r).2 := by
  induction rest generalizing piece k r with
  | nil => exact hk
  | cons slot rest ih =>
    obtain ⟨hslot, hdrop⟩ := getD_of_drop hrest
    rw [tryClaims]
    split
    · exact hk
    · split
      · exact ih (piece + 1) hdrop hk
      · have hmoved := hk.moves (fetchAny_moves n c slot r)
        dsimp only
        split
        · next sector hf =>
          obtain ⟨s, hs, hget⟩ := Run.fetchAny_at_hand hf
          exact ih (piece + 1) hdrop (hmoved.add ⟨s, hslot ▸ hs, hget⟩)
        · exact ih (piece + 1) hdrop hmoved

theorem search_atHand (pieces : List Nat) (hp : ∀ i ∈ pieces, claims.getD i [] ≠ [])
    (hk : k.AtHand t chunk claims r) :
    (search n c orders t chunk claims pieces k r).1.AtHand t chunk claims
      (search n c orders t chunk claims pieces k r).2 := by
  induction pieces generalizing k r with
  | nil => exact hk
  | cons piece rest ih =>
    have hp' : ∀ i ∈ rest, claims.getD i [] ≠ [] := fun i hi => hp i (List.mem_cons_of_mem _ hi)
    rw [search]
    split
    · exact hk
    · have hmoved := hk.moves (.single (.race (n := n) (c := c) r orders (searchRoot claims piece)))
      dsimp only
      split
      · next sector hf =>
        obtain ⟨s, hs, hroot⟩ := searchRoot_mem (hp piece List.mem_cons_self)
        exact ih hp' (hmoved.add ⟨s, hs, hroot ▸ Run.race_at_hand hf⟩)
      · exact ih hp' hmoved

theorem gathered_atHand (orders : Run.Orders) :
    (gathered n c orders t chunk claims r).1.AtHand t chunk claims
      (gathered n c orders t chunk claims r).2 := by
  have h1 := tryClaims_atHand (n := n) (c := c) claims 0 rfl
    (atHand_none t chunk claims r t.descriptor.numPieces)
  unfold gathered
  dsimp only
  split
  · exact search_atHand _ (missing_tryClaims n c t chunk claims 0 claims rfl (Collected.none _)
      (fun i hi => absurd hi List.not_mem_nil) r) h1
  · exact h1

/-- the pieces of a chunk that are found are no more than are available: `p` is true wherever a
claimed copy is -/
theorem collect_available (h : n.Static c net tells) (hl : r.Led n net tells) (hr : r.Sound c)
    (orders : Run.Orders) (hlen : claims.length = t.descriptor.numPieces)
    (p : List SectorRef → Bool)
    (hp : ∀ slot ∈ claims, (∃ s ∈ slot, n.Available net tells s.root) → p slot = true)
    {slots : Slots} (hok : (collect n c orders t chunk claims r).1 = .ok slots) :
    t.descriptor.minPieces ≤ claims.countP p := by
  have hled := Run.moves_led h hl (collect_moves n c orders t chunk claims r)
  have hhand : (gathered n c orders t chunk claims r).1.AtHand t chunk claims
      (gathered n c orders t chunk claims r).2 := gathered_atHand orders
  obtain ⟨-, henough, -⟩ := collect_rule orders t chunk (spares_all n c r.wire) hr hlen
  obtain ⟨hsl, hmin, -⟩ := henough slots hok
  rw [run_collect] at hled
  obtain ⟨-, rfl⟩ := collect_eq_ok_iff.1 hok
  refine hmin.trans (filled_le_countP _ claims p (hsl.trans hlen.symm) fun i b hb => ?_)
  obtain ⟨s, hs, sector, hget, -⟩ := hhand i b hb
  have hi : i < claims.length := by
    rw [hlen, ← hsl]
    exact (List.getElem?_eq_some_iff.1 hb).1
  refine hp _ ?_ ⟨s, hs, hled.cached _ _ hget⟩
  rw [List.getD_eq_getElem _ _ hi]
  exact List.getElem_mem hi

/-! ## what is sure to be found -/

/-- a piece that is sure to be found: a host serves its first claimed copy, or one of its copies is
served by the host that is said to keep it -/
def Findable (n : Network σ) (net : σ) (tells : HostKey → Hash256 → Verdict)
    (slot : List SectorRef) : Prop :=
  (∃ s ∈ slot.head?, n.Available net tells s.root)
    ∨ ∃ s ∈ slot, s.host ∈ n.hosts net ∧ tells s.host s.root = .serves

theorem open_of_open_add {piece i : Nat} {b : Bytes} (h : (k.add piece b).Open i) : k.Open i := by
  by_cases hi : i = piece
  · have h : (k.slots.set piece (some b))[i]? = some none := h
    rw [List.getElem?_set, if_pos hi.symm] at h
    split at h
    · cases h
    · cases h
  · exact (open_add hi).1 h

theorem not_open_added {piece : Nat} {b : Bytes} : ¬(k.add piece b).Open piece :=
  fun h => not_open_add (open_of_open_add h) h

theorem open_of_open_tryClaims {piece i : Nat} {rest : List (List SectorRef)}
    (h : (tryClaims n c t chunk piece rest k r).1.Open i) : k.Open i := by
  induction rest generalizing piece k r with
  | nil => exact h
  | cons slot rest ih =>
    rw [tryClaims] at h
    split at h
    · exact h
    · split at h
      · exact ih h
      · dsimp only at h
        split at h
        · exact open_of_open_add (ih h)
        · exact ih (k := k.miss piece) h

theorem open_of_open_search {i : Nat} {pieces : List Nat}
    (h : (search n c orders t chunk claims pieces k r).1.Open i) : k.Open i := by
  induction pieces generalizing k r with
  | nil => exact h
  | cons piece rest ih =>
    rw [search] at h
    split at h
    · exact h
    · dsimp only at h
      split at h
      · exact open_of_open_add (ih h)
      · exact ih h

variable (t chunk k) in
/-- the first pass finds all pieces that are sure to be fetched (`Q`) in runs of some kind (`I`), or
enough pieces -/
theorem tryClaims_finds (I : Run σ → Prop) (Q : List SectorRef → Prop) (hnil : ¬Q [])
    (hkeep : ∀ slot r, I r → I (Run.fetchAny n c slot r).2)
    (hfind : ∀ slot r, I r → Q slot → ∃ b, (Run.fetchAny n c slot r).1 = some b) (hI : I r)
    (rest : List (List SectorRef)) (piece : Nat) (hrest : claims.drop piece = rest) :
    t.descriptor.minPieces ≤ (tryClaims n c t chunk piece rest k r).1.found
      ∨ ∀ i, piece ≤ i → Q (claims.getD i []) →
          ¬(tryClaims n c t chunk piece rest k r).1.Open i := by
  induction rest generalizing piece k r with
  | nil =>
    refine .inr fun i hi hq => ?_
    rw [List.getD_eq_default _ _ ((List.drop_eq_nil_iff.1 hrest).trans hi)] at hq
    exact absurd hq hnil
  | cons slot rest ih =>
    obtain ⟨hslot, hdrop⟩ := getD_of_drop hrest
    rw [tryClaims]
    split
    · next hfull => exact .inl hfull
    · split
      · next hempty =>
        refine (ih k hI (piece + 1) hdrop).imp id fun hfound i hi hq => ?_
        refine hfound i (Nat.lt_of_le_of_ne hi ?_) hq
        rintro rfl
        rw [hslot, List.isEmpty_iff.1 hempty] at hq
        exact hnil hq
      · have hnext := hkeep slot r hI
        dsimp only
        split
        · refine (ih _ hnext (piece + 1) hdrop).imp id fun hfound i hi hq => ?_
          rcases Nat.lt_or_eq_of_le hi with hi | rfl
          · exact hfound i hi hq
          · exact fun ho => not_open_added (open_of_open_tryClaims ho)
        · next hf =>
          refine (ih (k.miss piece) hnext (piece + 1) hdrop).imp id fun hfound i hi hq => ?_
          refine hfound i (Nat.lt_of_le_of_ne hi ?_) hq
          rintro rfl
          obtain ⟨b, hb⟩ := hfind slot r hI (hslot ▸ hq)
          rw [hf] at hb
          cases hb

theorem search_finds (h : n.Static c net tells) (hl : r.Led n net tells) (orders : Run.Orders)
    (pieces : List Nat) :
    t.descriptor.minPieces ≤ (search n c orders t chunk claims pieces k r).1.found
      ∨ ∀ i ∈ pieces, n.Available net tells (searchRoot claims i) →
          ¬(search n c orders t chunk claims pieces k r).1.Open i := by
  induction pieces generalizing k r with
  | nil => exact .inr fun i hi => absurd hi List.not_mem_nil
  | cons piece rest ih =>
    obtain ⟨hled, hraced⟩ := Run.race_led h hl orders (searchRoot claims piece)
    rw [search]
    split
    · next hfull => exact .inl hfull
    · dsimp only
      split
      · refine (ih hled).imp id fun hfound i hi ha => ?_
        rcases List.mem_cons.1 hi with rfl | hi
        · exact fun ho => not_open_added (open_of_open_search ho)
        · exact hfound i hi ha
      · next hf =>
        refine (ih hled).imp id fun hfound i hi ha => ?_
        rcases List.mem_cons.1 hi with rfl | hi
        · obtain ⟨b, hb⟩ := hraced ha
          rw [hf] at hb
          cases hb
        · exact hfound i hi ha

theorem searchRoot_eq {i : Nat} {s : SectorRef} (h : s ∈ (claims.getD i []).head?) :
    searchRoot claims i = s.root := by
  unfold searchRoot
  cases e : claims.getD i [] with
  | nil =>
    rw [e] at h
    cases h
  | cons s' rest =>
    rw [e] at h
    cases h
    rfl

variable (t chunk) in
theorem gathered_finds (h : n.Static c net tells) (hl : r.Led n net tells) (hr : r.Sound c)
    (orders : Run.Orders) (hlen : claims.length = t.descriptor.numPieces) :
    t.descriptor.minPieces ≤ (gathered n c orders t chunk claims r).1.found
      ∨ ∀ i, Findable n net tells (claims.getD i []) →
          ¬(gathered n c orders t chunk claims r).1.Open i := by
  have hled := Run.moves_led h hl (tryClaims_moves n c t chunk 0 claims
    (Collected.none t.descriptor.numPieces) r)
  have hfirst := tryClaims_finds t chunk (Collected.none t.descriptor.numPieces)
    (fun r => r.Led n net tells)
    (fun slot => ∃ s ∈ slot, s.host ∈ n.hosts net ∧ tells s.host s.root = .serves)
    (fun ⟨_, hs, _⟩ => absurd hs List.not_mem_nil)
    (fun slot r hr => Run.moves_led h hr (fetchAny_moves n c slot r))
    (fun _ _ hr hs => Run.fetchAny_finds h hr hs) hl claims 0 rfl
  obtain ⟨-, -, htried⟩ := tryClaims_rule t chunk (spares_all n c r.wire) hr hlen claims 0 rfl _
    (sound_none c t chunk claims r.wire) (tried_none claims _)
  unfold gathered
  dsimp only
  split
  · next hfew =>
    have hfirst := hfirst.resolve_left (Nat.not_le.2 hfew)
    have htried := htried.resolve_left (Nat.not_le.2 hfew)
    refine (search_finds h hled orders _).imp id fun hfound i hi ho => ?_
    have hopen := open_of_open_search ho
    rcases hi with ⟨s, hs, ha⟩ | hown
    · have hne : claims.getD i [] ≠ [] := by
        intro e
        rw [e] at hs
        cases hs
      exact hfound i (htried.behind i (lt_of_claimed hne) hne hopen) (searchRoot_eq hs ▸ ha) ho
    · exact hfirst i (Nat.zero_le i) hown hopen
  · next hmany => exact .inl (Nat.le_of_not_lt hmany)

variable (t chunk) in
/-- a chunk has enough pieces if as many of them are findable -/
theorem collect_finds (h : n.Static c net tells) (hl : r.Led n net tells) (hr : r.Sound c)
    (orders : Run.Orders) (hlen : claims.length = t.descriptor.numPieces)
    (p : List SectorRef → Bool)
    (hp : ∀ slot ∈ claims, p slot = true → Findable n net tells slot) (hnil : p [] = false)
    (hmany : t.descriptor.minPieces ≤ claims.countP p) :
    ∃ slots, (collect n c orders t chunk claims r).1 = .ok slots := by
  obtain ⟨-, hsound, -⟩ := gathered_rule orders t chunk (spares_all n c r.wire) hr hlen
  have henough : t.descriptor.minPieces ≤ (gathered n c orders t chunk claims r).1.found := by
    rcases gathered_finds t chunk h hl hr orders hlen with hfull | hfound
    · exact hfull
    · rw [← hsound.count]
      have hslots := hsound.length.trans hlen.symm
      refine hmany.trans (countP_le_filled _ claims p hslots fun i hi => ?_)
      refine hfound i (hp _ ?_ hi)
      by_cases hlt : i < claims.length
      · rw [List.getD_eq_getElem _ _ hlt]
        exact List.getElem_mem hlt
      · rw [List.getD_eq_default _ _ (Nat.le_of_not_lt hlt), hnil] at hi
        cases hi
  exact ⟨_, collect_eq_ok_iff.2 ⟨henough, rfl⟩⟩

/-! ## all chunks -/

/-- if all chunks are recovered, then enough pieces of each are available -/
theorem recoverChunks_available (h : n.Static c net tells) (orders : Run.Orders) (ks : List Chunk)
    (hlen : ∀ k ∈ ks, k.slots.length = t.descriptor.numPieces) (p : List SectorRef → Bool)
    (hp : ∀ k ∈ ks, ∀ slot ∈ k.slots, (∃ s ∈ slot, n.Available net tells s.root) → p slot = true)
    (written : UInt64) (sink : Sink) (r : Run σ) (hl : r.Led n net tells) (hr : r.Sound c)
    {count : UInt64}
    (hok : (recoverChunks n c orders t chunk written ks sink r).result = .ok count) :
    ∀ k ∈ ks, t.descriptor.minPieces ≤ k.slots.countP p := by
  induction ks generalizing chunk written sink r with
  | nil => exact fun k hk => absurd hk List.not_mem_nil
  | cons k rest ih =>
    have hled := Run.moves_led h hl (collect_moves n c orders t chunk k.slots r)
    obtain ⟨hlead, -, -⟩ := collect_rule orders t chunk (spares_all n c r.wire) hr
      (hlen k List.mem_cons_self)
    cases hc : (collect n c orders t chunk k.slots r).1 with
    | error e =>
      rw [recoverChunks_stop n c orders t chunk written rest sink r hc] at hok
      cases hok
    | ok slots =>
      cases hd : (t.coder.recover slots (t.descriptor.chunkLen chunk) sink).result with
      | error e =>
        rw [recoverChunks_fail n c orders t chunk written rest sink r hc hd] at hok
        cases hok
      | ok _ =>
        rw [recoverChunks_go n c orders t chunk written rest sink r hc hd] at hok
        refine List.forall_mem_cons.2 ⟨?_, ?_⟩
        · exact collect_available h hl hr orders (hlen k List.mem_cons_self) p
            (hp k List.mem_cons_self) hc
        · exact ih (fun k' hk' => hlen k' (List.mem_cons_of_mem _ hk'))
            (fun k' hk' => hp k' (List.mem_cons_of_mem _ hk')) _ _ (chunkDone t chunk _)
            (hled.on .refl rfl) (hlead.sound hr) hok

theorem length_collected (hr : r.Sound c) (hlen : claims.length = t.descriptor.numPieces)
    {slots : Slots} (hc : (collect n c orders t chunk claims r).1 = .ok slots) :
    ∀ b ∈ slots.filterMap id, b.length = min t.width c.sectorSize := by
  obtain ⟨-, henough, -⟩ := collect_rule orders t chunk (spares_all n c r.wire) hr hlen
  obtain ⟨-, -, hclaimed⟩ := henough slots hc
  intro b hb
  obtain ⟨o, ho, rfl⟩ := List.mem_filterMap.1 hb
  obtain ⟨i, hi⟩ := List.mem_iff_getElem?.1 ho
  obtain ⟨s, -, sector, hg, rfl⟩ := hclaimed i b hi
  rw [Target.piece, PieceKey.length_crypt, List.length_take, hg.length]
  rfl

theorem decode_collected (ht : t.Wellformed) (hsize : t.width ≤ c.sectorSize) (hr : r.Sound c)
    (hlen : claims.length = t.descriptor.numPieces) {slots : Slots}
    (hc : (collect n c orders t chunk claims r).1 = .ok slots) (sink : Sink)
    (hroom : sink.room = none) :
    (t.coder.recover slots (t.descriptor.chunkLen chunk) sink).result = .ok ()
      ∧ (t.coder.recover slots (t.descriptor.chunkLen chunk) sink).sink.room = none := by
  obtain ⟨-, henough, -⟩ := collect_rule orders t chunk (spares_all n c r.wire) hr hlen
  obtain ⟨hsl, hmin, -⟩ := henough slots hc
  have hfull := length_collected hr hlen hc
  rw [Nat.min_eq_left hsize] at hfull
  exact Coder.recover_ok ht.fits (hsl.trans ht.pieces.symm) (ht.data ▸ hmin) hfull
    (ht.chunkLen_le chunk) sink hroom

variable (chunk) in
/-- if enough pieces of every chunk are findable, then all chunks are recovered, whatever is in the
sectors -/
theorem recoverChunks_finds (h : n.Static c net tells) (ht : t.Wellformed)
    (hsize : t.width ≤ c.sectorSize) (orders : Run.Orders) (ks : List Chunk)
    (hlen : ∀ k ∈ ks, k.slots.length = t.descriptor.numPieces) (p : List SectorRef → Bool)
    (hp : ∀ k ∈ ks, ∀ slot ∈ k.slots, p slot = true → Findable n net tells slot)
    (hnil : p [] = false) (hmany : ∀ k ∈ ks, t.descriptor.minPieces ≤ k.slots.countP p)
    (written : UInt64) (sink : Sink) (hroom : sink.room = none) (r : Run σ)
    (hl : r.Led n net tells) (hr : r.Sound c) :
    ∃ count, (recoverChunks n c orders t chunk written ks sink r).result = .ok count := by
  induction ks generalizing chunk written sink r with
  | nil => exact ⟨written, rfl⟩
  | cons k rest ih =>
    have hled := Run.moves_led h hl (collect_moves n c orders t chunk k.slots r)
    have hk := hlen k List.mem_cons_self
    obtain ⟨hlead, -, -⟩ := collect_rule orders t chunk (spares_all n c r.wire) hr hk
    obtain ⟨slots, hc⟩ := collect_finds t chunk h hl hr orders hk p (hp k List.mem_cons_self) hnil
      (hmany k List.mem_cons_self)
    obtain ⟨hd, hroom'⟩ := decode_collected ht hsize hr hk hc sink hroom
    rw [recoverChunks_go n c orders t chunk written rest sink r hc hd]
    exact ih _ (fun k' hk' => hlen k' (List.mem_cons_of_mem _ hk'))
      (fun k' hk' => hp k' (List.mem_cons_of_mem _ hk'))
      (fun k' hk' => hmany k' (List.mem_cons_of_mem _ hk')) _ _ hroom' _ (hled.on .refl rfl)
      (hlead.sound hr)

end

end Recovery

end Reclaim

import Reclaim.Proofs.Erasure.Acceptable

/-!
# When a recovery fails, and what it leaves

Pieces are refused for the first of several reasons, before anything is written; once output has
begun, only the sink can fail.

* `First`                 the first of several conditions that holds;
* `faults`                what may be wrong with pieces, in the order in which it is looked for;
* `recover_refused`, `acceptable_of_faultless`   pieces with a fault, and pieces without;
* `recover_fails_cleanly`     all failures, and what each of them leaves behind.
-/

namespace Reclaim

open Erasure

/-! ## precedence -/

/-- the first condition that holds is the one that goes with `e` -/
def First : List (Prop × ErasureError) → ErasureError → Prop
  | [], _ => False
  | (p, e') :: rest, e => p ∧ e = e' ∨ ¬p ∧ First rest e

theorem First.unique {l : List (Prop × ErasureError)} {e e' : ErasureError} (h : First l e)
    (h' : First l e') : e = e' := by
  induction l with
  | nil => exact h.elim
  | cons f rest ih =>
    rcases h with ⟨hp, rfl⟩ | ⟨hp, h⟩
    · rcases h' with ⟨-, rfl⟩ | ⟨hp', -⟩
      · rfl
      · exact absurd hp hp'
    · rcases h' with ⟨hp', -⟩ | ⟨-, h'⟩
      · exact absurd hp' hp
      · exact ih h h'

theorem exists_first_or (l : List (Prop × ErasureError)) :
    (∃ e, First l e) ∨ ∀ f ∈ l, ¬f.1 := by
  induction l with
  | nil => exact .inr fun f hf => absurd hf List.not_mem_nil
  | cons f rest ih =>
    by_cases hp : f.1
    · exact .inl ⟨f.2, .inl ⟨hp, rfl⟩⟩
    · rcases ih with ⟨e, h⟩ | h
      · exact .inl ⟨e, .inr ⟨hp, h⟩⟩
      · refine .inr fun g hg => ?_
        rcases List.mem_cons.1 hg with rfl | hg
        · exact hp
        · exact h g hg

theorem First.mem {l : List (Prop × ErasureError)} {e : ErasureError} (h : First l e) :
    ∃ f ∈ l, f.1 ∧ f.2 = e := by
  induction l with
  | nil => exact h.elim
  | cons f rest ih =>
    rcases h with ⟨hp, rfl⟩ | ⟨-, h⟩
    · exact ⟨f, List.mem_cons_self, hp, rfl⟩
    · obtain ⟨g, hg, h⟩ := ih h
      exact ⟨g, List.mem_cons_of_mem _ hg, h⟩

theorem not_first {l : List (Prop × ErasureError)} (h : ∀ f ∈ l, ¬f.1) (e : ErasureError) :
    ¬First l e := by
  intro hfirst
  obtain ⟨f, hf, hp, -⟩ := hfirst.mem
  exact h f hf hp

theorem first_append_iff {l l' : List (Prop × ErasureError)} {e : ErasureError} :
    First (l ++ l') e ↔ First l e ∨ (∀ f ∈ l, ¬f.1) ∧ First l' e := by
  induction l with
  | nil => simp [First]
  | cons f rest ih =>
    rw [List.cons_append, First, First, ih, List.forall_mem_cons]
    by_cases hp : f.1 <;> simp [hp]

namespace Coder

/-! ## pieces with a fault -/

/-- what may be wrong with pieces, in the order in which it is looked for -/
def faults (c : Coder) (slots : Slots) (n : Nat) : List (Prop × ErasureError) :=
  let pieces := slots.filterMap id
  let width := pieceLength slots
  [(slots.length ≠ c.data + c.parity, .wrongPieceCount (c.data + c.parity) slots.length),
    (pieces.length < c.data, .tooFewPieces pieces.length c.data),
    (∃ a ∈ pieces, ∃ b ∈ pieces, a.length ≠ b.length, .inconsistentLength),
    (width * c.data < n, .outputTooLarge n (width * c.data)),
    (c.kind = .striped ∧ width % stripeWidth ≠ 0, .misalignedLength width),
    (c.kind = .whole ∧ width = 0 ∧ none ∈ slots.take c.data ∧ 0 < c.parity, .emptyShard)]

theorem ne_sinkFull_of_first {c : Coder} {slots : Slots} {n : Nat} {e : ErasureError}
    (h : First (c.faults slots n) e) : e ≠ .sinkFull := by
  obtain ⟨f, hf, -, rfl⟩ := h.mem
  simp only [faults, List.mem_cons, List.not_mem_nil, or_false] at hf
  rcases hf with rfl | rfl | rfl | rfl | rfl | rfl
  all_goals
    intro h
    cases h

theorem exists_length_ne_iff (slots : Slots) :
    (∃ a ∈ slots.filterMap id, ∃ b ∈ slots.filterMap id, a.length ≠ b.length)
      ↔ ((slots.filterMap id).any fun b => b.length != pieceLength slots) = true := by
  rw [List.any_eq_true]
  constructor
  · rintro ⟨a, ha, b, hb, hne⟩
    by_cases h : a.length = pieceLength slots
    · refine ⟨b, hb, bne_iff_ne.2 fun hb => ?_⟩
      exact hne (h.trans hb.symm)
    · exact ⟨a, ha, bne_iff_ne.2 h⟩
  · rintro ⟨b, hb, hne⟩
    unfold pieceLength at hne
    cases hp : slots.filterMap id with
    | nil =>
      rw [hp] at hb
      exact absurd hb List.not_mem_nil
    | cons a rest =>
      rw [hp] at hb hne
      exact ⟨b, hb, a, List.mem_cons_self, bne_iff_ne.1 hne⟩

/-- pieces with a fault are refused for the first one, and nothing is touched -/
theorem recover_refused {c : Coder} {slots : Slots} {n : Nat} {e : ErasureError}
    (h : First (c.faults slots n) e) (sink : Sink) :
    c.recover slots n sink = ⟨.error e, slots, sink⟩ := by
  unfold recover
  rcases h with ⟨hc, rfl⟩ | ⟨hcount, h⟩
  · exact if_pos hc
  refine (if_neg hcount).trans ?_
  rcases h with ⟨hfew, rfl⟩ | ⟨henough, h⟩
  · exact if_pos hfew
  refine (if_neg henough).trans ?_
  rcases h with ⟨huneven, rfl⟩ | ⟨heven, h⟩
  · exact if_pos ((exists_length_ne_iff slots).1 huneven)
  refine (if_neg (mt (exists_length_ne_iff slots).2 heven)).trans ?_
  rcases h with ⟨hlarge, rfl⟩ | ⟨hfits, h⟩
  · exact if_pos hlarge
  refine (if_neg hfits).trans ?_
  rcases h with ⟨⟨hkind, hmis⟩, rfl⟩ | ⟨-, h⟩
  · rw [hkind]
    exact if_pos hmis
  rcases h with ⟨⟨hkind, hzero, hgap, -⟩, rfl⟩ | ⟨-, h⟩
  · rw [hkind]
    dsimp only
    rw [recoverWhole]
    simp only [hasGap_eq_true_iff.2 hgap, hzero, if_true]
  · exact h.elim

theorem acceptable_of_faultless {c : Coder} {slots : Slots} {n : Nat}
    (h : ∀ f ∈ c.faults slots n, ¬f.1) : c.Acceptable slots n := by
  simp only [faults, List.forall_mem_cons] at h
  obtain ⟨hcount, hfew, huneven, hlarge, hmis, hempty, -⟩ := h
  have hcount := not_not.1 hcount
  have henough := Nat.not_lt.1 hfew
  refine ⟨hcount, henough, fun b hb => ?_, Nat.not_lt.1 hlarge, fun hkind => ?_,
    fun hkind ⟨hgap, hzero⟩ => ?_⟩
  · by_contra hne
    exact huneven ((exists_length_ne_iff slots).2 (List.any_eq_true.2 ⟨b, hb, bne_iff_ne.2 hne⟩))
  · by_contra hne
    exact hmis ⟨hkind, hne⟩
  · exact hempty ⟨hkind, hzero, hasGap_eq_true_iff.1 hgap, parity_pos_of_hasGap henough hcount hgap⟩

theorem acceptable_of_recover_ok {c : Coder} {slots : Slots} {n : Nat} {sink : Sink}
    (hok : (c.recover slots n sink).result = .ok ()) : c.Acceptable slots n := by
  rcases exists_first_or (c.faults slots n) with ⟨e, hfirst⟩ | hnone
  · rw [recover_refused hfirst] at hok
    cases hok
  · exact acceptable_of_faultless hnone

/-! ## slots -/

/-- missing data pieces are filled in, with what the pieces decode to; the pieces that were there
and the places of missing parity pieces stay as they were -/
structure FillsIn (c : Coder) (slots after : Slots) (decoded : List Bytes) : Prop where
  count : decoded.length = c.data
  length : ∀ b ∈ decoded, b.length = pieceLength slots
  all : ∀ sink : Sink, sink.room = none →
    (c.recover slots (pieceLength slots * c.data) sink).result = .ok ()
      ∧ (c.recover slots (pieceLength slots * c.data) sink).sink.bytes
          = sink.bytes ++ decoded.flatten
  data : after.take c.data = decoded.map some
  kept : ∀ (i : Nat) (b : Bytes), slots[i]? = some (some b) → after[i]? = some (some b)
  parity : ∀ i : Nat, c.data ≤ i → after[i]? = slots[i]?

theorem Acceptable.fillsIn {c : Coder} {slots : Slots} {n : Nat} (h : c.Acceptable slots n)
    (hkind : c.kind = .whole) : c.FillsIn slots (c.afterwards slots) (c.dataPieces slots) := by
  have hlen : ((c.dataPieces slots).map some).length = c.data := by
    rw [List.length_map, length_dataPieces h.enough]
  have hparity : ∀ i : Nat, c.data ≤ i → (c.filled slots)[i]? = slots[i]? := by
    intro i hi
    rw [filled, List.getElem?_append_right (by omega), hlen, List.getElem?_drop,
      Nat.add_sub_cancel' hi]
  have hafter : c.afterwards slots = c.filled slots := by simp only [afterwards, hkind]
  have hdecoded : c.decoded slots = (c.dataPieces slots).flatten := by simp only [decoded, hkind]
  have hpieces := length_of_mem_dataPieces h.enough h.even
  rw [hafter]
  refine ⟨length_dataPieces h.enough, hpieces, fun sink hroom => ?_, take_filled h.enough,
    fun i b hb => ?_, hparity⟩
  · have hacc : c.Acceptable slots (pieceLength slots * c.data) :=
      ⟨h.count, h.enough, h.even, Nat.le_refl _, h.aligned, h.mendable⟩
    obtain ⟨hok, hbytes⟩ := hacc.recover_fits (Sink.not_lacks hroom _)
    refine ⟨hok, hbytes.trans ?_⟩
    rw [hdecoded, List.take_of_length_le]
    rw [length_flatten_of_forall hpieces, length_dataPieces h.enough, Nat.mul_comm]
  · rcases Nat.lt_or_ge i c.data with hi | hi
    · have hp : (c.dataPieces slots)[i]? = some b := getElem?_repair_of_some hi hb
      rw [filled, List.getElem?_append_left (by omega), List.getElem?_map, hp]
      rfl
    · rw [hparity i hi, hb]

/-! ## all failures -/

/-- a recovery fails for the first of the reasons that there are, which are faults of the pieces and
then the sink, and for no other; unless it is the sink that fails, nothing is touched; what is
written is what a sink without bounds would get, to the last whole block there is room for; the
slots of striped pieces never change, and those of whole pieces are filled in -/
theorem recover_fails_cleanly (c : Coder) (slots : Slots) (n : Nat) (sink : Sink) :
    (∀ e, (c.recover slots n sink).result = .error e
        ↔ First (c.faults slots n ++ [(sink.Lacks n, .sinkFull)]) e)
      ∧ (∀ e, (c.recover slots n sink).result = .error e → e ≠ .sinkFull →
          c.recover slots n sink = ⟨.error e, slots, sink⟩)
      ∧ ((c.recover slots n sink).result = .ok ()
            ∨ (c.recover slots n sink).result = .error .sinkFull →
          ∃ out : Bytes, out.length = n
            ∧ (∀ unbounded : Sink, unbounded.room = none →
                (c.recover slots n unbounded).result = .ok ()
                  ∧ (c.recover slots n unbounded).sink.bytes = unbounded.bytes ++ out)
            ∧ ((c.recover slots n sink).result = .ok () →
                (c.recover slots n sink).sink.bytes = sink.bytes ++ out)
            ∧ (∀ r, sink.room = some r → (c.recover slots n sink).result = .error .sinkFull →
                (c.recover slots n sink).sink.bytes
                  = sink.bytes ++ out.take (r / c.blockSize slots * c.blockSize slots))
            ∧ (c.kind = .striped → ∀ size, size ≠ 0 → c.recoverBatches size slots n sink
                = (.ok (c.recover slots n sink).result.isOk, (c.recover slots n sink).sink))
            ∧ (c.kind = .whole →
                ∃ pieces, c.FillsIn slots (c.recover slots n sink).slots pieces))
      ∧ (c.kind = .striped → (c.recover slots n sink).slots = slots) := by
  rcases exists_first_or (c.faults slots n) with ⟨e', hfirst⟩ | hnone
  · have hrefused := recover_refused hfirst sink
    have hne := ne_sinkFull_of_first hfirst
    rw [hrefused]
    refine ⟨fun e => ?_, fun e he _ => ?_, fun h => ?_, fun _ => rfl⟩
    · rw [first_append_iff]
      constructor
      · rintro ⟨⟩
        exact .inl hfirst
      · rintro (h | ⟨h, -⟩)
        · rw [h.unique hfirst]
        · exact absurd hfirst (not_first h e')
    · cases he
      rfl
    · rcases h with h | h
      · cases h
      · cases h
        exact absurd rfl hne
  · have hacc := acceptable_of_faultless hnone
    have hfail : ∀ e, (c.recover slots n sink).result = .error e
        ↔ sink.Lacks n ∧ e = .sinkFull := fun e => hacc.recover_error_iff
    refine ⟨fun e => ?_, fun e he hne => absurd ((hfail e).1 he).2 hne, fun _ => ?_, fun hkind => ?_⟩
    · rw [hfail, first_append_iff]
      constructor
      · intro h
        exact .inr ⟨hnone, .inl h⟩
      · rintro (h | ⟨-, h⟩)
        · exact absurd h (not_first hnone e)
        · rcases h with h | ⟨-, h⟩
          · exact h
          · exact h.elim
    · refine ⟨(c.decoded slots).take n, hacc.length_take_decoded, fun s hs => ?_, fun hok => ?_,
        fun r hr he => ?_, fun hkind size hsize => hacc.recoverBatches_eq hkind hsize sink,
        fun hkind => ⟨c.dataPieces slots, ?_⟩⟩
      · exact hacc.recover_fits (Sink.not_lacks hs n)
      · refine (hacc.recover_fits fun hlacks => ?_).2
        rw [(hfail .sinkFull).2 ⟨hlacks, rfl⟩] at hok
        cases hok
      · obtain ⟨⟨r', hr', hlt⟩, -⟩ := (hfail .sinkFull).1 he
        rw [hr, Option.some_inj] at hr'
        exact (hacc.recover_lacks hr (hr' ▸ hlt)).2
      · rw [hacc.recover_slots]
        exact hacc.fillsIn hkind
    · rw [hacc.recover_slots]
      simp only [afterwards, hkind]

theorem recover_fails_cleanly_midway :
    let c : Coder := ⟨.striped, 1, 1, by decide, by decide⟩
    let slots : Slots := [none, some (List.replicate 128 7)]
    let sink := Sink.ofLimit (some 70)
    (c.recover slots 100 sink).result = .error .sinkFull
      ∧ (c.recover slots 100 sink).slots = slots
      ∧ ∃ out : Bytes, out.length = 100 ∧ (c.recover slots 100 sink).sink.bytes = out.take 64 := by
  intro c slots sink
  obtain ⟨-, -, hwritten, hslots⟩ := recover_fails_cleanly c slots 100 sink
  have hlen : ∀ b ∈ slots.filterMap id, b.length = 128 := by
    intro b hb
    rw [List.mem_singleton.1 hb, List.length_replicate]
  have hacc : c.Acceptable slots 100 := acceptable_of_length rfl (by decide) hlen (by decide)
    (fun _ => by decide) (fun h => by cases h)
  have hfull : (c.recover slots 100 sink).result = .error .sinkFull :=
    hacc.recover_error_iff.2 ⟨⟨70, rfl, by decide⟩, rfl⟩
  obtain ⟨out, hout, -, -, hcut, -⟩ := hwritten (.inr hfull)
  refine ⟨hfull, hslots rfl, out, hout, (hcut 70 rfl hfull).trans ?_⟩
  have hblock : c.blockSize slots = 64 := rfl
  rw [hblock]
  rfl

end Coder

end Reclaim

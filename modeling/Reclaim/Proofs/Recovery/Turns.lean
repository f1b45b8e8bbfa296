import Reclaim.Proofs.Recovery.Moments

/-!
# Calls in turn, until there is enough

* `Wire.searches`     the searches of all hosts on record;
* `fetchAny_searches`, `race_searches`   trying claimed copies begins none, and a search begins one
                      at most;
* `Run.Turns`         calls for pieces one after the other, and what each of them gave;
* `got`, `missed`     the pieces for which a sector was got, and those for which none was;
* `sweep`             calls in turn until there is enough; `sweep_turns`, `sweep_prefix`,
                      `sweep_hungry`, `sweep_le`, `sweep_over` say what they are.
-/

namespace Reclaim

variable {σ : Type}

/-! ## searches on record -/

/-- the root for which a search was begun -/
def Event.search? : Event → Option Hash256
  | .raced root => some root
  | _ => none

/-- an event other than the begin of a search -/
def Event.Quiet (e : Event) : Prop := e.search? = none

namespace Wire

/-- what hosts were searched for, in the order in which the searches were begun -/
def searches (w : Wire σ) : List Hash256 := w.events.filterMap Event.search?

section
variable {w w' : Wire σ}

theorem searches_of_records (h : Records Event.Quiet w w') : w'.searches = w.searches := by
  obtain ⟨later, he, hq⟩ := h
  have hnone : later.filterMap Event.search? = [] := List.filterMap_eq_nil_iff.2 hq
  rw [searches, he, List.filterMap_append, hnone, List.append_nil, searches]

theorem records_failed (host : HostKey) (root : Hash256) (e : SectorError) :
    Records Event.Quiet w (w.note (.failed host root e)) := records_event rfl rfl

theorem records_prune (n : Network σ) (host : HostKey) :
    Records Event.Quiet w (w.prune n host).2 := by
  unfold prune
  split
  · exact .refl
  · exact records_event rfl rfl

end

end Wire

theorem Event.Follows.quiet {host : HostKey} {e : Event} (h : e.Follows host) : e.Quiet := by
  cases h <;> rfl

theorem Event.Exchanged.quiet {host : HostKey} {root : Hash256} {e : Event}
    (h : e.Exchanged host root) : e.Quiet := by
  rcases h with rfl | h
  · rfl
  · exact h.quiet

namespace Run

section
variable (n : Network σ) (c : Settings)

theorem fetch_quiet (host : HostKey) (root : Hash256) (r : Run σ) :
    Wire.Records Event.Quiet r.wire (fetch n c host root r).2.wire := by
  cases hc : r.cache.get? root with
  | some b =>
    rw [fetch_cached n c r hc]
    exact .refl
  | none =>
    have hr := (download_records n c host root r.wire).2.mono fun _ he => he.quiet
    cases hd : (download n c host root r.wire).1 with
    | ok b =>
      rw [fetch_ok n c r hc hd]
      exact hr
    | error e =>
      rw [fetch_error n c r hc hd]
      exact hr

theorem blame_quiet (s : SectorRef) (e : SectorError) (r : Run σ) :
    Wire.Records Event.Quiet r.wire (blame n s e r).wire := by
  have hfailed := Wire.records_failed (w := r.wire) s.host s.root e
  unfold blame
  split
  · exact hfailed.trans (Wire.records_prune n s.host)
  · exact hfailed

theorem fetchAny_quiet (refs : List SectorRef) (r : Run σ) :
    Wire.Records Event.Quiet r.wire (fetchAny n c refs r).2.wire := by
  induction refs generalizing r with
  | nil => exact .refl
  | cons s rest ih =>
    by_cases hp : passes n r s = true
    · rw [fetchAny_pass n c r rest hp]
      exact ih r
    · have hf := fetch_quiet n c s.host s.root r
      cases hr : (fetch n c s.host s.root r).1 with
      | ok b =>
        rw [fetchAny_ok n c r rest hp hr]
        exact hf
      | error e =>
        rw [fetchAny_error n c r rest hp hr]
        exact (hf.trans (blame_quiet n s e _)).trans (ih _)

/-- no search is begun while claimed copies are tried -/
theorem fetchAny_searches (refs : List SectorRef) (r : Run σ) :
    (fetchAny n c refs r).2.wire.searches = r.wire.searches :=
  Wire.searches_of_records (fetchAny_quiet n c refs r)

theorem raced_quiet (orders : Orders) (root : Hash256) (r : Run σ) :
    Wire.Records Event.Quiet (r.wire.note (.raced root)) (raced n c orders root r).2.wire :=
  raced_records n c orders root r (fun _ _ he => he.quiet) fun _ _ => rfl

theorem pruneAll_quiet (hosts : List HostKey) (r : Run σ) :
    Wire.Records Event.Quiet r.wire (hosts.foldl (fun r host => prune n host r) r).wire := by
  induction hosts generalizing r with
  | nil => exact .refl
  | cons host rest ih => exact (Wire.records_prune n host).trans (ih (prune n host r))

/-- one search is begun, unless the sector is at hand or nobody is there to be asked -/
theorem race_searches (orders : Orders) (root : Hash256) (r : Run σ) :
    ∃ begun : List Hash256, begun.Sublist [root]
      ∧ (race n c orders root r).2.wire.searches = r.wire.searches ++ begun := by
  cases hc : r.cache.get? root with
  | some b =>
    rw [race_cached n c orders r hc]
    exact ⟨[], List.nil_sublist _, (List.append_nil _).symm⟩
  | none =>
    by_cases hh : n.hosts r.wire.net = []
    · rw [race_nobody n c orders r hc hh]
      exact ⟨[], List.nil_sublist _, (List.append_nil _).symm⟩
    · have hsearches : (afterRace n r (raced n c orders root r).2).wire.searches
          = r.wire.searches ++ [root] := by
        rw [Wire.searches_of_records ((raced_quiet n c orders root r).trans (pruneAll_quiet n ..)),
          Wire.searches, Wire.events, Wire.note, List.reverse_cons, List.filterMap_append]
        rfl
      refine ⟨[root], List.Sublist.refl _, ?_⟩
      cases hwin : (raced n c orders root r).2.winner with
      | none =>
        rw [race_lost n c orders r hc hh hwin]
        exact hsearches
      | some b =>
        rw [race_won n c orders r hc hh hwin]
        exact hsearches

end

/-! ## calls in turn -/

/-- a call for the sector of one piece -/
abbrev Call (σ : Type) := Nat → Run σ → Option Bytes × Run σ

/-- calls for pieces, one after the other, and what each of them gave -/
inductive Turns (call : Call σ) : Run σ → List (Nat × Option Bytes) → Run σ → Prop
  | done (r : Run σ) : Turns call r [] r
  | call (r : Run σ) (piece : Nat) {l : List (Nat × Option Bytes)} {r' : Run σ}
      (rest : Turns call (call piece r).2 l r') : Turns call r ((piece, (call piece r).1) :: l) r'

/-- the sectors that were got, each with the number of its piece -/
def got (l : List (Nat × Option Bytes)) : List (Nat × Bytes) :=
  l.filterMap fun a => a.2.map fun b => (a.1, b)

/-- the pieces for which no sector was got -/
def missed (l : List (Nat × Option Bytes)) : List Nat :=
  (l.filter fun a => a.2.isNone).map Prod.fst

section
variable {l : List (Nat × Option Bytes)} {piece : Nat} {b : Bytes}

@[simp] theorem got_cons_some : got ((piece, some b) :: l) = (piece, b) :: got l := rfl

@[simp] theorem got_cons_none : got ((piece, none) :: l) = got l := rfl

@[simp] theorem missed_nil : missed [] = [] := rfl

@[simp] theorem missed_cons_some : missed ((piece, some b) :: l) = missed l := rfl

@[simp] theorem missed_cons_none : missed ((piece, none) :: l) = piece :: missed l := rfl

theorem got_perm_missed (l : List (Nat × Option Bytes)) :
    ((got l).map Prod.fst ++ missed l).Perm (l.map Prod.fst) := by
  induction l with
  | nil => exact .nil
  | cons a l ih =>
    obtain ⟨piece, found⟩ := a
    cases found with
    | some b => exact .cons piece ih
    | none => exact List.perm_middle.trans (.cons piece ih)

theorem got_sublist (l : List (Nat × Option Bytes)) :
    ((got l).map Prod.fst).Sublist (l.map Prod.fst) := by
  induction l with
  | nil => exact .slnil
  | cons a l ih =>
    obtain ⟨piece, found⟩ := a
    cases found with
    | some b => exact ih.cons_cons piece
    | none => exact ih.cons piece

theorem got_of_prefix_singleton {l : List (Nat × Option Bytes)} {i : Nat}
    (h : l.map Prod.fst <+: [i]) : got l = [] ∨ ∃ b, got l = [(i, b)] := by
  cases l with
  | nil => exact .inl rfl
  | cons a l =>
    obtain ⟨j, found⟩ := a
    obtain ⟨rfl, hrest⟩ := List.cons_prefix_cons.1 h
    obtain rfl := List.map_eq_nil_iff.1 (List.prefix_nil.1 hrest)
    cases found with
    | none => exact .inl rfl
    | some b => exact .inr ⟨b, rfl⟩

end

theorem Turns.rule {n : Network σ} {c : Settings} {call : Call σ}
    {l : List (Nat × Option Bytes)} {r r' : Run σ} (h : Turns call r l r')
    (refs : Nat → List SectorRef)
    (hcall : ∀ piece ∈ l.map Prod.fst, ∀ r, Leads n c (fun _ => True) r (call piece r).2
      ∧ ∀ b, (call piece r).1 = some b → r.Sound c →
          ∃ s ∈ refs piece, Genuine c (call piece r).2.wire s.root b) :
    Leads n c (fun _ => True) r r'
      ∧ (r.Sound c → ∀ e ∈ got l, ∃ s ∈ refs e.1, Genuine c r'.wire s.root e.2) := by
  induction h with
  | done r => exact ⟨.refl, fun _ e he => absurd he List.not_mem_nil⟩
  | @call r piece l r' rest ih =>
    obtain ⟨hleads, hgenuine⟩ := hcall piece List.mem_cons_self r
    obtain ⟨hlater, hrest⟩ := ih fun p hp => hcall p (List.mem_cons_of_mem _ hp)
    refine ⟨hleads.trans hlater, fun hr e he => ?_⟩
    have hthere := hrest (hleads.sound hr)
    cases hfound : (call piece r).1 with
    | none =>
      rw [hfound, got_cons_none] at he
      exact hthere e he
    | some b =>
      rw [hfound, got_cons_some] at he
      rcases List.mem_cons.1 he with rfl | he
      · obtain ⟨s, hs, hg⟩ := hgenuine b hfound hr
        exact ⟨s, hs, hg.mono hlater.wire⟩
      · exact hthere e he

theorem Turns.searches_eq {call : Call σ} {l : List (Nat × Option Bytes)} {r r' : Run σ}
    (h : Turns call r l r')
    (hcall : ∀ piece r, (call piece r).2.wire.searches = r.wire.searches) :
    r'.wire.searches = r.wire.searches := by
  induction h with
  | done r => rfl
  | call r piece _ ih => rw [ih, hcall]

theorem Turns.searches_sublist {call : Call σ} {l : List (Nat × Option Bytes)} {r r' : Run σ}
    (h : Turns call r l r') {root : Nat → Hash256}
    (hcall : ∀ piece r, ∃ begun : List Hash256, begun.Sublist [root piece]
      ∧ (call piece r).2.wire.searches = r.wire.searches ++ begun) :
    ∃ begun : List Hash256, begun.Sublist (l.map fun a => root a.1)
      ∧ r'.wire.searches = r.wire.searches ++ begun := by
  induction h with
  | done r => exact ⟨[], List.nil_sublist _, (List.append_nil _).symm⟩
  | call r piece _ ih =>
    obtain ⟨first, hfirst, he⟩ := hcall piece r
    obtain ⟨begun, hbegun, hrest⟩ := ih
    exact ⟨first ++ begun, hfirst.append hbegun, by rw [hrest, he, List.append_assoc]⟩

/-! ## until there is enough -/

/-- calls for pieces in turn, as long as fewer than `need` sectors are there; `found` are there
before -/
def sweep (call : Call σ) (need : Nat) :
    List Nat → Nat → Run σ → List (Nat × Option Bytes) × Run σ
  | [], _, r => ([], r)
  | piece :: rest, found, r =>
    if need ≤ found then ([], r)
    else
      let a := call piece r
      let b := sweep call need rest (if a.1.isSome then found + 1 else found) a.2
      ((piece, a.1) :: b.1, b.2)

section
variable (call : Call σ) (need : Nat) (places : List Nat) (found : Nat) (r : Run σ)

theorem sweep_full (h : need ≤ found) : sweep call need places found r = ([], r) := by
  cases places with
  | nil => rfl
  | cons piece rest => rw [sweep, if_pos h]

theorem sweep_turns :
    Turns call r (sweep call need places found r).1 (sweep call need places found r).2 := by
  induction places generalizing found r with
  | nil => exact .done r
  | cons piece rest ih =>
    rw [sweep]
    split
    · exact .done r
    · exact .call r piece (ih _ _)

/-- the calls begin with the first place and leave none out -/
theorem sweep_prefix : (sweep call need places found r).1.map Prod.fst <+: places := by
  induction places generalizing found r with
  | nil => exact List.prefix_rfl
  | cons piece rest ih =>
    rw [sweep]
    split
    · exact List.nil_prefix
    · exact List.cons_prefix_cons.2 ⟨rfl, ih _ _⟩

/-- no call is made once there is enough -/
theorem sweep_hungry {before after : List (Nat × Option Bytes)} {a : Nat × Option Bytes}
    (h : (sweep call need places found r).1 = before ++ a :: after) :
    found + (got before).length < need := by
  induction places generalizing found r before with
  | nil => exact absurd h.symm (List.append_ne_nil_of_right_ne_nil _ (List.cons_ne_nil _ _))
  | cons piece rest ih =>
    rw [sweep] at h
    split at h
    · exact absurd h.symm (List.append_ne_nil_of_right_ne_nil _ (List.cons_ne_nil _ _))
    · next hfew =>
      cases before with
      | nil => exact Nat.not_le.1 hfew
      | cons first before =>
        obtain ⟨hfirst, hrest⟩ := List.cons.inj h
        have hlt := ih _ _ hrest
        rw [← hfirst]
        cases hfound : (call piece r).1 with
        | none =>
          simp only [hfound, Option.isSome_none, Bool.false_eq_true, if_false] at hlt
          exact hlt
        | some b =>
          simp only [hfound, Option.isSome_some, if_true] at hlt
          rw [got_cons_some, List.length_cons]
          omega

/-- no more is got than is needed -/
theorem sweep_le (h : found ≤ need) :
    found + (got (sweep call need places found r).1).length ≤ need := by
  induction places generalizing found r with
  | nil => exact h
  | cons piece rest ih =>
    rw [sweep]
    split
    · exact h
    · next hfew =>
      dsimp only
      cases hfound : (call piece r).1 with
      | none => exact ih _ _ h
      | some b =>
        have hle := ih (found + 1) (call piece r).2 (by omega)
        rw [Option.isSome_some, if_pos rfl, got_cons_some, List.length_cons]
        omega

/-- the calls go on to the last place unless there is enough -/
theorem sweep_over :
    need ≤ found + (got (sweep call need places found r).1).length
      ∨ (sweep call need places found r).1.map Prod.fst = places := by
  induction places generalizing found r with
  | nil => exact .inr rfl
  | cons piece rest ih =>
    rw [sweep]
    split
    · next hfull => exact .inl hfull
    · dsimp only
      have hrest := ih (if (call piece r).1.isSome then found + 1 else found) (call piece r).2
      refine hrest.imp (fun hmany => ?_) fun hall => congrArg (List.cons piece) hall
      cases hfound : (call piece r).1 with
      | none =>
        simp only [hfound, Option.isSome_none, Bool.false_eq_true, if_false] at hmany ⊢
        exact hmany
      | some b =>
        simp only [hfound, Option.isSome_some, if_true] at hmany ⊢
        rw [got_cons_some, List.length_cons]
        omega

end

end Run

end Reclaim

import Reclaim.Host.Memory
import Reclaim.Proofs.Host.Sessions
import Reclaim.Proofs.Recovery.Recover

/-!
# What a run keeps from moment to moment

Everything that happens to a run happens in moves: a claimed copy is tried, all hosts are searched,
a chunk is done; and between two recoveries single sectors may be fetched, or the hosts may change.
The cache is looked at when a move begins and written when it ends.

* `Run.Gain`       what a move does to cache and counters: nothing, or one new verified sector;
* `Run.Move`, `Run.Later`   the moves of a recovery, and everything that comes later;
* `Run.Seek`, `collect_seeks`   the pieces of a chunk are collected by moves for the sake of its
                   claims only;
* `recover_moves`  a recovery consists of such moves;
* `cache_only_verified`     at every moment the cache holds verified sectors only, nothing is ever
                   lost or changed, and what is at hand is not asked for again.
-/

namespace Reclaim

variable {σ : Type}

namespace Cache

/-- every pair of a cache is a sector of the right length and its root -/
def Verified (c : Settings) (k : Cache) : Prop :=
  ∀ e ∈ k.sectors, e.2.length = c.sectorSize ∧ sectorRoot e.2 = e.1

theorem insert_new {k : Cache} {root : Hash256} (h : k.get? root = none) (b : Bytes) :
    (k.insert root b).sectors = (root, b) :: k.sectors := by
  have hc : ¬k.contains root = true := by
    rw [contains, h]
    exact Bool.false_ne_true
  rw [insert, if_neg hc]

/-- the roots at hand -/
def roots (k : Cache) : List Hash256 := k.sectors.map Prod.fst

theorem get?_eq_none_iff {k : Cache} {root : Hash256} : k.get? root = none ↔ root ∉ k.roots := by
  rw [get?, List.lookup_eq_none_iff, roots, List.mem_map]
  constructor
  · rintro h ⟨e, he, rfl⟩
    exact absurd (h e he) (by simp)
  · intro h e he
    exact bne_iff_ne.2 fun hr => h ⟨e, he, hr.symm⟩

end Cache

namespace Run

/-- no sector came, or one that was not at hand and that is verified; it is counted -/
inductive Gain (c : Settings) (r r' : Run σ) : Prop
  | nothing (hc : r'.cache = r.cache)
      (hp : r'.progress.map Progress.sectors = r.progress.map Progress.sectors)
  | sector (root : Hash256) (b : Bytes) (new : r.cache.get? root = none)
      (length : b.length = c.sectorSize) (verified : sectorRoot b = root)
      (hc : r'.cache = r.cache.insert root b)
      (hp : r'.progress.map Progress.sectors = r.progress.map fun g => g.sectors + 1)

/-- what is known of a move: a gain, and no session for a sector that is at hand -/
structure Advances (c : Settings) (r r' : Run σ) : Prop where
  gain : Gain c r r'
  opens : Wire.Opens (fun root => r.cache.get? root = none) r.wire r'.wire

section
variable {n : Network σ} {c : Settings} {r r' : Run σ}

theorem advances_of_cache (hc : r'.cache = r.cache)
    (hp : r'.progress.map Progress.sectors = r.progress.map Progress.sectors)
    (ho : Wire.Opens (fun root => r.cache.get? root = none) r.wire r'.wire) : Advances c r r' :=
  ⟨.nothing hc hp, ho⟩

theorem Advances.quiet {r'' : Run σ} (h : Advances c r r') (hc : r''.cache = r'.cache)
    (hp : r''.progress = r'.progress) (ho : ∀ P, Wire.Opens P r'.wire r''.wire) :
    Advances c r r'' := by
  refine ⟨?_, h.opens.trans (ho _)⟩
  cases h.gain with
  | nothing hc' hp' => exact .nothing (hc.trans hc') (by rw [hp, hp'])
  | sector root b new length verified hc' hp' =>
    exact .sector root b new length verified (hc.trans hc') (by rw [hp, hp'])

theorem advances_remember {root : Hash256} {b : Bytes} (hc : r'.cache = r.cache)
    (hp : r'.progress = r.progress) (new : r.cache.get? root = none) (hg : Genuine c r'.wire root b)
    (ho : Wire.Opens (· = root) r.wire r'.wire) : Advances c r (r'.remember root b) := by
  refine ⟨.sector root b new hg.length hg.root ?_ ?_, ho.mono fun root' e => e ▸ new⟩
  · rw [← hc]
    rfl
  · rw [← hp, remember, Option.map_map]
    rfl

/-! ## one host -/

theorem fetch_advances (n : Network σ) (c : Settings) (host : HostKey) (root : Hash256)
    (r : Run σ) : Advances c r (fetch n c host root r).2 := by
  cases hc : r.cache.get? root with
  | some b =>
    rw [fetch_cached n c r hc]
    exact advances_of_cache rfl rfl .refl
  | none =>
    have ho := download_opens n c host root r.wire
    obtain ⟨a, hsec, ha⟩ :=
      download_rule (Exchange.meets_nothing n c (fun _ => True) r.wire _) .refl
    cases hd : (download n c host root r.wire).1 with
    | error e =>
      rw [fetch_error n c r hc hd]
      exact advances_of_cache rfl rfl (ho.mono fun root' e => e ▸ hc)
    | ok b =>
      rw [fetch_ok n c r hc hd]
      exact advances_remember rfl rfl hc (Exchange.genuine_of_accords ha (hsec.symm.trans hd)) ho

theorem blame_advances {s : SectorRef} {e : SectorError} (h : Advances c r r') :
    Advances c r (blame n s e r') := by
  have hn : Advances c r (r'.notice s.host s.root e) :=
    h.quiet rfl rfl fun _ => Wire.opens_failed ..
  unfold blame
  split
  · exact hn.quiet rfl rfl fun _ => Wire.opens_prune n s.host
  · exact hn

theorem claim_advances (n : Network σ) (c : Settings) (s : SectorRef) (r : Run σ) :
    Advances c r (fetchAny n c [s] r).2 := by
  by_cases hp : passes n r s = true
  · rw [fetchAny_pass n c r [] hp]
    exact advances_of_cache rfl rfl .refl
  · have hf := fetch_advances n c s.host s.root r
    cases hr : (fetch n c s.host s.root r).1 with
    | ok b =>
      rw [fetchAny_ok n c r [] hp hr]
      exact hf
    | error e =>
      rw [fetchAny_error n c r [] hp hr]
      exact blame_advances hf

/-! ## all hosts -/

/-- what a search puts on record once it is begun: exchanges about its sector, and failures -/
theorem raced_records (n : Network σ) (c : Settings) (orders : Orders) (root : Hash256)
    (r : Run σ) {P : Event → Prop} (hexchanged : ∀ host e, e.Exchanged host root → P e)
    (hfailed : ∀ host x, P (.failed host root x)) :
    Wire.Records P (r.wire.note (.raced root)) (raced n c orders root r).2.wire := by
  have hkeeps : (raceWork n c root).Keeps (fun _ => True)
      (fun s => Wire.Records P (r.wire.note (.raced root)) s.wire) (fun _ _ => True) :=
    ⟨fun host s _ hs => ⟨hs.trans ((Exchange.start_records ⟨host, root, false⟩ s.wire).mono
        (hexchanged host)), trivial, fun _ _ => trivial⟩,
      fun _ t s hs _ => ⟨hs.trans ((Exchange.resume_records s.wire t).mono
        fun e he => hexchanged t.goal.host e (.inr he)), trivial, fun _ _ => trivial⟩⟩
  refine (Pool.run_keeps (p := racePlan n c (orders r.wire.trace.length) root) hkeeps ?_ _
    (fun _ _ => trivial) ⟨r.wire.note (.raced root), r.tally.addRace, none, []⟩ .refl).1
  intro a s hs _
  refine ⟨?_, fun _ _ => trivial⟩
  show Wire.Records _ _ (raceDeliver root a s).2.wire
  unfold raceDeliver
  split
  · exact hs
  · exact hs.trans (Wire.records_event rfl (hfailed ..))

theorem race_opens (n : Network σ) (c : Settings) (orders : Orders) (root : Hash256) (r : Run σ) :
    Wire.Opens (· = root) r.wire (raced n c orders root r).2.wire := by
  refine (Wire.opens_raced root).trans (Wire.opens_of_records (raced_records n c orders root r
    (P := fun e => ∀ host root', e = .dialed host root' → root' = root) ?_ ?_) fun host root' h => ?_)
  · rintro k e (rfl | he) host root' hd
    · cases hd
      rfl
    · cases hd
      cases he
  · intro k x host root' hd
    cases hd
  · exact h host root' rfl

theorem afterRace_quiet (n : Network σ) (P : Hash256 → Prop) (r : Run σ) (s : Race σ) :
    (afterRace n r s).cache = r.cache ∧ (afterRace n r s).progress = r.progress
      ∧ Wire.Opens P s.wire (afterRace n r s).wire := by
  have key : ∀ (hosts : List HostKey) (r' : Run σ),
      (hosts.foldl (fun r host => prune n host r) r').cache = r'.cache
        ∧ (hosts.foldl (fun r host => prune n host r) r').progress = r'.progress
        ∧ Wire.Opens P r'.wire (hosts.foldl (fun r host => prune n host r) r').wire := by
    intro hosts
    induction hosts with
    | nil => exact fun r' => ⟨rfl, rfl, .refl⟩
    | cons host rest ih =>
      intro r'
      obtain ⟨h1, h2, h3⟩ := ih (prune n host r')
      exact ⟨h1, h2, (Wire.opens_prune n host).trans h3⟩
  exact key s.stale _

theorem race_advances (n : Network σ) (c : Settings) (orders : Orders) (root : Hash256)
    (r : Run σ) : Advances c r (race n c orders root r).2 := by
  cases hc : r.cache.get? root with
  | some b =>
    rw [race_cached n c orders r hc]
    exact advances_of_cache rfl rfl .refl
  | none =>
    by_cases hh : n.hosts r.wire.net = []
    · rw [race_nobody n c orders r hc hh]
      exact advances_of_cache rfl rfl .refl
    · obtain ⟨h1, h2, h3⟩ := afterRace_quiet n (· = root) r (raced n c orders root r).2
      have ho := (race_opens n c orders root r).trans h3
      cases hwin : (raced n c orders root r).2.winner with
      | none =>
        rw [race_lost n c orders r hc hh hwin]
        exact advances_of_cache h1 (by rw [h2]) (ho.mono fun root' e => e ▸ hc)
      | some b =>
        rw [race_won n c orders r hc hh hwin]
        have hsound := raced_sound (spares_all n c r.wire) orders root
        exact advances_remember h1 h2 hc ((leads_afterRace hsound).2 b hwin) ho

/-! ## all that happens -/

/-- the moves of a recovery -/
inductive Move (n : Network σ) (c : Settings) : Run σ → Run σ → Prop
  /-- a claimed copy is tried: it is passed over, found, or missed -/
  | claim (r : Run σ) (s : SectorRef) : Move n c r (fetchAny n c [s] r).2
  | race (r : Run σ) (orders : Orders) (root : Hash256) : Move n c r (race n c orders root r).2
  | chunk (r : Run σ) (t : Recovery.Target) (i : Nat) : Move n c r (Recovery.chunkDone t i r)

abbrev Moves (n : Network σ) (c : Settings) : Run σ → Run σ → Prop :=
  Relation.ReflTransGen (Move n c)

theorem move_leads {gone : HostKey → Prop} (hs : Spares n c gone r.wire) (hm : Move n c r r') :
    Leads n c gone r r' := by
  cases hm with
  | claim s => exact (fetchAny_rule hs [s]).1
  | race orders root => exact (race_rule hs orders root).1
  | chunk t i => exact Recovery.leads_chunkDone t i r

theorem moves_lead {gone : HostKey → Prop} (hs : Spares n c gone r.wire) (hm : Moves n c r r') :
    Leads n c gone r r' := by
  induction hm with
  | refl => exact .refl
  | tail _ hstep ih => exact ih.trans (move_leads (hs.mono ih.wire) hstep)

/-- the moves for the sake of certain copies: one of them is tried, or all hosts are searched for
its sector -/
inductive Seek (n : Network σ) (c : Settings) (refs : List SectorRef) : Run σ → Run σ → Prop
  | claim (r : Run σ) (s : SectorRef) (h : s ∈ refs) : Seek n c refs r (fetchAny n c [s] r).2
  | race (r : Run σ) (orders : Orders) (s : SectorRef) (h : s ∈ refs) :
      Seek n c refs r (race n c orders s.root r).2

abbrev Seeks (n : Network σ) (c : Settings) (refs : List SectorRef) : Run σ → Run σ → Prop :=
  Relation.ReflTransGen (Seek n c refs)

theorem seeks_mono {refs refs' : List SectorRef} (hsub : refs ⊆ refs') (h : Seeks n c refs r r') :
    Seeks n c refs' r r' := by
  refine Relation.ReflTransGen.mono (fun a b hs => ?_) _ _ h
  cases hs with
  | claim s hs => exact .claim a s (hsub hs)
  | race orders s hs => exact .race a orders s (hsub hs)

theorem moves_of_seeks {refs : List SectorRef} (h : Seeks n c refs r r') : Moves n c r r' := by
  refine Relation.ReflTransGen.mono (fun a b hs => ?_) _ _ h
  cases hs with
  | claim s _ => exact .claim a s
  | race orders s _ => exact .race a orders s.root

/-- whatever can happen to a run: a move of some recovery, a single fetch, or that the hosts change
on their own account -/
inductive Act (n : Network σ) (c : Settings) : Run σ → Run σ → Prop
  | move {r r' : Run σ} (h : Move n c r r') : Act n c r r'
  | fetch (r : Run σ) (host : HostKey) (root : Hash256) : Act n c r (fetch n c host root r).2
  | meanwhile (r : Run σ) (net : σ) : Act n c r { r with wire := ⟨net, r.wire.trace⟩ }

/-- from one moment to a later one -/
abbrev Later (n : Network σ) (c : Settings) : Run σ → Run σ → Prop :=
  Relation.ReflTransGen (Act n c)

theorem later_of_moves (h : Moves n c r r') : Later n c r r' :=
  Relation.ReflTransGen.mono (fun _ _ => Act.move) _ _ h

theorem Act.advances (h : Act n c r r') : Advances c r r' := by
  cases h with
  | move h =>
    cases h with
    | claim s => exact claim_advances n c s r
    | race orders root => exact race_advances n c orders root r
    | chunk t i =>
      refine advances_of_cache rfl ?_ .refl
      rw [Recovery.chunkDone, Option.map_map]
      rfl
  | fetch host root => exact fetch_advances n c host root r
  | meanwhile net =>
    exact advances_of_cache rfl rfl ⟨[], rfl, fun _ _ h => absurd h List.not_mem_nil⟩

/-! ## what all moments have in common -/

theorem Gain.verified (h : Gain c r r') (hv : r.cache.Verified c) : r'.cache.Verified c := by
  cases h with
  | nothing hc _ => rwa [hc]
  | sector root b new length verified hc _ =>
    intro e he
    rw [hc, Cache.insert_new new] at he
    rcases List.mem_cons.1 he with rfl | he
    · exact ⟨length, verified⟩
    · exact hv e he

theorem Gain.nodup (h : Gain c r r') (hn : r.cache.roots.Nodup) : r'.cache.roots.Nodup := by
  cases h with
  | nothing hc _ => rwa [hc]
  | sector root b new _ _ hc _ =>
    rw [hc, Cache.roots, Cache.insert_new new]
    exact List.nodup_cons.2 ⟨Cache.get?_eq_none_iff.1 new, hn⟩

/-- the counter goes up by one with every sector that comes -/
theorem Gain.counted (h : Gain c r r') {p : Option Progress}
    (hp : r.progress.map Progress.sectors
      = p.map fun g => g.sectors + UInt64.ofNat r.cache.size) :
    r'.progress.map Progress.sectors
      = p.map fun g => g.sectors + UInt64.ofNat r'.cache.size := by
  cases h with
  | nothing hc hp' => rw [hp', hp, hc]
  | sector root b new _ _ hc hp' =>
    have hsize : r'.cache.size = r.cache.size + 1 := by
      rw [hc, Cache.size, Cache.insert_new new]
      rfl
    have hadd : (r.progress.map fun g => g.sectors + 1)
        = (r.progress.map Progress.sectors).map (· + 1) := by
      rw [Option.map_map]
      rfl
    rw [hp', hadd, hp, Option.map_map, hsize]
    congr 1
    funext g
    exact (UInt64.add_assoc ..).trans (congrArg (g.sectors + ·) (UInt64.ofNat_add ..).symm)

theorem Gain.get? (h : Gain c r r') {root : Hash256} {b : Bytes}
    (hb : r.cache.get? root = some b) : r'.cache.get? root = some b := by
  cases h with
  | nothing hc _ => rwa [hc]
  | sector root' b' new _ _ hc _ =>
    rw [hc, Cache.get?_insert, if_neg, hb]
    rintro rfl
    rw [new] at hb
    cases hb

theorem later_keeps (h : Later n c r r') :
    (∀ root b, r.cache.get? root = some b → r'.cache.get? root = some b)
      ∧ Wire.Opens (fun root => r.cache.get? root = none) r.wire r'.wire := by
  induction h with
  | refl => exact ⟨fun _ _ h => h, .refl⟩
  | @tail r₁ r₂ _ hs ih =>
    obtain ⟨h1, h2⟩ := ih
    refine ⟨fun root b h => hs.advances.gain.get? (h1 root b h),
      h2.trans (hs.advances.opens.mono fun root hnone => ?_)⟩
    cases hr : r.cache.get? root with
    | none => rfl
    | some b =>
      rw [h1 root b hr] at hnone
      cases hnone

theorem Act.sound (h : Act n c r r') (hr : r.Sound c) : r'.Sound c := by
  have hs := spares_all n c r.wire
  cases h with
  | move h => exact (move_leads hs h).sound hr
  | fetch host root => exact (fetch_rule hs host root).1.sound hr
  | meanwhile net =>
    intro root b hb
    obtain ⟨hlength, hroot, hsent⟩ := hr root b hb
    exact ⟨hlength, hroot, hsent⟩

theorem later_sound (h : Later n c r r') (hr : r.Sound c) : r'.Sound c := by
  induction h with
  | refl => exact hr
  | tail _ hs ih => exact hs.sound ih

end

end Run

/-! ## a recovery is made of moves -/

namespace Recovery

open Run

section
variable (n : Network σ) (c : Settings) (orders : Run.Orders) (t : Target) (chunk : Nat)

/-- the claimed copies of a piece are tried one after the other, until one is found -/
theorem fetchAny_cons (s : SectorRef) (rest : List SectorRef) (r : Run σ) :
    fetchAny n c (s :: rest) r
      = match (fetchAny n c [s] r).1 with
        | some b => (some b, (fetchAny n c [s] r).2)
        | none => fetchAny n c rest (fetchAny n c [s] r).2 := by
  by_cases hp : passes n r s = true
  · rw [fetchAny_pass n c r rest hp, fetchAny_pass n c r [] hp]
    rfl
  · cases hf : (fetch n c s.host s.root r).1 with
    | ok b => rw [fetchAny_ok n c r rest hp hf, fetchAny_ok n c r [] hp hf]
    | error e =>
      rw [fetchAny_error n c r rest hp hf, fetchAny_error n c r [] hp hf]
      rfl

theorem fetchAny_seeks (refs : List SectorRef) (r : Run σ) :
    Seeks n c refs r (fetchAny n c refs r).2 := by
  induction refs generalizing r with
  | nil => exact .refl
  | cons s rest ih =>
    have hs : Seeks n c (s :: rest) r (fetchAny n c [s] r).2 :=
      .single (.claim r s List.mem_cons_self)
    rw [fetchAny_cons]
    cases (fetchAny n c [s] r).1 with
    | some b => exact hs
    | none => exact hs.trans (seeks_mono (List.subset_cons_self ..) (ih _))

theorem tryClaims_seeks (piece : Nat) (slots : List (List SectorRef)) (k : Collected) (r : Run σ) :
    Seeks n c slots.flatten r (tryClaims n c t chunk piece slots k r).2 := by
  induction slots generalizing piece k r with
  | nil => exact .refl
  | cons slot rest ih =>
    rw [List.flatten_cons]
    have hs := seeks_mono (List.subset_append_left slot rest.flatten) (fetchAny_seeks n c slot r)
    have hrest : ∀ piece k r, Seeks n c (slot ++ rest.flatten) r
        (tryClaims n c t chunk piece rest k r).2 := fun piece k r =>
      seeks_mono (List.subset_append_right ..) (ih piece k r)
    rw [tryClaims]
    split
    · exact .refl
    · split
      · exact hrest ..
      · dsimp only
        split
        · exact hs.trans (hrest ..)
        · exact hs.trans (hrest ..)

/-- what is missed is claimed -/
theorem missing_tryClaims (claims : List (List SectorRef)) (piece : Nat)
    (slots : List (List SectorRef)) (hdrop : claims.drop piece = slots) (k : Collected)
    (hk : ∀ i ∈ k.missing, claims.getD i [] ≠ []) (r : Run σ) :
    ∀ i ∈ (tryClaims n c t chunk piece slots k r).1.missing, claims.getD i [] ≠ [] := by
  induction slots generalizing piece k r with
  | nil => exact hk
  | cons slot rest ih =>
    obtain ⟨hslot, hrest⟩ := getD_of_drop hdrop
    rw [tryClaims]
    split
    · exact hk
    · split
      · exact ih _ hrest k hk _
      · next hempty =>
        dsimp only
        split
        · exact ih _ hrest (k.add piece _) hk _
        · refine ih _ hrest (k.miss piece) (fun i hi => ?_) _
          rcases List.mem_append.1 hi with hi | hi
          · exact hk i hi
          · rw [List.mem_singleton.1 hi, hslot]
            exact fun h => hempty (List.isEmpty_iff.2 h)

theorem search_seeks (claims : List (List SectorRef)) (pieces : List Nat)
    (hp : ∀ i ∈ pieces, claims.getD i [] ≠ []) (k : Collected) (r : Run σ) :
    Seeks n c claims.flatten r (search n c orders t chunk claims pieces k r).2 := by
  induction pieces generalizing k r with
  | nil => exact .refl
  | cons piece rest ih =>
    obtain ⟨s, hs, hroot⟩ := searchRoot_mem (hp piece List.mem_cons_self)
    have hmem : s ∈ claims.flatten := by
      rw [List.getD_eq_getElem?_getD] at hs
      cases hslot : claims[piece]? with
      | none =>
        rw [hslot] at hs
        cases hs
      | some slot =>
        rw [hslot] at hs
        exact List.mem_flatten.2 ⟨slot, List.mem_of_getElem? hslot, hs⟩
    have hfirst : Seeks n c claims.flatten r (race n c orders (searchRoot claims piece) r).2 := by
      rw [hroot]
      exact .single (.race r orders s hmem)
    have hrest := fun k r => ih (fun i hi => hp i (List.mem_cons_of_mem _ hi)) k r
    rw [search]
    split
    · exact .refl
    · dsimp only
      split
      · exact hfirst.trans (hrest ..)
      · exact hfirst.trans (hrest ..)

/-- the pieces of a chunk are collected for the sake of its claims only -/
theorem collect_seeks (slots : List (List SectorRef)) (r : Run σ) :
    Seeks n c slots.flatten r (collect n c orders t chunk slots r).2 := by
  have h1 := tryClaims_seeks n c t chunk 0 slots (Collected.none t.descriptor.numPieces) r
  have h : Seeks n c slots.flatten r (gathered n c orders t chunk slots r).2 := by
    unfold gathered
    dsimp only
    split
    · exact h1.trans (search_seeks n c orders t chunk slots _ (missing_tryClaims n c t chunk slots 0
        slots rfl (Collected.none _) (fun i hi => absurd hi List.not_mem_nil) r) _ _)
    · exact h1
  rw [run_collect]
  exact h

theorem fetchAny_moves (refs : List SectorRef) (r : Run σ) :
    Moves n c r (fetchAny n c refs r).2 := moves_of_seeks (fetchAny_seeks n c refs r)

theorem tryClaims_moves (piece : Nat) (slots : List (List SectorRef)) (k : Collected) (r : Run σ) :
    Moves n c r (tryClaims n c t chunk piece slots k r).2 :=
  moves_of_seeks (tryClaims_seeks n c t chunk piece slots k r)

theorem collect_moves (slots : List (List SectorRef)) (r : Run σ) :
    Moves n c r (collect n c orders t chunk slots r).2 :=
  moves_of_seeks (collect_seeks n c orders t chunk slots r)

theorem recoverChunks_moves (ks : List Chunk) (written : UInt64) (sink : Sink) (r : Run σ) :
    Moves n c r (recoverChunks n c orders t chunk written ks sink r).run := by
  induction ks generalizing chunk written sink r with
  | nil => exact .refl
  | cons k rest ih =>
    have hs := collect_moves n c orders t chunk k.slots r
    cases hc : (collect n c orders t chunk k.slots r).1 with
    | error e =>
      rw [recoverChunks_stop n c orders t chunk written rest sink r hc]
      exact hs
    | ok slots =>
      cases hd : (t.coder.recover slots (t.descriptor.chunkLen chunk) sink).result with
      | error e =>
        rw [recoverChunks_fail n c orders t chunk written rest sink r hc hd]
        exact hs
      | ok _ =>
        rw [recoverChunks_go n c orders t chunk written rest sink r hc hd]
        exact (hs.tail (.chunk _ t chunk)).trans (ih ..)

/-- a recovery consists of moves, whatever it comes to -/
theorem recover_moves (d : Descriptor) (sink : Sink) (r : Run σ) :
    Moves n c r (recover n c orders d sink r).run := by
  rcases recover_cases n c orders d sink r with ⟨e, -, h⟩ | ⟨coder, key, -, -, -, h⟩
  · rw [h]
  · rw [h, run_reported]
    exact recoverChunks_moves ..

end

end Recovery

/-- at every moment of any sequence of fetches and recoveries, all that is at hand are verified
sectors, each under its own root and counted once; from then on none of them is lost or changed,
and no session is opened for any of them -/
theorem Run.cache_only_verified (n : Network σ) (c : Settings) (net : σ) (p : Option Progress)
    (r : Run σ) (h : Later n c (Run.fresh net p) r) :
    r.cache.Verified c
      ∧ r.cache.roots.Nodup
      ∧ (r.progress.map Progress.sectors
          = p.map fun g => g.sectors + UInt64.ofNat r.cache.size)
      ∧ (∀ r', Later n c r r' →
          (∀ root b, r.cache.get? root = some b → r'.cache.get? root = some b)
            ∧ Wire.Opens (fun root => r.cache.contains root = false) r.wire r'.wire)
      ∧ (∀ host root, Later n c r (fetch n c host root r).2)
      ∧ ∀ orders d sink, Moves n c r (Recovery.recover n c orders d sink r).run := by
  refine ⟨?_, ?_, ?_, fun r' h' => ?_, fun host root => .single (.fetch r host root),
    fun orders d sink => Recovery.recover_moves n c orders d sink r⟩
  · induction h with
    | refl => exact fun e he => absurd he List.not_mem_nil
    | tail _ hs ih => exact hs.advances.gain.verified ih
  · induction h with
    | refl => exact List.nodup_nil
    | tail _ hs ih => exact hs.advances.gain.nodup ih
  · induction h with
    | refl => cases p with
      | none => rfl
      | some g => exact congrArg some (UInt64.add_zero _).symm
    | tail _ hs ih => exact hs.advances.gain.counted ih
  · obtain ⟨h1, h2⟩ := later_keeps h'
    refine ⟨h1, h2.mono fun root hr => ?_⟩
    rw [Cache.contains, hr]
    rfl

/-! ## a small case -/

/-- a host in memory that stores a single byte -/
def Memory.Hosts.single : Memory.Hosts :=
  (Memory.Hosts.empty.addHost (HostKey.ofBytes [1])).putSector (HostKey.ofBytes [1])
    (sectorRoot [7]) [7]

/-- the run that has fetched the byte -/
def Run.ofSingle : Run Memory.Hosts :=
  (Run.fetch Memory.network { Settings.standard with sectorSize := 1 } (HostKey.ofBytes [1])
    (sectorRoot [7]) (Run.fresh Memory.Hosts.single (some Progress.zero))).2

theorem Run.cache_only_verified_single :
    Run.ofSingle.cache.sectors = [(sectorRoot [7], [7])]
      ∧ Run.ofSingle.progress.map Progress.sectors = some 1
      ∧ ∀ r', Later Memory.network { Settings.standard with sectorSize := 1 } Run.ofSingle r' →
          Wire.Opens (fun root => Run.ofSingle.cache.contains root = false) Run.ofSingle.wire
            r'.wire := by
  have hsectors : Run.ofSingle.cache.sectors = [(sectorRoot [7], [7])] := by decide +kernel
  obtain ⟨-, -, hcount, hlater, -, -⟩ := cache_only_verified Memory.network
    { Settings.standard with sectorSize := 1 } Memory.Hosts.single (some Progress.zero)
    Run.ofSingle (.single (.fetch ..))
  refine ⟨hsectors, ?_, fun r' h => (hlater r' h).2⟩
  rw [hcount, Cache.size, hsectors]
  rfl

end Reclaim

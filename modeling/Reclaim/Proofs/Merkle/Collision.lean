import Mathlib.Logic.Basic
import Reclaim.Merkle.Frontier
import Reclaim.Proofs.Bytes

/-!
# Two byte strings with one root

Nothing is assumed of the hash function.  If two different byte strings have the same root, then the
trees above them part somewhere, and where they part two different messages have the same hash.
Both messages are among those that are hashed on the way to the two roots: `Asking` is the same
computation with a record of every message it has hashed.

* `Asking.run_rootOf`     recording the messages does not change the root;
* `Derives`               a hash stands above consecutive leaves, every message on the way recorded;
* `collision_of_derives`  one hash above different leaves comes with a collision;
* `equal_roots_collide`   so do equal roots of different byte strings.
-/

namespace Reclaim.Merkle

section
variable (hash : Bytes → Hash256)

/-! ## the messages of a computation -/

/-- a computation that keeps the messages it has hashed, the latest first -/
abbrev Asking := StateM (List Bytes)

namespace Asking

/-- the only place where a message is hashed -/
def ask (message : Bytes) : Asking Hash256 := fun asked => (hash message, message :: asked)

def leafHash (leaf : Bytes) : Asking Hash256 := ask hash (leafMessage leaf)

def nodeHash (l r : Hash256) : Asking Hash256 := ask hash (nodeMessage l r)

def carry (height : Nat) (node : Hash256) : List (Nat × Hash256) → Asking (List (Nat × Hash256))
  | [] => pure [(height, node)]
  | (k, left) :: r =>
    if k = height then do
      let joined ← nodeHash hash left node
      carry (height + 1) joined r
    else pure ((height, node) :: (k, left) :: r)

def push (f : Frontier) (leaf : Hash256) : Asking Frontier := do
  let roots ← carry hash 0 leaf f.roots
  return ⟨roots⟩

def pushLeaf (f : Frontier) (leaf : Bytes) : Asking Frontier := do
  let h ← leafHash hash leaf
  push hash f h

def root (f : Frontier) : Asking Hash256 :=
  match f.roots with
  | [] => pure Hash256.zero
  | (_, last) :: r => r.foldlM (fun acc left => nodeHash hash left.2 acc) last

def rootOf (data : Bytes) : Asking Hash256 :=
  let leaves := Bytes.segments leafSize data
  if batchLeaves * leafSize ≤ data.length then do
    let hashes ← leaves.mapM (leafHash hash)
    let f ← hashes.foldlM (push hash) Frontier.empty
    root hash f
  else do
    let f ← leaves.foldlM (pushLeaf hash) Frontier.empty
    root hash f

end Asking

/-- the messages hashed on the way to the root of a byte string -/
def messages (data : Bytes) : List Bytes := ((Asking.rootOf hash data).run []).2

/-! ## what stands above which leaves -/

/-- `h` is a hash above the leaves, and every message on the way to it is recorded -/
inductive Derives (asked : List Bytes) : List Bytes → Hash256 → Prop where
  | leaf {b} (short : b.length ≤ leafSize) (recorded : leafMessage b ∈ asked) :
      Derives asked [b] (leafHash hash b)
  | node {left right l r} (ofLeft : Derives asked left l) (ofRight : Derives asked right r)
      (recorded : nodeMessage l r ∈ asked) : Derives asked (left ++ right) (nodeHash hash l r)

theorem Derives.mono {asked asked' : List Bytes} (hsub : asked ⊆ asked') {leaves : List Bytes}
    {h : Hash256} (hd : Derives hash asked leaves h) : Derives hash asked' leaves h := by
  induction hd with
  | leaf short recorded => exact .leaf short (hsub recorded)
  | node _ _ recorded ihl ihr => exact .node ihl ihr (hsub recorded)

/-- a message of the computation: a leaf behind a zero byte, or two hashes behind a one byte -/
inductive Message : Bytes → Prop where
  | leaf (b : Bytes) (short : b.length ≤ leafSize) : Message (leafMessage b)
  | node (l r : Hash256) : Message (nodeMessage l r)

/-- different messages, one recorded here and one there, with the same hash -/
def Collide (here there : List Bytes) : Prop :=
  ∃ x ∈ here, ∃ y ∈ there, Message x ∧ Message y ∧ x ≠ y ∧ hash x = hash y

theorem nodeMessage_inj {l r l' r' : Hash256} (h : nodeMessage l r = nodeMessage l' r') :
    l = l' ∧ r = r' := by
  have happ : l.bytes ++ r.bytes = l'.bytes ++ r'.bytes := (List.cons.inj h).2
  have hlen : l.bytes.length = l'.bytes.length := l.length_eq.trans l'.length_eq.symm
  obtain ⟨hl, hr⟩ := List.append_inj happ hlen
  exact ⟨Hash256.ext hl, Hash256.ext hr⟩

theorem leafMessage_ne_nodeMessage (b : Bytes) (l r : Hash256) : leafMessage b ≠ nodeMessage l r := by
  intro h
  exact absurd (List.cons.inj h).1 (by decide)

/-- The trees need not have the same shape: a leaf here and a pair there differ in their first byte,
and equal pairs have equal halves, one of which stands above different leaves. -/
theorem collision_of_derives {here there : List Bytes} {leaves leaves' : List Bytes}
    {h h' : Hash256} (hd : Derives hash here leaves h) (hd' : Derives hash there leaves' h')
    (heq : h = h') (hne : leaves ≠ leaves') : Collide hash here there := by
  induction hd generalizing leaves' h' with
  | @leaf b short recorded =>
    cases hd' with
    | @leaf b' short' recorded' =>
      refine ⟨_, recorded, _, recorded', .leaf b short, .leaf b' short', ?_, heq⟩
      intro hm
      exact hne (congrArg (fun x => [x]) (List.cons.inj hm).2)
    | @node left' right' l' r' _ _ recorded' =>
      exact ⟨_, recorded, _, recorded', .leaf b short, .node l' r',
        leafMessage_ne_nodeMessage b l' r', heq⟩
  | @node left right l r ofLeft ofRight recorded ihl ihr =>
    cases hd' with
    | @leaf b' short' recorded' =>
      exact ⟨_, recorded, _, recorded', .node l r, .leaf b' short',
        (leafMessage_ne_nodeMessage b' l r).symm, heq⟩
    | @node left' right' l' r' ofLeft' ofRight' recorded' =>
      by_cases hm : nodeMessage l r = nodeMessage l' r'
      · obtain ⟨hl, hr⟩ := nodeMessage_inj hm
        by_cases hleft : left = left'
        · subst hleft
          exact ihr ofRight' hr fun hright => hne (congrArg (left ++ ·) hright)
        · exact ihl ofLeft' hl hleft
      · exact ⟨_, recorded, _, recorded', .node l r, .node l' r', hm, heq⟩

/-! ## every root is derived from the record -/

/-- the roots of a frontier stand above consecutive leaves, the last ones in front -/
inductive Backed (asked : List Bytes) : List (Nat × Hash256) → List Bytes → Prop where
  | empty : Backed asked [] []
  | root {roots leaves block h} (height : Nat) (before : Backed asked roots leaves)
      (derived : Derives hash asked block h) : Backed asked ((height, h) :: roots) (leaves ++ block)

theorem Backed.mono {asked asked' : List Bytes} (hsub : asked ⊆ asked')
    {roots : List (Nat × Hash256)} {leaves : List Bytes} (h : Backed hash asked roots leaves) :
    Backed hash asked' roots leaves := by
  induction h with
  | empty => exact .empty
  | root height _ derived ih => exact .root height ih (derived.mono hash hsub)

namespace Asking

theorem run_carry (height : Nat) (node : Hash256) (roots : List (Nat × Hash256))
    (asked : List Bytes) :
    ∃ asked', (carry hash height node roots).run asked =
        (Frontier.carry hash height node roots, asked') ∧ asked ⊆ asked' ∧
      ∀ leaves block, Backed hash asked roots leaves → Derives hash asked block node →
        Backed hash asked' (Frontier.carry hash height node roots) (leaves ++ block) := by
  induction roots generalizing height node asked with
  | nil =>
    exact ⟨asked, rfl, List.Subset.refl _, fun leaves block hb hd => .root height hb hd⟩
  | cons t roots ih =>
    obtain ⟨k, left⟩ := t
    by_cases hk : k = height
    · obtain ⟨asked', hrun, hsub, hbacked⟩ := ih (height + 1) (Merkle.nodeHash hash left node)
        (nodeMessage left node :: asked)
      have hgrow := List.subset_cons_self (nodeMessage left node) asked
      rw [carry, Frontier.carry, if_pos hk, if_pos hk]
      refine ⟨asked', hrun, List.Subset.trans hgrow hsub, fun leaves block hb hd => ?_⟩
      cases hb with
      | root _ before derived =>
        rw [List.append_assoc]
        exact hbacked _ _ (before.mono hash hgrow)
          (.node (derived.mono hash hgrow) (hd.mono hash hgrow) List.mem_cons_self)
    · rw [carry, Frontier.carry, if_neg hk, if_neg hk]
      exact ⟨asked, rfl, List.Subset.refl _, fun leaves block hb hd => .root height hb hd⟩

theorem run_push {f : Frontier} {h : Hash256} {asked leaves block : List Bytes}
    (hb : Backed hash asked f.roots leaves) (hd : Derives hash asked block h) :
    ∃ asked', (push hash f h).run asked = (f.push hash h, asked') ∧ asked ⊆ asked' ∧
      Backed hash asked' (f.push hash h).roots (leaves ++ block) := by
  obtain ⟨asked', hrun, hsub, hbacked⟩ := run_carry hash 0 h f.roots asked
  refine ⟨asked', ?_, hsub, hbacked leaves block hb hd⟩
  rw [push, StateT.run_bind, hrun]
  rfl

theorem run_pushes {f : Frontier} {asked leaves : List Bytes} (more : List Bytes)
    (hb : Backed hash asked f.roots leaves)
    (hmore : ∀ b ∈ more, b.length ≤ leafSize ∧ leafMessage b ∈ asked) :
    ∃ asked', ((more.map (Merkle.leafHash hash)).foldlM (push hash) f).run asked =
        ((more.map (Merkle.leafHash hash)).foldl (Frontier.push hash) f, asked') ∧
      Backed hash asked' ((more.map (Merkle.leafHash hash)).foldl (Frontier.push hash) f).roots
        (leaves ++ more) := by
  induction more generalizing f asked leaves with
  | nil =>
    rw [List.append_nil]
    exact ⟨asked, rfl, hb⟩
  | cons b more ih =>
    rw [List.forall_mem_cons] at hmore
    obtain ⟨asked₁, hrun₁, hsub₁, hb₁⟩ := run_push hash hb (.leaf hmore.1.1 hmore.1.2)
    obtain ⟨asked₂, hrun₂, hb₂⟩ := ih hb₁ fun b hb => ⟨(hmore.2 b hb).1, hsub₁ (hmore.2 b hb).2⟩
    rw [List.append_assoc] at hb₂
    refine ⟨asked₂, ?_, hb₂⟩
    rw [List.map_cons, List.foldlM_cons, StateT.run_bind, hrun₁]
    exact hrun₂

theorem run_pushLeaves {f : Frontier} {asked leaves : List Bytes} (more : List Bytes)
    (hb : Backed hash asked f.roots leaves) (hmore : ∀ b ∈ more, b.length ≤ leafSize) :
    ∃ asked', (more.foldlM (pushLeaf hash) f).run asked =
        (more.foldl (Frontier.pushLeaf hash) f, asked') ∧
      Backed hash asked' (more.foldl (Frontier.pushLeaf hash) f).roots (leaves ++ more) := by
  induction more generalizing f asked leaves with
  | nil =>
    rw [List.append_nil]
    exact ⟨asked, rfl, hb⟩
  | cons b more ih =>
    rw [List.forall_mem_cons] at hmore
    have hgrow := List.subset_cons_self (leafMessage b) asked
    obtain ⟨asked₁, hrun₁, _, hb₁⟩ := run_push hash (hb.mono hash hgrow)
      (.leaf hmore.1 List.mem_cons_self)
    obtain ⟨asked₂, hrun₂, hb₂⟩ := ih hb₁ hmore.2
    rw [List.append_assoc] at hb₂
    refine ⟨asked₂, ?_, hb₂⟩
    have hleaf : (pushLeaf hash f b).run asked = (f.pushLeaf hash b, asked₁) := hrun₁
    rw [List.foldlM_cons, StateT.run_bind, hleaf]
    exact hrun₂

theorem run_leafHashes (leaves asked : List Bytes) :
    ∃ asked', (leaves.mapM (leafHash hash)).run asked =
        (leaves.map (Merkle.leafHash hash), asked') ∧ asked ⊆ asked' ∧
      ∀ b ∈ leaves, leafMessage b ∈ asked' := by
  induction leaves generalizing asked with
  | nil => exact ⟨asked, rfl, List.Subset.refl _, fun b hb => absurd hb List.not_mem_nil⟩
  | cons b leaves ih =>
    obtain ⟨asked', hrun, hsub, hall⟩ := ih (leafMessage b :: asked)
    refine ⟨asked', ?_, List.Subset.trans (List.subset_cons_self _ _) hsub, ?_⟩
    · have hleaf : (leafHash hash b).run asked =
          (Merkle.leafHash hash b, leafMessage b :: asked) := rfl
      rw [List.mapM_cons, StateT.run_bind, hleaf]
      show ((leaves.mapM (leafHash hash)) >>= _).run _ = _
      rw [StateT.run_bind, hrun]
      rfl
    · rw [List.forall_mem_cons]
      exact ⟨hsub List.mem_cons_self, hall⟩

theorem run_fold {roots : List (Nat × Hash256)} {asked leaves rest : List Bytes} {h : Hash256}
    (hb : Backed hash asked roots leaves) (hd : Derives hash asked rest h) :
    ∃ asked', (roots.foldlM (fun acc left => nodeHash hash left.2 acc) h).run asked =
        (roots.foldl (fun acc left => Merkle.nodeHash hash left.2 acc) h, asked') ∧
      Derives hash asked' (leaves ++ rest)
        (roots.foldl (fun acc left => Merkle.nodeHash hash left.2 acc) h) := by
  induction roots generalizing asked leaves rest h with
  | nil =>
    cases hb with
    | empty => exact ⟨asked, rfl, hd⟩
  | cons t roots ih =>
    cases hb with
    | @root _ leaves block left height before derived =>
      have hgrow := List.subset_cons_self (nodeMessage left h) asked
      obtain ⟨asked', hrun, hd'⟩ := ih (before.mono hash hgrow)
        (.node (derived.mono hash hgrow) (hd.mono hash hgrow) List.mem_cons_self)
      rw [List.append_assoc]
      refine ⟨asked', ?_, hd'⟩
      have hnode : (nodeHash hash left h).run asked =
          (Merkle.nodeHash hash left h, nodeMessage left h :: asked) := rfl
      rw [List.foldlM_cons, StateT.run_bind, hnode]
      exact hrun

theorem run_root {f : Frontier} {asked leaves : List Bytes}
    (hb : Backed hash asked f.roots leaves) :
    ∃ asked', (root hash f).run asked = (f.root hash, asked') ∧
      (leaves ≠ [] → Derives hash asked' leaves (f.root hash)) := by
  obtain ⟨roots⟩ := f
  cases hb with
  | empty => exact ⟨asked, rfl, fun hne => absurd rfl hne⟩
  | root height before derived =>
    obtain ⟨asked', hrun, hd⟩ := run_fold hash before derived
    exact ⟨asked', hrun, fun _ => hd⟩

/-- recording the messages does not change the root, and the root is derived from the record -/
theorem run_rootOf (data : Bytes) :
    ∃ asked, (rootOf hash data).run [] = (Merkle.rootOf hash data, asked) ∧
      (data ≠ [] → Derives hash asked (Bytes.segments leafSize data) (Merkle.rootOf hash data)) := by
  have hshort : ∀ b ∈ Bytes.segments leafSize data, b.length ≤ leafSize :=
    fun b hb => Bytes.length_le_of_mem_segments (by decide) hb
  have hne : data ≠ [] → Bytes.segments leafSize data ≠ [] := by
    intro hd
    rw [Bytes.segments_cons leafSize data hd (by decide)]
    exact List.cons_ne_nil _ _
  rw [rootOf, Merkle.rootOf]
  split
  · obtain ⟨asked₁, hrun₁, _, hall⟩ := run_leafHashes hash (Bytes.segments leafSize data) []
    obtain ⟨asked₂, hrun₂, hb⟩ := run_pushes hash (f := Frontier.empty)
      (Bytes.segments leafSize data) .empty fun b hb => ⟨hshort b hb, hall b hb⟩
    obtain ⟨asked₃, hrun₃, hd⟩ := run_root hash hb
    refine ⟨asked₃, ?_, fun h => hd (hne h)⟩
    rw [StateT.run_bind, hrun₁]
    show (((_ : List Hash256).foldlM (push hash) Frontier.empty) >>= _).run asked₁ = _
    rw [StateT.run_bind, hrun₂]
    exact hrun₃
  · have hempty : Backed hash [] Frontier.empty.roots [] := .empty
    obtain ⟨asked₁, hrun₁, hb⟩ := run_pushLeaves hash (Bytes.segments leafSize data) hempty hshort
    obtain ⟨asked₂, hrun₂, hd⟩ := run_root hash hb
    refine ⟨asked₂, ?_, fun h => hd (hne h)⟩
    rw [StateT.run_bind, hrun₁]
    exact hrun₂

end Asking

theorem derives_rootOf {data : Bytes} (hne : data ≠ []) :
    Derives hash (messages hash data) (Bytes.segments leafSize data) (rootOf hash data) := by
  obtain ⟨asked, hrun, hd⟩ := Asking.run_rootOf hash data
  rw [messages, hrun]
  exact hd hne

end

/-- Recording the messages hashed on the way to a root leaves the root as it is, and if two different
byte strings that are not empty have the same root, a message hashed on the way to the one and a
different message hashed on the way to the other have the same hash. -/
theorem equal_roots_collide (hash : Bytes → Hash256) :
    (∀ data, (Asking.rootOf hash data).run [] = (rootOf hash data, messages hash data)) ∧
    ∀ a b, a ≠ [] → b ≠ [] → a ≠ b → rootOf hash a = rootOf hash b →
      ∃ x ∈ messages hash a, ∃ y ∈ messages hash b,
        Message x ∧ Message y ∧ x ≠ y ∧ hash x = hash y := by
  refine ⟨fun data => ?_, fun a b ha hb hne heq => ?_⟩
  · obtain ⟨asked, hrun, _⟩ := Asking.run_rootOf hash data
    rw [messages, hrun]
  · refine collision_of_derives hash (derives_rootOf hash ha) (derives_rootOf hash hb) heq ?_
    intro hsegments
    apply hne
    rw [← Bytes.flatten_segments leafSize a (by decide), hsegments,
      Bytes.flatten_segments leafSize b (by decide)]

theorem equal_roots_collide_constant :
    (List.replicate 65 7 : Bytes) ≠ [] ∧ ([7] : Bytes) ≠ [] ∧ (List.replicate 65 7 : Bytes) ≠ [7] ∧
      rootOf (fun _ => Hash256.zero) (List.replicate 65 7) = rootOf (fun _ => Hash256.zero) [7] ∧
      ∃ x ∈ messages (fun _ => Hash256.zero) (List.replicate 65 7),
        ∃ y ∈ messages (fun _ => Hash256.zero) [7],
          Message x ∧ Message y ∧ x ≠ y ∧ Hash256.zero = Hash256.zero := by
  have hroot : rootOf (fun _ => Hash256.zero) (List.replicate 65 7) =
      rootOf (fun _ => Hash256.zero) [7] := by decide +kernel
  exact ⟨by decide, by decide, by decide, hroot,
    (equal_roots_collide fun _ => Hash256.zero).2 _ _ (by decide) (by decide) (by decide) hroot⟩

end Reclaim.Merkle

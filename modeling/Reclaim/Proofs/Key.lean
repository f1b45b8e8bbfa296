import Mathlib.Data.List.TakeDrop
import Mathlib.Data.List.TakeWhile
import Reclaim.Key
import Reclaim.Proofs.Text.Hex

/-!
# Hashes and host keys there and back

* `Hash256.Spelled`, `HostKey.Spelled`   the texts of a hash and of a host key;
* `parseBytes_of_spelled`   they are read as it, and so are the digits that are written;
* `HostKey.lt_trans`, `HostKey.lt_of_not_lt`   the order of host keys is strict and total.
-/

namespace Reclaim

theorem parse32_of_lower {s b : Bytes} (h : s.map Hex.lower = Hex.digits b)
    (hb : b.length = 32) : parse32 s = .ok ⟨b, hb⟩ := by
  rw [parse32, Hex.decode_of_lower h]
  simp only
  rw [dif_pos hb]

/-! ## hashes -/

namespace Hash256

/-- the texts of a hash: its digits in either case, with the old mark in front or not -/
inductive Spelled (h : Hash256) : Bytes → Prop where
  | bare {s : Bytes} (hs : s.map Hex.lower = h.digits) : Spelled h s
  | marked {s : Bytes} (hs : s.map Hex.lower = h.digits) : Spelled h (104 :: 58 :: s)

theorem spelled_digits (h : Hash256) : h.Spelled h.digits := .bare (Hex.map_lower_digits _)

/-- a text without the mark stays as it is -/
theorem unmark_of_head {s : Bytes} (h : s.head? ≠ some 104) : unmark s = s := by
  rw [unmark]
  rintro r rfl
  exact h rfl

section
variable {h : Hash256} {t : Bytes}

theorem Spelled.ascii (ht : h.Spelled t) : ∀ x ∈ t, x < 128 := by
  cases ht with
  | bare hs => exact fun x hx => (Hex.ne_of_lower hs x hx).2.2
  | marked hs =>
    rw [List.forall_mem_cons, List.forall_mem_cons]
    exact ⟨by decide, by decide, fun x hx => (Hex.ne_of_lower hs x hx).2.2⟩

theorem parseBytes_of_spelled (ht : h.Spelled t) : parseBytes t = .ok h := by
  cases ht with
  | bare hs =>
    have hmark : t.head? ≠ some 104 := fun e =>
      (Hex.ne_of_lower hs 104 (List.mem_of_mem_head? e)).1 rfl
    rw [parseBytes, unmark_of_head hmark, parse32_of_lower hs h.length_eq]
  | marked hs => rw [parseBytes, unmark, parse32_of_lower hs h.length_eq]

end

theorem parseBytes_digits (h : Hash256) : parseBytes h.digits = .ok h :=
  parseBytes_of_spelled h.spelled_digits

end Hash256

/-! ## host keys -/

namespace HostKey

theorem algorithm_eq : algorithm = [101, 100, 50, 53, 53, 49, 57] :=
  utf8_ascii [101, 100, 50, 53, 53, 49, 57] (by decide +kernel)

/-- the texts of a host key: its digits in either case, with the algorithm in front or not -/
inductive Spelled (k : HostKey) : Bytes → Prop where
  | bare {s : Bytes} (hs : s.map Hex.lower = Hex.digits k.bytes) : Spelled k s
  | named {s : Bytes} (hs : s.map Hex.lower = Hex.digits k.bytes) : Spelled k (algorithm ++ 58 :: s)

theorem spelled_digits (k : HostKey) : k.Spelled k.digits := .named (Hex.map_lower_digits _)

/-- what stands before the first colon -/
theorem span_colon {a : Bytes} (ha : 58 ∉ a) (r : Bytes) :
    (a ++ 58 :: r).span (· != 58) = (a, 58 :: r) := by
  have hne : ∀ x ∈ a, (x != 58) = true := fun x hx => bne_iff_ne.2 (ne_of_mem_of_not_mem hx ha)
  rw [List.span_eq_takeWhile_dropWhile, List.takeWhile_append_of_pos hne,
    List.dropWhile_append_of_pos hne]
  show (a ++ [], 58 :: r) = _
  rw [List.append_nil]

theorem span_bare {s : Bytes} (hs : 58 ∉ s) : s.span (· != 58) = (s, []) := by
  have hne : ∀ x ∈ s, (x != 58) = true := fun x hx => bne_iff_ne.2 (ne_of_mem_of_not_mem hx hs)
  rw [List.span_eq_takeWhile_dropWhile, List.takeWhile_eq_self_iff.2 hne,
    List.dropWhile_eq_nil_iff.2 hne]

theorem span_algorithm (s : Bytes) :
    (algorithm ++ 58 :: s).span (· != 58) = (algorithm, 58 :: s) := by
  refine span_colon ?_ s
  rw [algorithm_eq]
  decide

section
variable {k : HostKey} {t : Bytes}

theorem Spelled.ascii (ht : k.Spelled t) : ∀ x ∈ t, x < 128 := by
  cases ht with
  | bare hs => exact fun x hx => (Hex.ne_of_lower hs x hx).2.2
  | named hs =>
    have hname : ∀ x ∈ algorithm, decide (x < 128) = true := by
      rw [algorithm_eq]
      exact List.all_eq_true.1 rfl
    rw [List.forall_mem_append, List.forall_mem_cons]
    exact ⟨fun x hx => of_decide_eq_true (hname x hx), by decide,
      fun x hx => (Hex.ne_of_lower hs x hx).2.2⟩

theorem parseBytes_of_spelled (ht : k.Spelled t) : parseBytes t = .ok k := by
  cases ht with
  | bare hs =>
    have hcolon : 58 ∉ t := fun h => (Hex.ne_of_lower hs 58 h).2.1 rfl
    rw [parseBytes, span_bare hcolon]
    simp only [parse32_of_lower hs k.length_eq]
    rfl
  | named hs =>
    rw [parseBytes, span_algorithm]
    simp only [if_true, parse32_of_lower hs k.length_eq]
    rfl

end

theorem parseBytes_digits (k : HostKey) : parseBytes k.digits = .ok k :=
  parseBytes_of_spelled k.spelled_digits

/-! ## their order -/

variable {a b c : HostKey}

theorem lt_trans (hab : a < b) (hbc : b < c) : a < c := by
  have hab : a.bytes < b.bytes := hab
  exact List.lt_trans hab hbc

theorem ne_of_lt (h : a < b) : a ≠ b := by
  rintro rfl
  exact List.lt_irrefl a.bytes h

theorem lt_of_not_lt (h : ¬ a < b) (hne : a ≠ b) : b < a := by
  by_contra hba
  exact hne (HostKey.ext (List.le_antisymm hba h))

end HostKey

end Reclaim

import Mathlib.Algebra.BigOperators.Group.List.Basic
import Mathlib.Algebra.Field.Basic
import Mathlib.Tactic.Ring
import Reclaim.Erasure.Field

/-!
# The laws of the field of 256 elements

The product of `Reclaim.Field256` is additive in both factors, and an additive map on bytes is
known once it is known on the eight bytes with a single bit (`eq_of_units`).  So commutativity and
associativity are settled on those, and only the inverse is checked on all bytes.

* `Element` bytes with exclusive or as sum and `mul` as product; an instance of `Field`;
* `byte_prod` the product of a list of elements is `product`.
-/

namespace Reclaim.Field256

/-! ## additive maps on bytes -/

/-- a map that respects exclusive or -/
def Additive (f : UInt8 → UInt8) : Prop := ∀ a b, f (a ^^^ b) = f a ^^^ f b

/-- the bytes with a single bit -/
def units : List UInt8 := [1, 2, 4, 8, 16, 32, 64, 128]

theorem xor_and (a b m : UInt8) : (a ^^^ b) &&& m = (a &&& m) ^^^ (b &&& m) := by
  apply UInt8.toBitVec_inj.1
  apply BitVec.eq_of_getLsbD_eq
  intro i _
  simp only [UInt8.toBitVec_and, UInt8.toBitVec_xor, BitVec.getLsbD_and, BitVec.getLsbD_xor]
  cases a.toBitVec.getLsbD i <;> cases b.toBitVec.getLsbD i <;> simp

theorem xor_xor_xor_comm (a b c d : UInt8) : (a ^^^ b) ^^^ (c ^^^ d) = (a ^^^ c) ^^^ (b ^^^ d) := by
  rw [UInt8.xor_assoc, UInt8.xor_assoc, ← UInt8.xor_assoc b, UInt8.xor_comm b, UInt8.xor_assoc]

theorem and_unit (m : UInt8) (hm : m ∈ units) (a : UInt8) : a &&& m = 0 ∨ a &&& m = m := by
  have all : ∀ m ∈ units, ∀ x : Fin 256, UInt8.ofFin x &&& m = 0 ∨ UInt8.ofFin x &&& m = m := by
    decide +kernel
  exact all m hm a.toFin

theorem unit_ne_zero (m : UInt8) (hm : m ∈ units) : m ≠ 0 := by
  have all : ∀ m ∈ units, m ≠ 0 := by decide +kernel
  exact all m hm

/-- a byte is the sum of its bits -/
theorem sum_units (a : UInt8) : (units.map (a &&& ·)).foldr (· ^^^ ·) 0 = a := by
  have all : ∀ x : Fin 256,
      (units.map (UInt8.ofFin x &&& ·)).foldr (· ^^^ ·) 0 = UInt8.ofFin x := by
    decide +kernel
  exact all a.toFin

theorem Additive.zero {f : UInt8 → UInt8} (hf : Additive f) : f 0 = 0 := by
  have h := hf 0 0
  rwa [UInt8.xor_self, UInt8.xor_self] at h

theorem Additive.comp {f g : UInt8 → UInt8} (hf : Additive f) (hg : Additive g) :
    Additive fun a => f (g a) := by
  intro a b
  show f (g (a ^^^ b)) = _
  rw [hg, hf]

theorem Additive.xor {f g : UInt8 → UInt8} (hf : Additive f) (hg : Additive g) :
    Additive fun a => f a ^^^ g a := by
  intro a b
  show f (a ^^^ b) ^^^ g (a ^^^ b) = _
  rw [hf, hg, xor_xor_xor_comm]

/-- asking for one bit of a byte is additive -/
theorem Additive.ofBit (m : UInt8) (hm : m ∈ units) (x : UInt8) :
    Additive fun a => if a &&& m = 0 then 0 else x := by
  intro a b
  have hne := unit_ne_zero m hm
  show (if (a ^^^ b) &&& m = 0 then 0 else x) = _
  rw [xor_and]
  rcases and_unit m hm a with ha | ha <;> rcases and_unit m hm b with hb | hb <;>
    simp [ha, hb, hne]

theorem Additive.foldr {f : UInt8 → UInt8} (hf : Additive f) (l : List UInt8) :
    f (l.foldr (· ^^^ ·) 0) = (l.map f).foldr (· ^^^ ·) 0 := by
  induction l with
  | nil => exact hf.zero
  | cons x l ih => rw [List.foldr_cons, hf, ih, List.map_cons, List.foldr_cons]

/-- additive maps that agree on single bits are equal -/
theorem eq_of_units {f g : UInt8 → UInt8} (hf : Additive f) (hg : Additive g)
    (h : ∀ m ∈ units, f m = g m) (a : UInt8) : f a = g a := by
  rw [← sum_units a, hf.foldr, hg.foldr, List.map_map, List.map_map]
  congr 1
  apply List.map_congr_left
  intro m hm
  show f (a &&& m) = g (a &&& m)
  rcases and_unit m hm a with e | e
  · rw [e, hf.zero, hg.zero]
  · rw [e, h m hm]

/-! ## the product is additive -/

theorem twice_eq (b : UInt8) : twice b = (b <<< 1) ^^^ (if b &&& 0x80 = 0 then 0 else 0x1d) := by
  unfold twice
  split
  · rw [UInt8.xor_zero]
  · rfl

theorem additive_twice : Additive twice := by
  have h : Additive fun b => (b <<< 1) ^^^ (if b &&& 0x80 = 0 then 0 else 0x1d) :=
    Additive.xor (fun _ _ => UInt8.shiftLeft_xor) (Additive.ofBit 0x80 (by decide) 0x1d)
  intro a b
  rw [twice_eq, twice_eq, twice_eq]
  exact h a b

theorem additive_mulBits_right (n : Nat) (a : UInt8) : Additive (mulBits n a) := by
  induction n generalizing a with
  | zero => exact fun _ _ => UInt8.xor_self.symm
  | succ n ih =>
    refine Additive.xor (f := fun b => if a &&& 1 = 0 then 0 else b) ?_ ((ih _).comp additive_twice)
    intro b c
    by_cases h : a &&& 1 = 0
    · simp only [h, if_true, UInt8.xor_self]
    · simp only [h, if_false]

theorem additive_mulBits_left (n : Nat) (b : UInt8) : Additive fun a => mulBits n a b := by
  induction n generalizing b with
  | zero => exact fun _ _ => UInt8.xor_self.symm
  | succ n ih =>
    exact Additive.xor (Additive.ofBit 1 (by decide) b)
      ((ih (twice b)).comp fun _ _ => UInt8.shiftRight_xor)

theorem additive_mul_right (a : UInt8) : Additive (mul a) := additive_mulBits_right 8 a

theorem additive_mul_left (b : UInt8) : Additive fun a => mul a b := additive_mulBits_left 8 b

protected theorem mul_comm (a b : UInt8) : mul a b = mul b a := by
  refine eq_of_units (additive_mul_left b) (additive_mul_right b) ?_ a
  intro m hm
  refine eq_of_units (additive_mul_right m) (additive_mul_left m) ?_ b
  intro k hk
  have all : ∀ m ∈ units, ∀ k ∈ units, mul m k = mul k m := by decide +kernel
  exact all m hm k hk

protected theorem mul_assoc (a b c : UInt8) : mul (mul a b) c = mul a (mul b c) := by
  refine eq_of_units ((additive_mul_left c).comp (additive_mul_left b))
    (additive_mul_left (mul b c)) ?_ a
  intro m hm
  refine eq_of_units ((additive_mul_left c).comp (additive_mul_right m))
    ((additive_mul_right m).comp (additive_mul_left c)) ?_ b
  intro k hk
  refine eq_of_units (additive_mul_right (mul m k))
    ((additive_mul_right m).comp (additive_mul_right k)) ?_ c
  intro l hl
  have all : ∀ m ∈ units, ∀ k ∈ units, ∀ l ∈ units, mul (mul m k) l = mul m (mul k l) := by
    decide +kernel
  exact all m hm k hk l hl

protected theorem one_mul (a : UInt8) : mul 1 a = a := by
  have same : Additive fun x => x := fun _ _ => rfl
  refine eq_of_units (additive_mul_right 1) same ?_ a
  decide +kernel

theorem square_additive : Additive square := by
  intro a b
  show mul (a ^^^ b) (a ^^^ b) = mul a a ^^^ mul b b
  have hl := additive_mul_left (a ^^^ b) a b
  have ha := additive_mul_right a a b
  have hb := additive_mul_right b a b
  simp only at hl
  rw [hl, ha, hb, Field256.mul_comm b a, xor_xor_xor_comm, ← xor_xor_xor_comm, UInt8.xor_comm (mul a b),
    xor_xor_xor_comm, UInt8.xor_self, UInt8.xor_zero]

theorem idempotent (a : UInt8) (h : mul a a = a) : a = 0 ∨ a = 1 := by
  have all : ∀ x : Fin 256, mul (UInt8.ofFin x) (UInt8.ofFin x) = UInt8.ofFin x →
      UInt8.ofFin x = 0 ∨ UInt8.ofFin x = 1 := by
    decide +kernel
  exact all a.toFin h

/-! ## the field -/

/-- a byte as an element of the field -/
@[ext] structure Element where
  byte : UInt8
deriving DecidableEq

namespace Element

instance : Zero Element := ⟨⟨0⟩⟩
instance : One Element := ⟨⟨1⟩⟩
instance : Add Element := ⟨fun a b => ⟨a.byte ^^^ b.byte⟩⟩
instance : Neg Element := ⟨fun a => a⟩
instance : Sub Element := ⟨fun a b => ⟨a.byte ^^^ b.byte⟩⟩
instance : Mul Element := ⟨fun a b => ⟨mul a.byte b.byte⟩⟩
instance : Inv Element := ⟨fun a => ⟨inv a.byte⟩⟩

@[simp] theorem byte_mul (a b : Element) : (a * b).byte = mul a.byte b.byte := rfl

instance : CommRing Element where
  add_assoc a b c := Element.ext (UInt8.xor_assoc _ _ _)
  zero_add a := Element.ext UInt8.zero_xor
  add_zero a := Element.ext UInt8.xor_zero
  add_comm a b := Element.ext (UInt8.xor_comm _ _)
  nsmul := nsmulRec
  zsmul := zsmulRec
  neg_add_cancel a := Element.ext UInt8.xor_self
  sub_eq_add_neg _ _ := rfl
  mul_assoc a b c := Element.ext (Field256.mul_assoc _ _ _)
  mul_comm a b := Element.ext (Field256.mul_comm _ _)
  one_mul a := Element.ext (Field256.one_mul _)
  mul_one a := Element.ext (by rw [byte_mul, Field256.mul_comm]; exact Field256.one_mul _)
  zero_mul a := Element.ext (additive_mul_left a.byte).zero
  mul_zero a := Element.ext (additive_mul_right a.byte).zero
  left_distrib a b c := Element.ext (additive_mul_right a.byte _ _)
  right_distrib a b c := Element.ext (additive_mul_left c.byte _ _)

theorem byte_sq (a : Element) : (a ^ 2).byte = square a.byte := by
  rw [pow_two]
  rfl

/-- eight squarings lead back to the start: they are additive, and do so for single bits -/
theorem pow_256 (a : Element) : a ^ 256 = a := by
  have hf : Additive fun x => square (square (square (square (square (square (square (square x)))))))
      := by
    have h2 := square_additive.comp square_additive
    have h4 := h2.comp h2
    exact h4.comp h4
  have same : Additive fun x => x := fun _ _ => rfl
  have key := eq_of_units hf same (by decide +kernel) a.byte
  apply Element.ext
  have e : a ^ 256 = (((((((a ^ 2) ^ 2) ^ 2) ^ 2) ^ 2) ^ 2) ^ 2) ^ 2 := by ring
  rw [e]
  simp only [byte_sq]
  exact key

theorem inv_eq_pow (a : Element) : a⁻¹ = a ^ 254 := by
  have e : a ^ 254 = a ^ 2 * ((a ^ 2) ^ 2 * (((a ^ 2) ^ 2) ^ 2 * ((((a ^ 2) ^ 2) ^ 2) ^ 2
      * (((((a ^ 2) ^ 2) ^ 2) ^ 2) ^ 2 * ((((((a ^ 2) ^ 2) ^ 2) ^ 2) ^ 2) ^ 2
      * ((((((a ^ 2) ^ 2) ^ 2) ^ 2) ^ 2) ^ 2) ^ 2))))) := by ring
  rw [e]
  apply Element.ext
  simp only [byte_mul, byte_sq]
  rfl

/-- the 255th power of an element is idempotent, and it is not zero unless the element is -/
theorem mul_inv_of_ne_zero (a : Element) (h : a ≠ 0) : a * a⁻¹ = 1 := by
  have hp : a * a⁻¹ = a ^ 255 := by rw [inv_eq_pow]; ring
  rw [hp]
  have hi : a ^ 255 * a ^ 255 = a ^ 255 :=
    calc a ^ 255 * a ^ 255 = a ^ 256 * a ^ 254 := by ring
      _ = a * a ^ 254 := by rw [pow_256]
      _ = a ^ 255 := by ring
  rcases idempotent (a ^ 255).byte (congrArg Element.byte hi) with h0 | h1
  · exfalso
    have hz : a ^ 255 = 0 := Element.ext h0
    apply h
    calc a = a ^ 256 := (pow_256 a).symm
      _ = a * a ^ 255 := by ring
      _ = 0 := by rw [hz, mul_zero]
  · exact Element.ext h1

instance : Field Element where
  exists_pair_ne := ⟨0, 1, fun h => absurd (congrArg Element.byte h) (by decide)⟩
  mul_inv_cancel := mul_inv_of_ne_zero
  inv_zero := by decide
  nnqsmul := _
  nnqsmul_def := fun _ _ => rfl
  qsmul := _
  qsmul_def := fun _ _ => rfl

/-- the byte as an element is determined by the byte -/
theorem mk_injective : Function.Injective Element.mk := fun _ _ h => congrArg Element.byte h

end Element

theorem byte_prod (l : List UInt8) : (l.map Element.mk).prod = ⟨product l⟩ := by
  induction l with
  | nil => rfl
  | cons x l ih =>
    rw [List.map_cons, List.prod_cons, ih]
    rfl

end Reclaim.Field256

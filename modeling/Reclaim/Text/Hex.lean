import Reclaim.Bytes

/-!
# Hexadecimal

Byte strings written as pairs of hexadecimal digits, high half first.  Digits are written in
lower case and read in either case.

* `decode_digits`   reading what was written gives the bytes back;
* an odd number of digits is reported before any bad digit, and of several bad digits the first
  is reported, with its position.
-/

namespace Reclaim.Hex

inductive Error where
  | oddLength
  | badDigit (byte : UInt8) (index : Nat)
deriving DecidableEq, Repr

/-- the lower-case digit of a number below sixteen -/
def digit (n : Nat) : UInt8 := if n < 10 then UInt8.ofNat (48 + n) else UInt8.ofNat (87 + n)

/-- the value of a digit of either case -/
def digitValue? (c : UInt8) : Option Nat :=
  if 48 ≤ c ∧ c ≤ 57 then some (c.toNat - 48)
  else if 97 ≤ c ∧ c ≤ 102 then some (c.toNat - 87)
  else if 65 ≤ c ∧ c ≤ 70 then some (c.toNat - 55)
  else none

def digits (b : Bytes) : Bytes := b.flatMap fun x => [digit (x.toNat / 16), digit (x.toNat % 16)]

def text (b : Bytes) : String := String.ofList ((digits b).map Char.ofUInt8)

/-- the bytes spelled by pairs of digits, `index` being the place of the first of them -/
def decodeFrom (index : Nat) : Bytes → Except Error Bytes
  | [] => .ok []
  | [_] => .error .oddLength
  | c :: d :: r =>
    match digitValue? c, digitValue? d with
    | none, _ => .error (.badDigit c index)
    | some _, none => .error (.badDigit d (index + 1))
    | some h, some l =>
      match decodeFrom (index + 2) r with
      | .error e => .error e
      | .ok b => .ok (UInt8.ofNat (16 * h + l) :: b)

def decode (s : Bytes) : Except Error Bytes :=
  if s.length % 2 = 1 then .error .oddLength else decodeFrom 0 s

theorem digits_cons (x : UInt8) (b : Bytes) :
    digits (x :: b) = digit (x.toNat / 16) :: digit (x.toNat % 16) :: digits b := rfl

theorem length_digits (b : Bytes) : (digits b).length = 2 * b.length := by
  induction b with
  | nil => rfl
  | cons x b ih => rw [digits_cons, List.length_cons, List.length_cons, ih, List.length_cons]; omega

theorem digitValue_digit (n : Nat) (h : n < 16) : digitValue? (digit n) = some n := by
  have all : ∀ m : Fin 16, digitValue? (digit m.val) = some m.val := by decide
  exact all ⟨n, h⟩

theorem decodeFrom_digits (b : Bytes) (i : Nat) : decodeFrom i (digits b) = .ok b := by
  induction b generalizing i with
  | nil => rfl
  | cons x b ih =>
    have hx := x.toNat_lt
    have hback : UInt8.ofNat (16 * (x.toNat / 16) + x.toNat % 16) = x := by
      rw [Nat.div_add_mod]
      exact UInt8.ofNat_toNat
    rw [digits_cons, decodeFrom, digitValue_digit _ (by omega), digitValue_digit _ (by omega), ih]
    simp only [hback]

theorem decode_digits (b : Bytes) : decode (digits b) = .ok b := by
  have h : ¬ (digits b).length % 2 = 1 := by rw [length_digits]; omega
  rw [decode, if_neg h, decodeFrom_digits]

end Reclaim.Hex

import Mathlib.Data.List.Induction
import Reclaim.Text.Hex
import Reclaim.Proofs.Text.Utf8

/-!
# Hexadecimal digits there and back

* `mem_digits`      the bytes that stand in digits as they are written;
* `text_inj`        different bytes have different digits;
* `decode_of_lower` digits of either case are read as what they spell in lower case;
* `Spells`, `Fault` what a text of digits spells, and what keeps a text from spelling anything;
* `spells_iff_digits` a number of bytes is spelled by twice as many digits and by no other text;
* `fault_or_spells` every text has a fault or spells bytes, and is read accordingly
                    (`decode_of_fault`, `decode_of_spells`).
-/

namespace Reclaim.Hex

theorem mem_digits {b : Bytes} {x : UInt8} (h : x ∈ digits b) : ∃ n < 16, x = digit n := by
  obtain ⟨y, -, hx⟩ := List.mem_flatMap.1 h
  have hy := y.toNat_lt
  rcases List.mem_cons.1 hx with rfl | hx
  · exact ⟨_, by omega, rfl⟩
  · exact ⟨_, Nat.mod_lt _ (by decide), List.mem_singleton.1 hx⟩

theorem digit_ascii (n : Nat) (h : n < 16) : digit n < 128 := by
  have all : ∀ m : Fin 16, digit m.val < 128 := by decide
  exact all ⟨n, h⟩

theorem utf8_text (b : Bytes) : utf8 (text b) = digits b := by
  refine utf8_ascii (digits b) fun x hx => ?_
  obtain ⟨n, hn, rfl⟩ := mem_digits hx
  exact digit_ascii n hn

theorem text_inj {a b : Bytes} (h : text a = text b) : a = b := by
  have hdigits : digits a = digits b := by rw [← utf8_text, h, utf8_text]
  have hdecode := decode_digits a
  rw [hdigits, decode_digits] at hdecode
  exact (Except.ok.inj hdecode).symm

/-! ## digits of either case -/

/-- a digit in lower case, anything else as it is -/
def lower (c : UInt8) : UInt8 := if 65 ≤ c ∧ c ≤ 70 then c + 32 else c

theorem digitValue?_lower (c : UInt8) : digitValue? (lower c) = digitValue? c := by
  have all : ∀ x : Fin 256, digitValue? (lower (UInt8.ofFin x)) = digitValue? (UInt8.ofFin x) := by
    decide +kernel
  exact all c.toFin

theorem map_lower_digits (b : Bytes) : (digits b).map lower = digits b := by
  have all : ∀ m : Fin 16, lower (digit m.val) = digit m.val := by decide
  rw [List.map_congr_left fun x hx => ?_, List.map_id]
  obtain ⟨n, hn, rfl⟩ := mem_digits hx
  exact all ⟨n, hn⟩

theorem decodeFrom_of_lower {s b : Bytes} (h : s.map lower = digits b) (i : Nat) :
    decodeFrom i s = .ok b := by
  induction b generalizing s i with
  | nil =>
    rw [List.map_eq_nil_iff.1 h]
    rfl
  | cons x b ih =>
    have hx := x.toNat_lt
    have hback : UInt8.ofNat (16 * (x.toNat / 16) + x.toNat % 16) = x := by
      rw [Nat.div_add_mod]
      exact UInt8.ofNat_toNat
    rw [digits_cons] at h
    obtain ⟨c, s, rfl, hc, h⟩ := List.map_eq_cons_iff.1 h
    obtain ⟨d, s, rfl, hd, h⟩ := List.map_eq_cons_iff.1 h
    rw [decodeFrom, ← digitValue?_lower c, ← digitValue?_lower d, hc, hd,
      digitValue_digit _ (by omega), digitValue_digit _ (by omega), ih h]
    simp only [hback]

/-- digits of either case spell what they spell in lower case -/
theorem decode_of_lower {s b : Bytes} (h : s.map lower = digits b) : decode s = .ok b := by
  have hlen := congrArg List.length h
  rw [List.length_map, length_digits] at hlen
  rw [decode, if_neg (by omega), decodeFrom_of_lower h]

/-- no digit of either case is the mark of a hash or a colon -/
theorem ne_of_lower {s b : Bytes} (h : s.map lower = digits b) :
    ∀ c ∈ s, c ≠ 104 ∧ c ≠ 58 ∧ c < 128 := by
  have all : ∀ x : Fin 256, (digitValue? (UInt8.ofFin x)).isSome = true →
      UInt8.ofFin x ≠ 104 ∧ UInt8.ofFin x ≠ 58 ∧ UInt8.ofFin x < 128 := by decide +kernel
  intro c hc
  have hlower : lower c ∈ digits b := by
    rw [← h]
    exact List.mem_map_of_mem hc
  obtain ⟨n, hn, e⟩ := mem_digits hlower
  refine all c.toFin ?_
  show (digitValue? c).isSome = true
  rw [← digitValue?_lower, e, digitValue_digit n hn]
  rfl

/-! ## digits as characters -/

/-- the digits in the order of their values -/
def lowerCase : List Char :=
  ['0', '1', '2', '3', '4', '5', '6', '7', '8', '9', 'a', 'b', 'c', 'd', 'e', 'f']

/-- the same, the letters in upper case -/
def upperCase : List Char :=
  ['0', '1', '2', '3', '4', '5', '6', '7', '8', '9', 'A', 'B', 'C', 'D', 'E', 'F']

/-- `c` is the digit of the number `n` in one of its cases -/
def Digit (c : Char) (n : Nat) : Prop := lowerCase[n]? = some c ∨ upperCase[n]? = some c

def IsDigit (c : Char) : Prop := c ∈ lowerCase ∨ c ∈ upperCase

instance (c : Char) : Decidable (IsDigit c) :=
  inferInstanceAs (Decidable (c ∈ lowerCase ∨ c ∈ upperCase))

/-- the bytes spelled by pairs of digits, high half first -/
inductive Spells : List Char → Bytes → Prop where
  | nil : Spells [] []
  | cons {c d : Char} {high low : Nat} {x : UInt8} {t : List Char} {b : Bytes} (hc : Digit c high)
      (hd : Digit d low) (hx : x.toNat = 16 * high + low) (ht : Spells t b) :
      Spells (c :: d :: t) (x :: b)

/-- `t` consists of `n` digits -/
structure Digits (n : Nat) (t : String) : Prop where
  length : t.length = n
  digits : ∀ c ∈ t.toList, IsDigit c

/-- what keeps a text from spelling bytes: an odd number of bytes, or else its first character that
is no digit, reported by the first of its bytes and by the number of bytes in front of it -/
inductive Fault (s : String) : Error → Prop where
  | odd (hodd : (utf8 s).length % 2 = 1) : Fault s .oddLength
  | stray {before after : List Char} {c : Char} {x : UInt8} (heven : (utf8 s).length % 2 = 0)
      (hs : s.toList = before ++ c :: after) (hbefore : ∀ d ∈ before, IsDigit d)
      (hc : ¬IsDigit c) (hx : (String.utf8EncodeChar c).head? = some x) :
      Fault s (.badDigit x (utf8 (String.ofList before)).length)

theorem isDigit_iff (c : Char) : IsDigit c ↔ ∃ n, Digit c n := by
  rw [IsDigit, List.mem_iff_getElem?, List.mem_iff_getElem?, ← exists_or]
  rfl

/-- a digit is one byte of plain ASCII -/
theorem digit_byte {c : Char} {n : Nat} (h : Digit c n) :
    n < 16 ∧ ∃ x < 128, c = Char.ofUInt8 x ∧ lower x = digit n := by
  have all : ∀ cs ∈ [lowerCase, upperCase], ∀ m : Fin cs.length, m.val < 16 ∧
      UInt8.ofNat (cs.get m).toNat < 128 ∧
      cs.get m = Char.ofUInt8 (UInt8.ofNat (cs.get m).toNat) ∧
      lower (UInt8.ofNat (cs.get m).toNat) = digit m.val := by decide
  have hcs : ∃ cs ∈ [lowerCase, upperCase], cs[n]? = some c := by
    rcases h with h | h
    · exact ⟨_, List.mem_cons_self, h⟩
    · exact ⟨_, List.mem_cons_of_mem _ List.mem_cons_self, h⟩
  obtain ⟨cs, hmem, hget⟩ := hcs
  obtain ⟨hn, rfl⟩ := List.getElem?_eq_some_iff.1 hget
  obtain ⟨hlt, hbyte⟩ := all cs hmem ⟨n, hn⟩
  exact ⟨hlt, _, hbyte⟩

theorem isSome_digitValue?_iff (x : UInt8) :
    (digitValue? x).isSome = true ↔ x < 128 ∧ IsDigit (Char.ofUInt8 x) := by
  have all : ∀ x : Fin 256, (digitValue? (UInt8.ofFin x)).isSome = true ↔
      UInt8.ofFin x < 128 ∧ IsDigit (Char.ofUInt8 (UInt8.ofFin x)) := by decide +kernel
  exact all x.toFin

/-! ## what digits spell -/

section
variable {t : List Char} {b : Bytes}

theorem lower_of_spells (h : Spells t b) :
    (t.flatMap String.utf8EncodeChar).map lower = digits b := by
  induction h with
  | nil => rfl
  | @cons c d high low x t b hc hd hx ht ih =>
    obtain ⟨hhigh, y, hy, rfl, hylow⟩ := digit_byte hc
    obtain ⟨hlow, z, hz, rfl, hzlow⟩ := digit_byte hd
    rw [List.flatMap_cons, List.flatMap_cons, utf8EncodeChar_ascii y hy,
      utf8EncodeChar_ascii z hz, List.cons_append, List.nil_append, List.cons_append,
      List.nil_append, List.map_cons, List.map_cons, ih, hylow, hzlow, digits_cons,
      show x.toNat / 16 = high by omega, show x.toNat % 16 = low by omega]

theorem Spells.isDigit (h : Spells t b) : ∀ c ∈ t, IsDigit c := by
  induction h with
  | nil => exact List.forall_mem_nil _
  | cons hc hd _ _ ih =>
    rw [List.forall_mem_cons, List.forall_mem_cons]
    exact ⟨(isDigit_iff _).2 ⟨_, hc⟩, (isDigit_iff _).2 ⟨_, hd⟩, ih⟩

theorem Spells.length (h : Spells t b) : t.length = 2 * b.length := by
  induction h with
  | nil => rfl
  | cons _ _ _ _ ih => rw [List.length_cons, List.length_cons, List.length_cons, ih]; omega

theorem exists_spells (ht : ∀ c ∈ t, IsDigit c) (heven : t.length % 2 = 0) : ∃ b, Spells t b := by
  induction t using List.twoStepInduction with
  | nil => exact ⟨[], .nil⟩
  | singleton c => cases heven
  | cons_cons c d t ih _ =>
    rw [List.forall_mem_cons, List.forall_mem_cons] at ht
    obtain ⟨high, hc⟩ := (isDigit_iff c).1 ht.1
    obtain ⟨low, hd⟩ := (isDigit_iff d).1 ht.2.1
    obtain ⟨b, hb⟩ := ih ht.2.2 (by rw [List.length_cons, List.length_cons] at heven; omega)
    have hhigh := (digit_byte hc).1
    have hlow := (digit_byte hd).1
    have hx : (UInt8.ofNat (16 * high + low)).toNat = 16 * high + low :=
      UInt8.toNat_ofNat_of_lt' (show 16 * high + low < 256 by omega)
    exact ⟨_, .cons hc hd hx hb⟩

theorem spells_iff_digits (n : Nat) (t : String) :
    (∃ b, b.length = n ∧ Spells t.toList b) ↔ Digits (2 * n) t := by
  constructor
  · rintro ⟨b, rfl, hb⟩
    exact ⟨by rw [← String.length_toList, hb.length], hb.isDigit⟩
  · rintro ⟨hlen, hdigits⟩
    rw [← String.length_toList] at hlen
    obtain ⟨b, hb⟩ := exists_spells hdigits (by omega)
    have := hb.length
    exact ⟨b, by omega, hb⟩

theorem length_encode (ht : ∀ c ∈ t, IsDigit c) :
    (t.flatMap String.utf8EncodeChar).length = t.length := by
  induction t with
  | nil => rfl
  | cons c t ih =>
    rw [List.forall_mem_cons] at ht
    obtain ⟨n, hc⟩ := (isDigit_iff c).1 ht.1
    obtain ⟨-, x, hx, rfl, -⟩ := digit_byte hc
    rw [List.flatMap_cons, utf8EncodeChar_ascii x hx, List.length_append, ih ht.2,
      List.length_singleton, List.length_cons, Nat.add_comm]

theorem isSome_of_encode (ht : ∀ c ∈ t, IsDigit c) :
    ∀ x ∈ t.flatMap String.utf8EncodeChar, (digitValue? x).isSome = true := by
  intro x hx
  obtain ⟨c, hc, hx⟩ := List.mem_flatMap.1 hx
  obtain ⟨n, hn⟩ := (isDigit_iff c).1 (ht c hc)
  obtain ⟨-, y, hy, rfl, -⟩ := digit_byte hn
  rw [utf8EncodeChar_ascii y hy, List.mem_singleton] at hx
  subst hx
  exact (isSome_digitValue?_iff x).2 ⟨hy, ht _ hc⟩

end

theorem digitValue?_of_not_isDigit {c : Char} {x : UInt8} (hc : ¬IsDigit c)
    (hx : (String.utf8EncodeChar c).head? = some x) : digitValue? x = none := by
  rw [← Option.not_isSome_iff_eq_none, isSome_digitValue?_iff]
  rintro ⟨hx', hdigit⟩
  rcases encode_cases c with ⟨y, hy, rfl⟩ | hhigh
  · rw [utf8EncodeChar_ascii y hy] at hx
    obtain rfl := Option.some.inj hx
    exact hc hdigit
  · exact absurd hx' (UInt8.not_lt.2 (hhigh x (List.mem_of_mem_head? hx)))

/-! ## reading them

Every text has a fault or spells bytes (`fault_or_spells`), so that it is enough to know what comes
of the one and of the other. -/

/-- the first byte that is no digit is reported -/
theorem decodeFrom_stray {a r : Bytes} {x : UInt8}
    (ha : ∀ y ∈ a, (digitValue? y).isSome = true) (hx : digitValue? x = none)
    (heven : (a ++ x :: r).length % 2 = 0) (i : Nat) :
    decodeFrom i (a ++ x :: r) = .error (.badDigit x (i + a.length)) := by
  -- by pairs, as the digits are read; the even length gives the bad byte a partner behind it
  induction a using List.twoStepInduction generalizing i with
  | nil =>
    cases r with
    | nil => cases heven
    | cons y r =>
      rw [List.nil_append, decodeFrom, hx]
      rfl
  | singleton y =>
    obtain ⟨n, hn⟩ := Option.isSome_iff_exists.1 (ha y (List.mem_singleton_self y))
    rw [List.singleton_append, decodeFrom, hn, hx]
    rfl
  | cons_cons y z a ih _ =>
    rw [List.forall_mem_cons, List.forall_mem_cons] at ha
    obtain ⟨n, hn⟩ := Option.isSome_iff_exists.1 ha.1
    obtain ⟨m, hm⟩ := Option.isSome_iff_exists.1 ha.2.1
    rw [List.cons_append, List.cons_append, List.length_cons, List.length_cons] at heven
    rw [List.cons_append, List.cons_append, decodeFrom, hn, hm, ih ha.2.2 (by omega)]
    simp only [List.length_cons]
    rw [show i + 2 + a.length = i + (a.length + 1 + 1) by omega]

variable {s : String}

theorem decode_of_fault {e : Error} (h : Fault s e) : decode (utf8 s) = .error e := by
  cases h with
  | odd hodd => exact if_pos hodd
  | @stray before after c x heven hs hbefore hc hx =>
    obtain ⟨y, r, hr⟩ := List.exists_cons_of_ne_nil (encode_ne_nil c)
    rw [hr] at hx
    obtain rfl := Option.some.inj hx
    have hbytes : utf8 s = before.flatMap String.utf8EncodeChar ++
        y :: (r ++ after.flatMap String.utf8EncodeChar) := by
      rw [utf8_eq, hs, List.flatMap_append, List.flatMap_cons, hr, List.cons_append]
    have hy : digitValue? y = none := digitValue?_of_not_isDigit hc (by rw [hr]; rfl)
    rw [hbytes] at heven
    rw [decode, hbytes, if_neg (by omega), decodeFrom_stray (isSome_of_encode hbefore) hy heven,
      Nat.zero_add, utf8_ofList]

/-- a text has a fault or spells bytes -/
theorem fault_or_spells (s : String) : (∃ e, Fault s e) ∨ ∃ b, Spells s.toList b := by
  by_cases hodd : (utf8 s).length % 2 = 1
  · exact .inl ⟨_, .odd hodd⟩
  · cases hbad : s.toList.find? fun c => decide ¬IsDigit c with
    | none =>
      have hall : ∀ c ∈ s.toList, IsDigit c := fun c hc =>
        Decidable.not_not.1 fun hn => List.find?_eq_none.1 hbad c hc (decide_eq_true hn)
      rw [utf8_eq, length_encode hall] at hodd
      exact .inr (exists_spells hall (by omega))
    | some c =>
      obtain ⟨hc, before, after, hs, hbefore⟩ := List.find?_eq_some_iff_append.1 hbad
      obtain ⟨x, r, hr⟩ := List.exists_cons_of_ne_nil (encode_ne_nil c)
      have hdigits : ∀ d ∈ before, IsDigit d := fun d hd => by simpa using hbefore d hd
      exact .inl ⟨_, .stray (by omega) hs hdigits (of_decide_eq_true hc) (congrArg List.head? hr)⟩

theorem decode_of_spells {b : Bytes} (h : Spells s.toList b) : decode (utf8 s) = .ok b := by
  rw [utf8_eq]
  exact decode_of_lower (lower_of_spells h)

end Reclaim.Hex

import Mathlib.Logic.Basic
import Reclaim.Json.Parser
import Reclaim.Proofs.Text.Utf8

/-!
# Texts and numbers in JSON

* `Json.Body`            what may stand between quotation marks;
* `scanString_body`      the scanner takes exactly a body;
* `Json.Writes`          the bodies that stand for given bytes;
* `unescape_of_writes`   all of them are read as these bytes;
* `writes_escape`        the escape of a byte string is one of them;
* `nat?_ofNat`           the digits of a number mean the number.
-/

namespace Reclaim.Json

/-! ## the bodies of strings -/

/-- what may stand between quotation marks -/
inductive Body : Bytes → Prop where
  | nil : Body []
  | plain {c : UInt8} {r : Bytes} (hc : ¬ c < 32) (hmark : c ≠ 34) (hslash : c ≠ 92)
      (h : Body r) : Body (c :: r)
  | short {e : UInt8} {r : Bytes} (he : e ∈ shortEscapes.map Prod.fst) (h : Body r) :
      Body (92 :: e :: r)
  | code {a b c d : UInt8} {r : Bytes} (ha : isHexDigit a = true) (hb : isHexDigit b = true)
      (hc : isHexDigit c = true) (hd : isHexDigit d = true) (h : Body r) :
      Body (92 :: 117 :: a :: b :: c :: d :: r)

theorem scanString_plain {c : UInt8} (hc : ¬ c < 32) (hmark : c ≠ 34) (hslash : c ≠ 92)
    (r : Bytes) : scanString (c :: r) = (scanString r).map fun t => (c :: t.1, t.2) := by
  rw [scanString]
  · simp only [hc, hslash, decide_false, Bool.or_self, Bool.false_eq_true, if_false]
  · exact fun h => hmark h
  · intro a b c' d r' h
    exact absurd h hslash
  · intro e r' h
    exact absurd h hslash

theorem scanString_short {e : UInt8} (he : e ∈ shortEscapes.map Prod.fst) (r : Bytes) :
    scanString (92 :: e :: r) = (scanString r).map fun t => (92 :: e :: t.1, t.2) := by
  have hne : e ≠ 117 := by
    rintro rfl
    revert he
    decide
  have hany : (shortEscapes.any fun t => t.1 = e) = true := by
    obtain ⟨t, ht, rfl⟩ := List.mem_map.1 he
    exact List.any_eq_true.2 ⟨t, ht, decide_eq_true rfl⟩
  rw [scanString]
  · rw [if_pos hany]
  · intro a b c d r' h
    exact absurd h hne

theorem scanString_body {b : Bytes} (h : Body b) (r : Bytes) :
    scanString (b ++ 34 :: r) = some (b, r) := by
  induction h with
  | nil => rw [List.nil_append, scanString]
  | plain hc hmark hslash _ ih =>
    rw [List.cons_append, scanString_plain hc hmark hslash, ih]
    rfl
  | short he _ ih =>
    rw [List.cons_append, List.cons_append, scanString_short he, ih]
    rfl
  | code ha hb hc hd _ ih =>
    simp only [List.cons_append]
    rw [scanString, ha, hb, hc, hd, ih]
    rfl

/-! ## escapes -/

theorem escape_cons (c : UInt8) (b : Bytes) : escape (c :: b) = escapeByte c ++ escape b := rfl

/-- the three ways in which a byte is written between quotation marks -/
theorem escapeByte_cases (c : UInt8) :
    (∃ e, (e, c) ∈ shortEscapes ∧ escapeByte c = [92, e]) ∨
      (c < 32 ∧ escapeByte c =
        [92, 117, 48, 48, Hex.digit (c.toNat / 16), Hex.digit (c.toNat % 16)]) ∨
      (¬ c < 32 ∧ c ≠ 34 ∧ c ≠ 92 ∧ escapeByte c = [c]) := by
  unfold escapeByte
  split
  · next h => exact .inl ⟨34, by subst h; decide, rfl⟩
  split
  · next h => exact .inl ⟨92, by subst h; decide, rfl⟩
  split
  · next h => exact .inl ⟨98, by subst h; decide, rfl⟩
  split
  · next h => exact .inl ⟨102, by subst h; decide, rfl⟩
  split
  · next h => exact .inl ⟨110, by subst h; decide, rfl⟩
  split
  · next h => exact .inl ⟨114, by subst h; decide, rfl⟩
  split
  · next h => exact .inl ⟨116, by subst h; decide, rfl⟩
  split
  · next h => exact .inr (.inl ⟨h, rfl⟩)
  · next hmark hslash _ _ _ _ _ h => exact .inr (.inr ⟨h, hmark, hslash, rfl⟩)

theorem shortEscapes_fst :
    (shortEscapes.all fun t => t.1 ≠ 117 ∧ (shortEscapes.find? fun u => u.1 = t.1) = some t) =
      true := by decide

theorem unescape_short {e c : UInt8} (he : (e, c) ∈ shortEscapes) (r : Bytes) :
    unescape (92 :: e :: r) = (unescape r).map (c :: ·) := by
  obtain ⟨hne, hfind⟩ := of_decide_eq_true (List.all_eq_true.1 shortEscapes_fst (e, c) he)
  rw [unescape]
  · rw [hfind]
  · intro a b c d r' h
    exact absurd h hne

theorem fourDigits_byte (c : UInt8) :
    fourDigits? 48 48 (Hex.digit (c.toNat / 16)) (Hex.digit (c.toNat % 16)) = some c.toNat := by
  have hlt := c.toNat_lt
  have hzero : Hex.digitValue? 48 = some 0 := by decide
  rw [fourDigits?, hzero, Hex.digitValue_digit _ (by omega), Hex.digitValue_digit _ (by omega)]
  simp only [Option.some.injEq]
  omega

theorem codePoint_control (c : UInt8) (h : c < 32) : codePoint c.toNat = [c] := by
  have all : ∀ m : Fin 32, codePoint m.val = [UInt8.ofNat m.val] := by decide
  have := all ⟨c.toNat, h⟩
  rw [UInt8.ofNat_toNat] at this
  exact this

theorem unescape_plain {c : UInt8} (hslash : c ≠ 92) (r : Bytes) :
    unescape (c :: r) = (unescape r).map (c :: ·) := by
  rw [unescape]
  · rw [if_neg hslash]
  · intro a b c' d r' h
    exact absurd h hslash
  · intro e r' h
    exact absurd h hslash

/-! ## the ways to write a text -/

/-- the body `b` of a string stands for the bytes `t`; a character beyond the first 65536 is
escaped as a pair of surrogates -/
inductive Writes : Bytes → Bytes → Prop where
  | nil : Writes [] []
  | plain {x : UInt8} {b t : Bytes} (hx : ¬x < 32) (hmark : x ≠ 34) (hslash : x ≠ 92)
      (h : Writes b t) : Writes (x :: b) (x :: t)
  | short {e x : UInt8} {b t : Bytes} (he : (e, x) ∈ shortEscapes) (h : Writes b t) :
      Writes (92 :: e :: b) (x :: t)
  | code {p q r s : UInt8} {n : Nat} {b t : Bytes} (hn : fourDigits? p q r s = some n)
      (hchar : n < 0xd800 ∨ 0xe000 ≤ n) (h : Writes b t) :
      Writes (92 :: 117 :: p :: q :: r :: s :: b) (codePoint n ++ t)
  | pair {p q r s p' q' r' s' : UInt8} {n m : Nat} {b t : Bytes}
      (hn : fourDigits? p q r s = some n) (hm : fourDigits? p' q' r' s' = some m)
      (hhigh : 0xd800 ≤ n ∧ n < 0xdc00) (hlow : 0xdc00 ≤ m ∧ m < 0xe000) (h : Writes b t) :
      Writes (92 :: 117 :: p :: q :: r :: s :: 92 :: 117 :: p' :: q' :: r' :: s' :: b)
        (codePoint (0x10000 + (n - 0xd800) * 0x400 + (m - 0xdc00)) ++ t)

section
variable {b t : Bytes}

theorem isHexDigit_of_fourDigits? {p q r s : UInt8} {n : Nat} (h : fourDigits? p q r s = some n) :
    isHexDigit p = true ∧ isHexDigit q = true ∧ isHexDigit r = true ∧ isHexDigit s = true := by
  unfold fourDigits? at h
  split at h
  · next hp hq hr hs =>
    unfold isHexDigit
    rw [hp, hq, hr, hs]
    exact ⟨rfl, rfl, rfl, rfl⟩
  · cases h

/-- what writes bytes is the body of a string -/
theorem Writes.body (h : Writes b t) : Body b := by
  induction h with
  | nil => exact .nil
  | plain hx hmark hslash _ ih => exact .plain hx hmark hslash ih
  | short he _ ih => exact .short (List.mem_map.2 ⟨_, he, rfl⟩) ih
  | code hn _ _ ih =>
    obtain ⟨hp, hq, hr, hs⟩ := isHexDigit_of_fourDigits? hn
    exact .code hp hq hr hs ih
  | pair hn hm _ _ _ ih =>
    obtain ⟨hp, hq, hr, hs⟩ := isHexDigit_of_fourDigits? hn
    obtain ⟨hp', hq', hr', hs'⟩ := isHexDigit_of_fourDigits? hm
    exact .code hp hq hr hs (.code hp' hq' hr' hs' ih)

/-- what writes bytes is read as them -/
theorem unescape_of_writes (h : Writes b t) : unescape b = some t := by
  induction h with
  | nil => rfl
  | plain _ _ hslash _ ih =>
    rw [unescape_plain hslash, ih]
    rfl
  | short he _ ih =>
    rw [unescape_short he, ih]
    rfl
  | code hn hchar _ ih =>
    rw [unescape, hn]
    simp only
    rw [if_neg (by omega), if_neg (by omega), ih]
    rfl
  | pair hn hm hhigh hlow _ ih =>
    rw [unescape, hn]
    simp only
    rw [if_pos hhigh, hm]
    simp only
    rw [if_pos hlow, ih]
    rfl

theorem bodyText?_of_writes {s : String} (h : Writes b (utf8 s)) : bodyText? b = some s := by
  rw [bodyText?, unescape_of_writes h]
  exact text?_utf8 s

/-- the escape of a byte string is one way to write it -/
theorem writes_escape (t : Bytes) : Writes (escape t) t := by
  induction t with
  | nil => exact .nil
  | cons x t ih =>
    rw [escape_cons]
    rcases escapeByte_cases x with ⟨e, he, hx⟩ | ⟨hc, hx⟩ | ⟨hc, hmark, hslash, hx⟩
    · rw [hx]
      exact .short he ih
    · have hlt : x.toNat < 32 := hc
      have hcode := Writes.code (fourDigits_byte x) (.inl (by omega)) ih
      rw [codePoint_control x hc] at hcode
      rw [hx]
      exact hcode
    · rw [hx]
      exact .plain hc hmark hslash ih

end

theorem body_escape (b : Bytes) : Body (escape b) := (writes_escape b).body

theorem bodyText?_escape (s : String) : bodyText? (escape (utf8 s)) = some s :=
  bodyText?_of_writes (writes_escape _)

theorem text?_ofText (s : String) : (ofText s).text? = some s := bodyText?_escape s

/-! ## numbers -/

/-- whether a byte may stand in a number literal behind its first digit -/
def inNumber (c : UInt8) : Bool := isDigit c || c = 46 || c = 101 || c = 69

/-- a number literal ends before `r` -/
def Stops (r : Bytes) : Prop := ∀ c ∈ r.head?, inNumber c = false

theorem stops_nil : Stops [] := by
  intro c h
  cases h

theorem stops_cons {c : UInt8} (h : inNumber c = false) (r : Bytes) : Stops (c :: r) := by
  intro x hx
  obtain rfl : c = x := Option.some.inj hx
  exact h

theorem Stops.head {c : UInt8} {r : Bytes} (h : Stops (c :: r)) :
    isDigit c = false ∧ c ≠ 46 ∧ c ≠ 101 ∧ c ≠ 69 := by
  have hc := h c rfl
  simp only [inNumber, Bool.or_eq_false_iff, decide_eq_false_iff_not] at hc
  obtain ⟨⟨⟨hd, hp⟩, he⟩, hE⟩ := hc
  exact ⟨hd, hp, he, hE⟩

/-- the digit of a number below ten -/
theorem digit_spec (n : Nat) (h : n < 10) :
    isDigit (UInt8.ofNat (48 + n)) = true ∧ (UInt8.ofNat (48 + n)).toNat = 48 + n := by
  have all : ∀ m : Fin 10, isDigit (UInt8.ofNat (48 + m.val)) = true ∧
      (UInt8.ofNat (48 + m.val)).toNat = 48 + m.val := by decide
  exact all ⟨n, h⟩

theorem isDigit_of_mem_decimal (n : Nat) : ∀ c ∈ decimal n, isDigit c = true := by
  fun_induction decimal n with
  | case1 n h =>
    intro c hc
    rw [List.mem_singleton.1 hc]
    exact (digit_spec n h).1
  | case2 n h ih =>
    intro c hc
    rcases List.mem_append.1 hc with hc | hc
    · exact ih c hc
    · rw [List.mem_singleton.1 hc]
      exact (digit_spec (n % 10) (Nat.mod_lt n (by decide))).1

/-- a number has a digit in front, and no zero in front of further ones -/
theorem decimal_eq_cons (n : Nat) :
    ∃ c r, decimal n = c :: r ∧ isDigit c = true ∧ (c = 48 → n = 0 ∧ r = []) := by
  fun_induction decimal n with
  | case1 n h =>
    refine ⟨_, [], rfl, (digit_spec n h).1, fun e => ⟨?_, rfl⟩⟩
    have := (digit_spec n h).2
    rw [e] at this
    have h48 : (48 : UInt8).toNat = 48 := rfl
    omega
  | case2 n h ih =>
    obtain ⟨c, r, e, hd, hz⟩ := ih
    rw [e]
    refine ⟨c, _, rfl, hd, fun e' => ?_⟩
    have := (hz e').1
    omega

theorem length_decimal_le (n m : Nat) (h : n ≤ m) : (decimal n).length ≤ (decimal m).length := by
  induction m using Nat.strongRecOn generalizing n with
  | ind m ih =>
    by_cases hn : n < 10
    · rw [decimal, if_pos hn]
      obtain ⟨c, r, e, _⟩ := decimal_eq_cons m
      rw [e]
      exact Nat.succ_le_succ (Nat.zero_le _)
    · have hm : ¬ m < 10 := by omega
      have := ih (m / 10) (by omega) (n / 10) (Nat.div_le_div_right h)
      rw [decimal.eq_def n, if_neg hn, decimal.eq_def m, if_neg hm, List.length_append,
        List.length_append]
      exact Nat.add_le_add_right this 1

theorem digitsFrom?_append (n : Nat) (a b : Bytes) :
    digitsFrom? n (a ++ b) = (digitsFrom? n a).bind fun m => digitsFrom? m b := by
  induction a generalizing n with
  | nil => rfl
  | cons c a ih =>
    rw [List.cons_append, digitsFrom?, digitsFrom?]
    split
    · exact ih _
    · rfl

theorem digitsFrom?_digit (m n : Nat) (h : n < 10) :
    digitsFrom? m [UInt8.ofNat (48 + n)] = some (m * 10 + n) := by
  obtain ⟨hd, he⟩ := digit_spec n h
  rw [isDigit, Bool.and_eq_true, decide_eq_true_eq, decide_eq_true_eq] at hd
  rw [digitsFrom?, if_pos hd, digitsFrom?, he]
  congr 2
  omega

theorem digitsFrom?_decimal (n : Nat) : digitsFrom? 0 (decimal n) = some n := by
  fun_induction decimal n with
  | case1 n h =>
    rw [digitsFrom?_digit 0 n h, Nat.zero_mul, Nat.zero_add]
  | case2 n h ih =>
    rw [digitsFrom?_append, ih]
    show digitsFrom? (n / 10) [UInt8.ofNat (48 + n % 10)] = some n
    rw [digitsFrom?_digit _ _ (Nat.mod_lt n (by decide))]
    congr 1
    omega

theorem digitsValue?_decimal (n : Nat) : digitsValue? (decimal n) = some n := by
  obtain ⟨c, r, e, _⟩ := decimal_eq_cons n
  have hne : ¬ (decimal n).isEmpty = true := by
    rw [e]
    exact Bool.false_ne_true
  rw [digitsValue?, if_neg hne]
  exact digitsFrom?_decimal n

theorem nat?_ofNat {n bound : Nat} (h : n < bound) : nat? bound (ofNat n) = some n := by
  rw [ofNat, nat?, digitsValue?_decimal]
  exact if_pos h

theorem int?_ofNat {n bound : Nat} (h : n < bound) : int? bound (ofNat n) = some (n : Int) := by
  rw [int?, nat?_ofNat h]
  intro digits e
  obtain ⟨c, r, e', hd, _⟩ := decimal_eq_cons n
  have hn : decimal n = 45 :: digits := Json.number.inj e
  obtain rfl : c = 45 := (List.cons.inj (e'.symm.trans hn)).1
  revert hd
  decide

end Reclaim.Json

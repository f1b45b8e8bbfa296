import Reclaim.Proofs.Json.Scalars

/-!
# Number literals

* `Numeral`             what is a number in a document: a sign or none, a whole part, and a fraction
                        and an exponent or not;
* `scanNumber_numeral`  the scanner takes exactly a number;
* `numeral_decimal`     the digits of a natural number are one.
-/

namespace Reclaim.Json

/-! ## the grammar -/

/-- digits, at least one -/
structure Digits (b : Bytes) : Prop where
  some : b ≠ []
  all : ∀ c ∈ b, isDigit c = true

/-- the whole part of a number: a zero alone, or digits that begin with none -/
inductive Whole : Bytes → Prop where
  | zero : Whole [48]
  | more {b : Bytes} (h : Digits b) (hz : b.head? ≠ some 48) : Whole b

inductive Fraction : Bytes → Prop where
  | none : Fraction []
  | point {b : Bytes} (h : Digits b) : Fraction (46 :: b)

inductive Exponent : Bytes → Prop where
  | none : Exponent []
  | plain {e : UInt8} {b : Bytes} (he : e = 101 ∨ e = 69) (h : Digits b) : Exponent (e :: b)
  | signed {e s : UInt8} {b : Bytes} (he : e = 101 ∨ e = 69) (hs : s = 43 ∨ s = 45)
      (h : Digits b) : Exponent (e :: s :: b)

/-- a number as it may stand in a document -/
inductive Numeral : Bytes → Prop where
  | plain {w f e : Bytes} (hw : Whole w) (hf : Fraction f) (he : Exponent e) :
      Numeral (w ++ (f ++ e))
  | minus {w f e : Bytes} (hw : Whole w) (hf : Fraction f) (he : Exponent e) :
      Numeral (45 :: (w ++ (f ++ e)))

/-! ## the parts -/

variable {b w f e r : Bytes}

/-- digits end before `r` -/
def Halts (r : Bytes) : Prop := ∀ c ∈ r.head?, isDigit c = false

theorem Stops.halts (h : Stops r) : Halts r := by
  cases r with
  | nil => exact fun c hc => by cases hc
  | cons c r =>
    intro x hx
    obtain rfl : c = x := Option.some.inj hx
    exact h.head.1

theorem halts_cons {c : UInt8} (h : isDigit c = false) (r : Bytes) : Halts (c :: r) := by
  intro x hx
  obtain rfl : c = x := Option.some.inj hx
  exact h

theorem Digits.eq_cons (h : Digits b) : ∃ c t, b = c :: t ∧ isDigit c = true := by
  cases b with
  | nil => exact absurd rfl h.some
  | cons c t => exact ⟨c, t, rfl, h.all c List.mem_cons_self⟩

theorem Whole.eq_cons (h : Whole w) : ∃ c t, w = c :: t ∧ isDigit c = true := by
  cases h with
  | zero => exact ⟨48, [], rfl, by decide⟩
  | more h _ => exact h.eq_cons

theorem scanDigits_append (h : Digits b) (hr : Halts r) : scanDigits (b ++ r) = some (b, r) := by
  have htake : r.takeWhile isDigit = [] ∧ r.dropWhile isDigit = r := by
    cases r with
    | nil => exact ⟨rfl, rfl⟩
    | cons c r =>
      have hc : ¬ isDigit c = true := by
        rw [hr c rfl]
        exact Bool.false_ne_true
      exact ⟨List.takeWhile_cons_of_neg hc, List.dropWhile_cons_of_neg hc⟩
  rw [scanDigits, List.takeWhile_append_of_pos h.all, List.dropWhile_append_of_pos h.all, htake.1,
    htake.2, List.append_nil, if_neg]
  exact fun he => h.some (List.isEmpty_iff.1 he)

theorem scanWhole_append (h : Whole w) (hr : Halts r) : scanWhole (w ++ r) = some (w, r) := by
  cases h with
  | zero => rfl
  | more h hz =>
    rw [← scanDigits_append h hr, scanWhole]
    intro r' e
    obtain ⟨c, t, rfl, -⟩ := h.eq_cons
    exact hz (congrArg some (List.cons.inj e).1)

theorem scanFraction_append (h : Fraction f) (hr : Halts r) (hp : r.head? ≠ some 46) :
    scanFraction (f ++ r) = some (f, r) := by
  cases h with
  | none =>
    rw [List.nil_append, scanFraction]
    rintro r' rfl
    exact hp rfl
  | point h =>
    rw [List.cons_append, scanFraction, scanDigits_append h hr]
    rfl

theorem scanSigned_digits (h : Digits b) (hr : Halts r) : scanSigned (b ++ r) = some (b, r) := by
  rw [← scanDigits_append h hr]
  obtain ⟨c, t, rfl, hc⟩ := h.eq_cons
  have hne : ¬(decide (c = 43) || decide (c = 45)) = true := by
    rw [Bool.or_eq_true, decide_eq_true_eq, decide_eq_true_eq]
    rintro (rfl | rfl)
    · exact absurd hc (by decide)
    · exact absurd hc (by decide)
  rw [List.cons_append, scanSigned, if_neg hne]

theorem scanSigned_sign {s : UInt8} (hs : s = 43 ∨ s = 45) (h : Digits b) (hr : Halts r) :
    scanSigned (s :: (b ++ r)) = some (s :: b, r) := by
  have hsign : (decide (s = 43) || decide (s = 45)) = true := by
    rw [Bool.or_eq_true, decide_eq_true_eq, decide_eq_true_eq]
    exact hs
  rw [scanSigned, if_pos hsign, scanDigits_append h hr]
  rfl

theorem scanExponent_append (h : Exponent e) (hr : Stops r) :
    scanExponent (e ++ r) = some (e, r) := by
  have hletter : ∀ {c : UInt8}, c = 101 ∨ c = 69 →
      (decide (c = 101) || decide (c = 69)) = true := fun hc => by
    rw [Bool.or_eq_true, decide_eq_true_eq, decide_eq_true_eq]
    exact hc
  cases h with
  | none =>
    cases r with
    | nil => rfl
    | cons c r =>
      rw [List.nil_append, scanExponent, if_neg]
      simp only [Bool.or_eq_true, decide_eq_true_eq, not_or]
      exact hr.head.2.2
  | plain he h =>
    rw [List.cons_append, scanExponent, if_pos (hletter he), scanSigned_digits h hr.halts]
    rfl
  | signed he hs h =>
    rw [List.cons_append, List.cons_append, scanExponent, if_pos (hletter he),
      scanSigned_sign hs h hr.halts]
    rfl

/-! ## the whole -/

/-- behind the whole part digits end, and so they do behind the fraction -/
theorem Exponent.halts (h : Exponent e) (hr : Stops r) :
    Halts (e ++ r) ∧ (e ++ r).head? ≠ some 46 := by
  have hletter : ∀ {c : UInt8} (t : Bytes), c = 101 ∨ c = 69 →
      Halts (c :: t) ∧ (c :: t).head? ≠ some 46 := by
    rintro c t (rfl | rfl)
    · exact ⟨halts_cons (by decide) t, fun h => absurd (Option.some.inj h) (by decide)⟩
    · exact ⟨halts_cons (by decide) t, fun h => absurd (Option.some.inj h) (by decide)⟩
  cases h with
  | none =>
    refine ⟨hr.halts, ?_⟩
    cases r with
    | nil => exact fun h => by cases h
    | cons c r => exact fun h => hr.head.2.1 (Option.some.inj h)
  | plain he _ => exact hletter _ he
  | signed he _ _ => exact hletter _ he

theorem Fraction.halts (h : Fraction f) (he : Exponent e) (hr : Stops r) :
    Halts (f ++ (e ++ r)) := by
  cases h with
  | none => exact (he.halts hr).1
  | point _ => exact halts_cons (by decide) _

theorem scanUnsigned_append (hw : Whole w) (hf : Fraction f) (he : Exponent e) (hr : Stops r) :
    scanUnsigned (w ++ (f ++ (e ++ r))) = some (w ++ (f ++ e), r) := by
  obtain ⟨hhalts, hpoint⟩ := he.halts hr
  simp only [scanUnsigned, scanWhole_append hw (hf.halts he hr),
    scanFraction_append hf hhalts hpoint, scanExponent_append he hr, List.append_assoc]

theorem Numeral.eq_cons (h : Numeral b) : ∃ c t, b = c :: t ∧ (isDigit c = true ∨ c = 45) := by
  cases h with
  | plain hw _ _ =>
    obtain ⟨c, t, rfl, hc⟩ := hw.eq_cons
    exact ⟨c, _, rfl, .inl hc⟩
  | minus => exact ⟨45, _, rfl, .inr rfl⟩

/-- the scanner takes exactly a number -/
theorem scanNumber_numeral (h : Numeral b) (hr : Stops r) : scanNumber (b ++ r) = some (b, r) := by
  cases h with
  | plain hw hf he =>
    rw [List.append_assoc, List.append_assoc, ← scanUnsigned_append hw hf he hr]
    obtain ⟨c, t, rfl, hc⟩ := hw.eq_cons
    rw [List.cons_append, scanNumber]
    intro r' e'
    obtain rfl : c = 45 := (List.cons.inj e').1
    exact absurd hc (by decide)
  | minus hw hf he =>
    rw [List.cons_append, List.append_assoc, List.append_assoc, scanNumber,
      scanUnsigned_append hw hf he hr]
    rfl

/-! ## natural numbers -/

theorem digits_decimal (n : Nat) : Digits (decimal n) := by
  refine ⟨?_, isDigit_of_mem_decimal n⟩
  obtain ⟨c, t, e, -⟩ := decimal_eq_cons n
  rw [e]
  exact List.cons_ne_nil c t

/-- the digits of a natural number are a number -/
theorem numeral_decimal (n : Nat) : Numeral (decimal n) := by
  have hwhole : Whole (decimal n) := by
    obtain ⟨c, t, e, -, hz⟩ := decimal_eq_cons n
    by_cases hc : c = 48
    · rw [e, (hz hc).2, hc]
      exact .zero
    · refine .more (digits_decimal n) ?_
      rw [e]
      exact fun h => hc (Option.some.inj h)
  have := Numeral.plain hwhole .none .none
  rwa [List.append_nil, List.append_nil] at this

end Reclaim.Json

import Reclaim.Json.Value

/-!
# Reading JSON

The reader keeps the arrays and objects it is inside of on a stack of its own, so that values may
nest to any depth.

* `blank`, `scanString`, `scanNumber`, `scan` the pieces a document is made of, each returning what
  follows it (`scan_lt`: something is always used up);
* `Json.parseFront` one value at the front of a document and what follows it;
* `Json.parse` one value with nothing but white space around it.
-/

namespace Reclaim.Json

/-- space, tab and the two line ends -/
def isBlank (c : UInt8) : Bool := c = 32 || c = 9 || c = 10 || c = 13

/-- a document without the white space in front -/
def blank (b : Bytes) : Bytes := b.dropWhile isBlank

theorem length_blank (b : Bytes) : (blank b).length ≤ b.length :=
  (List.dropWhile_sublist isBlank).length_le

/-! ## strings and numbers -/

def isHexDigit (c : UInt8) : Bool := (Hex.digitValue? c).isSome

/-- the body of a string whose opening mark is behind us, and what follows its closing mark -/
def scanString : Bytes → Option (Bytes × Bytes)
  | [] => none
  | 34 :: r => some ([], r)
  | 92 :: 117 :: a :: b :: c :: d :: r =>
    if isHexDigit a && isHexDigit b && isHexDigit c && isHexDigit d then
      (scanString r).map fun t => (92 :: 117 :: a :: b :: c :: d :: t.1, t.2)
    else none
  | 92 :: e :: r =>
    if shortEscapes.any fun t => t.1 = e then (scanString r).map fun t => (92 :: e :: t.1, t.2)
    else none
  | c :: r => if c < 32 || c = 92 then none else (scanString r).map fun t => (c :: t.1, t.2)

theorem scanString_lt (b : Bytes) : ∀ t, scanString b = some t → t.2.length < b.length := by
  fun_induction scanString b with
  | case1 => intro t h; cases h
  | case2 r => intro t h; cases h; exact Nat.lt_succ_self _
  | case3 a b c d r _ ih =>
    intro t h
    obtain ⟨u, hu, rfl⟩ := Option.map_eq_some_iff.1 h
    have := ih u hu
    simp only [List.length_cons]
    omega
  | case4 => intro t h; cases h
  | case5 e r _ _ ih =>
    intro t h
    obtain ⟨u, hu, rfl⟩ := Option.map_eq_some_iff.1 h
    have := ih u hu
    simp only [List.length_cons]
    omega
  | case6 => intro t h; cases h
  | case7 => intro t h; cases h
  | case8 c r _ _ _ _ ih =>
    intro t h
    obtain ⟨u, hu, rfl⟩ := Option.map_eq_some_iff.1 h
    have := ih u hu
    simp only [List.length_cons]
    omega

def isDigit (c : UInt8) : Bool := 48 ≤ c && c ≤ 57

/-- the digits in front, at least one of them -/
def scanDigits (b : Bytes) : Option (Bytes × Bytes) :=
  if (b.takeWhile isDigit).isEmpty then none else some (b.takeWhile isDigit, b.dropWhile isDigit)

/-- the whole part of a number: a zero alone, or digits that begin with none -/
def scanWhole : Bytes → Option (Bytes × Bytes)
  | 48 :: r => some ([48], r)
  | b => scanDigits b

/-- the fraction of a number, if a point follows -/
def scanFraction : Bytes → Option (Bytes × Bytes)
  | 46 :: r => (scanDigits r).map fun t => (46 :: t.1, t.2)
  | b => some ([], b)

/-- the digits of an exponent with or without sign -/
def scanSigned : Bytes → Option (Bytes × Bytes)
  | c :: r =>
    if c = 43 || c = 45 then (scanDigits r).map fun t => (c :: t.1, t.2) else scanDigits (c :: r)
  | [] => none

/-- the exponent of a number, if its letter follows -/
def scanExponent : Bytes → Option (Bytes × Bytes)
  | c :: r =>
    if c = 101 || c = 69 then (scanSigned r).map fun t => (c :: t.1, t.2) else some ([], c :: r)
  | [] => some ([], [])

def scanUnsigned (b : Bytes) : Option (Bytes × Bytes) :=
  match scanWhole b with
  | none => none
  | some (w, r) =>
    match scanFraction r with
    | none => none
    | some (f, r') =>
      match scanExponent r' with
      | none => none
      | some (e, r'') => some (w ++ f ++ e, r'')

/-- a number literal and what follows it -/
def scanNumber : Bytes → Option (Bytes × Bytes)
  | 45 :: r => (scanUnsigned r).map fun t => (45 :: t.1, t.2)
  | b => scanUnsigned b

theorem scanDigits_lt (b : Bytes) (t : Bytes × Bytes) (h : scanDigits b = some t) :
    t.2.length < b.length := by
  unfold scanDigits at h
  split at h
  · cases h
  · next hne =>
    cases h
    have hs : b.takeWhile isDigit ++ b.dropWhile isDigit = b := List.takeWhile_append_dropWhile
    have hl := congrArg List.length hs
    rw [List.length_append] at hl
    have : (b.takeWhile isDigit).length ≠ 0 := by
      intro e
      exact hne (by rw [List.length_eq_zero_iff.1 e]; rfl)
    simp only
    omega

theorem scanWhole_lt (b : Bytes) (t : Bytes × Bytes) (h : scanWhole b = some t) :
    t.2.length < b.length := by
  unfold scanWhole at h
  split at h
  · cases h
    exact Nat.lt_succ_self _
  · exact scanDigits_lt _ _ h

theorem scanFraction_le (b : Bytes) (t : Bytes × Bytes) (h : scanFraction b = some t) :
    t.2.length ≤ b.length := by
  unfold scanFraction at h
  split at h
  · next r =>
    obtain ⟨u, hu, rfl⟩ := Option.map_eq_some_iff.1 h
    have := scanDigits_lt _ _ hu
    simp only [List.length_cons]
    omega
  · cases h
    exact Nat.le_refl _

theorem scanSigned_lt (b : Bytes) (t : Bytes × Bytes) (h : scanSigned b = some t) :
    t.2.length < b.length := by
  unfold scanSigned at h
  split at h
  · split at h
    · obtain ⟨u, hu, rfl⟩ := Option.map_eq_some_iff.1 h
      have := scanDigits_lt _ _ hu
      simp only [List.length_cons]
      omega
    · exact scanDigits_lt _ _ h
  · cases h

theorem scanExponent_le (b : Bytes) (t : Bytes × Bytes) (h : scanExponent b = some t) :
    t.2.length ≤ b.length := by
  unfold scanExponent at h
  split at h
  · split at h
    · obtain ⟨u, hu, rfl⟩ := Option.map_eq_some_iff.1 h
      have := scanSigned_lt _ _ hu
      simp only [List.length_cons]
      omega
    · cases h
      exact Nat.le_refl _
  · cases h
    exact Nat.le_refl _

theorem scanUnsigned_lt (b : Bytes) (t : Bytes × Bytes) (h : scanUnsigned b = some t) :
    t.2.length < b.length := by
  unfold scanUnsigned at h
  split at h
  · cases h
  · next w r hw =>
    split at h
    · cases h
    · next f r' hf =>
      split at h
      · cases h
      · next e r'' he =>
        cases h
        have h1 := scanWhole_lt _ _ hw
        have h2 := scanFraction_le _ _ hf
        have h3 := scanExponent_le _ _ he
        simp only at h1 h2 h3 ⊢
        omega

theorem scanNumber_lt (b : Bytes) (t : Bytes × Bytes) (h : scanNumber b = some t) :
    t.2.length < b.length := by
  unfold scanNumber at h
  split at h
  · obtain ⟨u, hu, rfl⟩ := Option.map_eq_some_iff.1 h
    have := scanUnsigned_lt _ _ hu
    simp only [List.length_cons]
    omega
  · exact scanUnsigned_lt _ _ h

/-! ## openings and closings -/

/-- what stands at the front of a value: all of it, or the beginning of an array or object that is
not empty, the latter with its first key -/
inductive Opening where
  | value (v : Json)
  | array
  | object (key : Bytes)

/-- a key with its colon, white space around them, and what follows -/
def scanKey (b : Bytes) : Option (Bytes × Bytes) :=
  match blank b with
  | 34 :: r =>
    match scanString r with
    | none => none
    | some (key, r') =>
      match blank r' with
      | 58 :: r'' => some (key, r'')
      | _ => none
  | _ => none

/-- the front of a value, white space before it, and what follows -/
def scan (b : Bytes) : Option (Opening × Bytes) :=
  match blank b with
  | 123 :: r =>
    match blank r with
    | 125 :: r' => some (.value (.object []), r')
    | _ => (scanKey r).map fun t => (.object t.1, t.2)
  | 91 :: r =>
    match blank r with
    | 93 :: r' => some (.value (.array []), r')
    | _ => some (.array, r)
  | 34 :: r => (scanString r).map fun t => (.value (.string t.1), t.2)
  | 110 :: 117 :: 108 :: 108 :: r => some (.value .null, r)
  | 116 :: 114 :: 117 :: 101 :: r => some (.value (.bool true), r)
  | 102 :: 97 :: 108 :: 115 :: 101 :: r => some (.value (.bool false), r)
  | b' => (scanNumber b').map fun t => (.value (.number t.1), t.2)

theorem scanKey_lt (b : Bytes) (t : Bytes × Bytes) (h : scanKey b = some t) :
    t.2.length < b.length := by
  have h0 := length_blank b
  unfold scanKey at h
  split at h
  · next r hb =>
    split at h
    · cases h
    · next key r' hs =>
      split at h
      · next r'' hb' =>
        cases h
        have h1 := scanString_lt _ _ hs
        have h2 := length_blank r'
        rw [hb'] at h2
        rw [hb] at h0
        simp only [List.length_cons] at h0 h1 h2 ⊢
        omega
      · cases h
  · cases h

theorem scan_lt (b : Bytes) (t : Opening × Bytes) (h : scan b = some t) :
    t.2.length < b.length := by
  have h0 := length_blank b
  unfold scan at h
  split at h
  · next r hb =>
    rw [hb, List.length_cons] at h0
    split at h
    · next r' hr =>
      have h1 := length_blank r
      rw [hr, List.length_cons] at h1
      cases h
      simp only
      omega
    · obtain ⟨u, hu, rfl⟩ := Option.map_eq_some_iff.1 h
      have := scanKey_lt _ _ hu
      simp only
      omega
  · next r hb =>
    rw [hb, List.length_cons] at h0
    split at h
    · next r' hr =>
      have h1 := length_blank r
      rw [hr, List.length_cons] at h1
      cases h
      simp only
      omega
    · cases h
      simp only
      omega
  · next r hb =>
    rw [hb, List.length_cons] at h0
    obtain ⟨u, hu, rfl⟩ := Option.map_eq_some_iff.1 h
    have := scanString_lt _ _ hu
    simp only
    omega
  · next r hb =>
    rw [hb] at h0
    cases h
    simp only [List.length_cons] at h0 ⊢
    omega
  · next r hb =>
    rw [hb] at h0
    cases h
    simp only [List.length_cons] at h0 ⊢
    omega
  · next r hb =>
    rw [hb] at h0
    cases h
    simp only [List.length_cons] at h0 ⊢
    omega
  · obtain ⟨u, hu, rfl⟩ := Option.map_eq_some_iff.1 h
    have := scanNumber_lt _ _ hu
    simp only
    omega

/-- an array or object we are inside of: what is complete, the latest first, and for an object the
key whose value comes next -/
inductive Frame where
  | array (done : List Json)
  | object (done : List (Bytes × Json)) (key : Bytes)

inductive Next where
  | finished (v : Json) (rest : Bytes)
  | more (stack : List Frame) (rest : Bytes)

/-- a value is complete: close what ends here, up to a comma or the end of the outermost value -/
def resume : List Frame → Json → Bytes → Option Next
  | [], v, b => some (.finished v b)
  | .array done :: stack, v, b =>
    match blank b with
    | 44 :: r => some (.more (.array (v :: done) :: stack) r)
    | 93 :: r => resume stack (.array (v :: done).reverse) r
    | _ => none
  | .object done key :: stack, v, b =>
    match blank b with
    | 44 :: r => (scanKey r).map fun t => .more (.object ((key, v) :: done) t.1 :: stack) t.2
    | 125 :: r => resume stack (.object ((key, v) :: done).reverse) r
    | _ => none

theorem resume_lt (stack : List Frame) (v : Json) (b : Bytes) (stack' : List Frame) (r : Bytes)
    (h : resume stack v b = some (.more stack' r)) : r.length < b.length := by
  induction stack generalizing v b with
  | nil => cases h
  | cons f stack ih =>
    have h0 := length_blank b
    cases f with
    | array done =>
      unfold resume at h
      split at h
      · next r' hb =>
        rw [hb, List.length_cons] at h0
        cases h
        omega
      · next r' hb =>
        rw [hb, List.length_cons] at h0
        have := ih _ _ h
        omega
      · cases h
    | object done key =>
      unfold resume at h
      split at h
      · next r' hb =>
        rw [hb, List.length_cons] at h0
        obtain ⟨u, hu, he⟩ := Option.map_eq_some_iff.1 h
        cases he
        have := scanKey_lt _ _ hu
        omega
      · next r' hb =>
        rw [hb, List.length_cons] at h0
        have := ih _ _ h
        omega
      · cases h

/-! ## whole values -/

/-- read the value that comes next inside of `stack`, and on to the end of the outermost one -/
def parseInside (stack : List Frame) (b : Bytes) : Option (Json × Bytes) :=
  match _h : scan b with
  | none => none
  | some (.array, r) => parseInside (.array [] :: stack) r
  | some (.object key, r) => parseInside (.object [] key :: stack) r
  | some (.value v, r) =>
    match _h' : resume stack v r with
    | none => none
    | some (.finished v' r') => some (v', r')
    | some (.more stack' r') => parseInside stack' r'
termination_by b.length
decreasing_by
  · exact scan_lt _ _ _h
  · exact scan_lt _ _ _h
  · exact Nat.lt_trans (resume_lt _ _ _ _ _ _h') (scan_lt _ _ _h)

/-- one value at the front of a document, and what follows it -/
def parseFront (b : Bytes) : Option (Json × Bytes) := parseInside [] b

/-- the value of a document that holds nothing else -/
def parse (b : Bytes) : Option Json :=
  match parseFront b with
  | none => none
  | some (v, r) => if (blank r).isEmpty then some v else none

end Reclaim.Json

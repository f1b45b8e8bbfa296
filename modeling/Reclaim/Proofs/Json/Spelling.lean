import Reclaim.Json.Printer
import Reclaim.Proofs.Json.Numeral

/-!
# Values and their spellings

* `Spells v b`             the bytes `b` spell the value `v`, white space standing where it may;
* `parseFront_of_spells`   the reader takes exactly a spelling, whatever follows it;
* `parse_of_spells`        a spelling alone is a document of its value;
* `spells_compact`         a plain value is spelled by its compact form;
* `parseFront_compact`     which therefore is read as the value.
-/

namespace Reclaim.Json

/-! ## white space -/

/-- white space alone -/
def White (w : Bytes) : Prop := ∀ c ∈ w, isBlank c = true

theorem white_nil : White [] := fun _ h => absurd h List.not_mem_nil

theorem white_append {w w' : Bytes} (h : White w) (h' : White w') : White (w ++ w') := by
  intro c hc
  rcases List.mem_append.1 hc with hc | hc
  · exact h c hc
  · exact h' c hc

theorem blank_cons {c : UInt8} (h : isBlank c = false) (r : Bytes) : blank (c :: r) = c :: r := by
  rw [blank, List.dropWhile_cons_of_neg]
  rw [h]
  exact Bool.false_ne_true

theorem blank_append {w : Bytes} (h : White w) (r : Bytes) : blank (w ++ r) = blank r :=
  List.dropWhile_append_of_pos h

theorem stops_append {w r : Bytes} (hw : White w) (hr : Stops r) : Stops (w ++ r) := by
  cases w with
  | nil => exact hr
  | cons c w =>
    have hc := hw c List.mem_cons_self
    rw [isBlank, Bool.or_eq_true, Bool.or_eq_true, Bool.or_eq_true, decide_eq_true_eq,
      decide_eq_true_eq, decide_eq_true_eq, decide_eq_true_eq] at hc
    rcases hc with ((rfl | rfl) | rfl) | rfl
    · exact stops_cons (by decide) _
    · exact stops_cons (by decide) _
    · exact stops_cons (by decide) _
    · exact stops_cons (by decide) _

theorem scan_blank {a b : Bytes} (h : blank a = blank b) : scan a = scan b := by
  unfold scan
  rw [h]

/-! ## one step of the reader -/

/-- go on after a complete value -/
def proceed : Option Next → Option (Json × Bytes)
  | none => none
  | some (.finished v r) => some (v, r)
  | some (.more stack r) => parseInside stack r

/-- go on after the front of a value -/
def enter (stack : List Frame) : Option (Opening × Bytes) → Option (Json × Bytes)
  | none => none
  | some (.array, r) => parseInside (.array [] :: stack) r
  | some (.object key, r) => parseInside (.object [] key :: stack) r
  | some (.value v, r) => proceed (resume stack v r)

theorem parseInside_eq (stack : List Frame) (b : Bytes) :
    parseInside stack b = enter stack (scan b) := by
  rw [parseInside]
  split
  · next h => rw [h, enter]
  · next h => rw [h, enter]
  · next h => rw [h, enter]
  · next h =>
    rw [h, enter]
    split
    · next hr => rw [hr, proceed]
    · next hr => rw [hr, proceed]
    · next hr => rw [hr, proceed]

theorem parseInside_blank {a b : Bytes} (h : blank a = blank b) (stack : List Frame) :
    parseInside stack a = parseInside stack b := by
  rw [parseInside_eq, parseInside_eq, scan_blank h]

theorem parseInside_value {b r : Bytes} {v : Json} (h : scan b = some (.value v, r))
    (stack : List Frame) : parseInside stack b = proceed (resume stack v r) := by
  rw [parseInside_eq, h, enter]

/-! ## the pieces of a document -/

theorem scanKey_spelled {k w w' : Bytes} (hw : White w) (hw' : White w') (hk : Body k) (r : Bytes) :
    scanKey (w ++ (quoted k ++ (w' ++ 58 :: r))) = some (k, r) := by
  have hq : quoted k ++ (w' ++ 58 :: r) = 34 :: (k ++ 34 :: (w' ++ 58 :: r)) := by
    rw [quoted, List.cons_append, List.append_assoc]
    rfl
  rw [scanKey, blank_append hw, hq, blank_cons (by decide)]
  simp only
  rw [scanString_body hk]
  simp only
  rw [blank_append hw', blank_cons (by decide)]
  rfl

theorem scan_string {k : Bytes} (hk : Body k) (r : Bytes) :
    scan (quoted k ++ r) = some (.value (.string k), r) := by
  have hq : quoted k ++ r = 34 :: (k ++ 34 :: r) := by
    rw [quoted, List.cons_append, List.append_assoc]
    rfl
  rw [scan, hq, blank_cons (by decide)]
  simp only
  rw [scanString_body hk]
  rfl

theorem digit_ne {c d : UInt8} (hc : isDigit c = true) (hd : isDigit d = false) : c ≠ d := by
  rintro rfl
  rw [hd] at hc
  cases hc

/-- a byte that begins a number begins nothing else, be it white space -/
theorem number_ne {c d : UInt8} (hc : isDigit c = true ∨ c = 45) (hd : isDigit d = false)
    (hminus : d ≠ 45) : c ≠ d := by
  rcases hc with hc | rfl
  · exact digit_ne hc hd
  · exact hminus.symm

theorem isBlank_number {c : UInt8} (hc : isDigit c = true ∨ c = 45) : isBlank c = false := by
  rw [isBlank, decide_eq_false (number_ne hc (by decide) (by decide)),
    decide_eq_false (number_ne hc (by decide) (by decide)),
    decide_eq_false (number_ne hc (by decide) (by decide)),
    decide_eq_false (number_ne hc (by decide) (by decide))]
  rfl

theorem scan_number {b r : Bytes} (h : Numeral b) (hr : Stops r) :
    scan (b ++ r) = some (.value (.number b), r) := by
  obtain ⟨c, t, e, hc⟩ := h.eq_cons
  have hb : blank (b ++ r) = c :: (t ++ r) := by
    rw [e]
    exact blank_cons (isBlank_number hc) _
  have hs := scanNumber_numeral h hr
  rw [scan, hb]
  split
  · next h => exact absurd (List.cons.inj h).1 (number_ne hc (by decide) (by decide))
  · next h => exact absurd (List.cons.inj h).1 (number_ne hc (by decide) (by decide))
  · next h => exact absurd (List.cons.inj h).1 (number_ne hc (by decide) (by decide))
  · next h => exact absurd (List.cons.inj h).1 (number_ne hc (by decide) (by decide))
  · next h => exact absurd (List.cons.inj h).1 (number_ne hc (by decide) (by decide))
  · next h => exact absurd (List.cons.inj h).1 (number_ne hc (by decide) (by decide))
  · rw [← List.cons_append, ← e, hs]
    rfl

theorem scan_emptyArray {w : Bytes} (hw : White w) (r : Bytes) :
    scan (91 :: (w ++ 93 :: r)) = some (.value (.array []), r) := by
  rw [scan, blank_cons (by decide)]
  simp only
  rw [blank_append hw, blank_cons (by decide)]
  rfl

theorem scan_emptyObject {w : Bytes} (hw : White w) (r : Bytes) :
    scan (123 :: (w ++ 125 :: r)) = some (.value (.object []), r) := by
  rw [scan, blank_cons (by decide)]
  simp only
  rw [blank_append hw, blank_cons (by decide)]
  rfl

theorem scan_array {b : Bytes} (hb : (blank b).head? ≠ some 93) :
    scan (91 :: b) = some (.array, b) := by
  rw [scan, blank_cons (by decide)]
  simp only
  split
  · next h =>
    rw [h] at hb
    exact absurd rfl hb
  · rfl

theorem scan_object {k w w' : Bytes} (hw : White w) (hw' : White w') (hk : Body k) (r : Bytes) :
    scan (123 :: (w ++ (quoted k ++ (w' ++ 58 :: r)))) = some (.object k, r) := by
  rw [scan, blank_cons (by decide)]
  simp only
  rw [scanKey_spelled hw hw' hk, blank_append hw]
  rfl

/-! ## spellings -/

/-- a member of an object with its spelling: the key with the white space before and behind it, and
the value -/
structure Member where
  before : Bytes
  key : Bytes
  behind : Bytes
  value : Json
  spelling : Bytes

namespace Member

/-- whether the key of a member is spelled as it may be -/
structure Fair (m : Member) : Prop where
  before : White m.before
  key : Body m.key
  behind : White m.behind

/-- the bytes of a member -/
def bytes (m : Member) : Bytes := m.before ++ (quoted m.key ++ (m.behind ++ 58 :: m.spelling))

/-- a member by key and value -/
def entry (m : Member) : Bytes × Json := (m.key, m.value)

end Member

/-- the bytes `b` spell the value `v` -/
inductive Spells : Json → Bytes → Prop where
  | null : Spells .null nullWord
  | bool (b : Bool) : Spells (.bool b) (boolWord b)
  | number {b : Bytes} (h : Numeral b) : Spells (.number b) b
  | string {b : Bytes} (hb : Body b) : Spells (.string b) (quoted b)
  | emptyArray {w : Bytes} (hw : White w) : Spells (.array []) (91 :: (w ++ [93]))
  | array {t : Json × Bytes} {ts : List (Json × Bytes)} (h : Spells t.1 t.2)
      (hs : ∀ u ∈ ts, Spells u.1 u.2) :
      Spells (.array (t.1 :: ts.map Prod.fst))
        (91 :: (t.2 ++ (ts.flatMap (fun u => 44 :: u.2) ++ [93])))
  | emptyObject {w : Bytes} (hw : White w) : Spells (.object []) (123 :: (w ++ [125]))
  | object {m : Member} {ms : List Member} (hm : m.Fair) (hms : ∀ u ∈ ms, u.Fair)
      (h : Spells m.value m.spelling) (hs : ∀ u ∈ ms, Spells u.value u.spelling) :
      Spells (.object (m.entry :: ms.map Member.entry))
        (123 :: (m.bytes ++ (ms.flatMap (fun u => 44 :: u.bytes) ++ [125])))
  | spaced {w w' b : Bytes} {v : Json} (hw : White w) (hw' : White w') (h : Spells v b) :
      Spells v (w ++ (b ++ w'))

/-! ## every spelling is read -/

theorem head?_blank_cons {c : UInt8} (h : isBlank c = false) (hne : c ≠ 93) (r : Bytes) :
    (blank (c :: r)).head? ≠ some 93 := by
  rw [blank_cons h]
  exact fun e => hne (Option.some.inj e)

/-- the front of no spelling closes an array -/
theorem head?_spells {v : Json} {b : Bytes} (h : Spells v b) (r : Bytes) :
    (blank (b ++ r)).head? ≠ some 93 := by
  induction h generalizing r with
  | null => exact head?_blank_cons (by decide) (by decide) _
  | bool b =>
    cases b
    · exact head?_blank_cons (by decide) (by decide) _
    · exact head?_blank_cons (by decide) (by decide) _
  | number h =>
    obtain ⟨c, t, rfl, hc⟩ := h.eq_cons
    exact head?_blank_cons (isBlank_number hc) (number_ne hc (by decide) (by decide)) _
  | string => exact head?_blank_cons (by decide) (by decide) _
  | emptyArray => exact head?_blank_cons (by decide) (by decide) _
  | array => exact head?_blank_cons (by decide) (by decide) _
  | emptyObject => exact head?_blank_cons (by decide) (by decide) _
  | object => exact head?_blank_cons (by decide) (by decide) _
  | spaced hw _ _ ih =>
    rw [List.append_assoc, blank_append hw, List.append_assoc]
    exact ih _

/-- the reader takes `b` for the value `v` wherever it meets it -/
def Reads (v : Json) (b : Bytes) : Prop :=
  ∀ stack r, Stops r →
    ∃ w, White w ∧ parseInside stack (b ++ r) = proceed (resume stack v (w ++ r))

theorem reads_of_scan {v : Json} {b : Bytes}
    (h : ∀ r, Stops r → scan (b ++ r) = some (.value v, r)) : Reads v b := by
  intro stack r hr
  exact ⟨[], white_nil, parseInside_value (h r hr) stack⟩

theorem reads_spaced {v : Json} {b w w' : Bytes} (hw : White w) (hw' : White w') (h : Reads v b) :
    Reads v (w ++ (b ++ w')) := by
  intro stack r hr
  obtain ⟨u, hu, e⟩ := h stack (w' ++ r) (stops_append hw' hr)
  refine ⟨u ++ w', white_append hu hw', ?_⟩
  rw [List.append_assoc, List.append_assoc, parseInside_blank (blank_append hw _), e,
    List.append_assoc]

/-- what stands behind an element or member, ending in `r` -/
theorem stops_further {α : Type} (f : α → Bytes) (l : List α) {r : Bytes} (hr : Stops r) :
    Stops (l.flatMap (fun u => 44 :: f u) ++ r) := by
  cases l with
  | nil => exact hr
  | cons u l => exact stops_cons (by decide) _

theorem stops_array (r : Bytes) : Stops (93 :: r) :=
  stops_cons (by decide) r

theorem stops_object (r : Bytes) : Stops (125 :: r) :=
  stops_cons (by decide) r

section
variable (stack : List Frame) (r : Bytes)

theorem resume_array_next (done : List Json) (v : Json) {w : Bytes} (hw : White w) :
    resume (.array done :: stack) v (w ++ 44 :: r) =
      some (.more (.array (v :: done) :: stack) r) := by
  rw [resume, blank_append hw, blank_cons (by decide)]
  rfl

theorem resume_array_end (done : List Json) (v : Json) {w : Bytes} (hw : White w) :
    resume (.array done :: stack) v (w ++ 93 :: r) =
      resume stack (.array (v :: done).reverse) r := by
  rw [resume, blank_append hw, blank_cons (by decide)]
  rfl

theorem resume_object_next (done : List (Bytes × Json)) (key : Bytes) (v : Json) {w : Bytes}
    (hw : White w) {m : Member} (hm : m.Fair) :
    resume (.object done key :: stack) v (w ++ 44 :: (m.bytes ++ r)) =
      some (.more (.object ((key, v) :: done) m.key :: stack) (m.spelling ++ r)) := by
  have hb : m.bytes ++ r = m.before ++ (quoted m.key ++ (m.behind ++ 58 :: (m.spelling ++ r))) := by
    simp only [Member.bytes, List.append_assoc, List.cons_append]
  rw [resume, blank_append hw, blank_cons (by decide)]
  simp only
  rw [hb, scanKey_spelled hm.before hm.behind hm.key]
  rfl

theorem resume_object_end (done : List (Bytes × Json)) (key : Bytes) (v : Json) {w : Bytes}
    (hw : White w) :
    resume (.object done key :: stack) v (w ++ 125 :: r) =
      resume stack (.object ((key, v) :: done).reverse) r := by
  rw [resume, blank_append hw, blank_cons (by decide)]
  rfl

/-- further elements and the end of their array -/
theorem proceed_items {ts : List (Json × Bytes)} (hs : ∀ u ∈ ts, Reads u.1 u.2) (done : List Json)
    (v : Json) {w : Bytes} (hw : White w) :
    proceed (resume (.array done :: stack) v
        (w ++ (ts.flatMap (fun u => 44 :: u.2) ++ 93 :: r))) =
      proceed (resume stack (.array ((v :: done).reverse ++ ts.map Prod.fst)) r) := by
  -- on the elements still to come: each one moves the one before it to those that are done
  induction ts generalizing done v w with
  | nil =>
    rw [List.flatMap_nil, List.nil_append, resume_array_end stack r done v hw, List.map_nil,
      List.append_nil]
  | cons u ts ih =>
    obtain ⟨w', hw', e⟩ :=
      hs u List.mem_cons_self (.array (v :: done) :: stack) _
        (stops_further Prod.snd ts (stops_array r))
    rw [List.flatMap_cons, List.cons_append, List.cons_append, List.append_assoc,
      resume_array_next stack _ done v hw, proceed, e,
      ih (fun u' hu' => hs u' (List.mem_cons_of_mem u hu')) (v :: done) u.1 hw', List.map_cons,
      List.reverse_cons, List.append_assoc]
    rfl

/-- further members and the end of their object -/
theorem proceed_members {ms : List Member} (hf : ∀ u ∈ ms, u.Fair)
    (hs : ∀ u ∈ ms, Reads u.value u.spelling) (done : List (Bytes × Json)) (key : Bytes) (v : Json)
    {w : Bytes} (hw : White w) :
    proceed (resume (.object done key :: stack) v
        (w ++ (ms.flatMap (fun u => 44 :: u.bytes) ++ 125 :: r))) =
      proceed (resume stack (.object (((key, v) :: done).reverse ++ ms.map Member.entry)) r) := by
  induction ms generalizing done key v w with
  | nil =>
    rw [List.flatMap_nil, List.nil_append, resume_object_end stack r done key v hw, List.map_nil,
      List.append_nil]
  | cons u ms ih =>
    obtain ⟨w', hw', e⟩ :=
      hs u List.mem_cons_self (.object ((key, v) :: done) u.key :: stack) _
        (stops_further Member.bytes ms (stops_object r))
    rw [List.flatMap_cons, List.cons_append, List.cons_append, List.append_assoc,
      resume_object_next stack _ done key v hw (hf u List.mem_cons_self), proceed, e,
      ih (fun u' hu' => hf u' (List.mem_cons_of_mem u hu'))
        (fun u' hu' => hs u' (List.mem_cons_of_mem u hu')) ((key, v) :: done) u.key u.value hw',
      List.map_cons, List.reverse_cons, List.append_assoc]
    rfl

end

theorem reads_of_spells {v : Json} {b : Bytes} (h : Spells v b) : Reads v b := by
  induction h with
  | null => exact reads_of_scan fun r _ => rfl
  | bool b =>
    cases b
    · exact reads_of_scan fun r _ => rfl
    · exact reads_of_scan fun r _ => rfl
  | number h => exact reads_of_scan fun r hr => scan_number h hr
  | string hb => exact reads_of_scan fun r _ => scan_string hb r
  | @emptyArray w hw =>
    refine reads_of_scan fun r _ => ?_
    rw [List.cons_append, List.append_assoc]
    exact scan_emptyArray hw r
  | @emptyObject w hw =>
    refine reads_of_scan fun r _ => ?_
    rw [List.cons_append, List.append_assoc]
    exact scan_emptyObject hw r
  | @array t ts ht hts ih ihs =>
    intro stack r hr
    have hb : 91 :: (t.2 ++ (ts.flatMap (fun u => 44 :: u.2) ++ [93])) ++ r =
        91 :: (t.2 ++ (ts.flatMap (fun u => 44 :: u.2) ++ 93 :: r)) := by
      simp only [List.cons_append, List.append_assoc, List.nil_append]
    obtain ⟨w, hw, e⟩ := ih (.array [] :: stack) _ (stops_further Prod.snd ts (stops_array r))
    refine ⟨[], white_nil, ?_⟩
    rw [hb, parseInside_eq, scan_array (head?_spells ht _), enter, e,
      proceed_items stack r ihs [] t.1 hw]
    rfl
  | @object m ms hm hms h hs ih ihs =>
    intro stack r hr
    have hb : 123 :: (m.bytes ++ (ms.flatMap (fun u => 44 :: u.bytes) ++ [125])) ++ r =
        123 :: (m.before ++ (quoted m.key ++ (m.behind ++
          58 :: (m.spelling ++ (ms.flatMap (fun u => 44 :: u.bytes) ++ 125 :: r))))) := by
      simp only [Member.bytes, List.cons_append, List.append_assoc, List.nil_append]
    obtain ⟨w, hw, e⟩ :=
      ih (.object [] m.key :: stack) _ (stops_further Member.bytes ms (stops_object r))
    refine ⟨[], white_nil, ?_⟩
    rw [hb, parseInside_eq, scan_object hm.before hm.behind hm.key, enter, e,
      proceed_members stack r hms ihs [] m.key m.value hw]
    rfl
  | spaced hw hw' _ ih => exact reads_spaced hw hw' ih

theorem parseFront_of_spells {v : Json} {b r : Bytes} (h : Spells v b) (hr : Stops r) :
    ∃ w, White w ∧ parseFront (b ++ r) = some (v, w ++ r) :=
  reads_of_spells h [] r hr

/-- a document that holds a spelling and nothing else is read as its value -/
theorem parse_of_spells {v : Json} {b : Bytes} (h : Spells v b) : parse b = some v := by
  obtain ⟨w, hw, hparse⟩ := parseFront_of_spells h stops_nil
  have hblank : (blank (w ++ [])).isEmpty = true := by
    rw [blank_append hw]
    rfl
  rw [List.append_nil] at hparse
  rw [parse, hparse]
  simp only
  rw [if_pos hblank]

/-! ## compact spellings -/

/-- a value whose numbers are numbers and whose strings and keys have bodies -/
inductive Plain : Json → Prop where
  | null : Plain .null
  | bool (b : Bool) : Plain (.bool b)
  | number {b : Bytes} (h : Numeral b) : Plain (.number b)
  | string {b : Bytes} (hb : Body b) : Plain (.string b)
  | array {vs : List Json} (h : ∀ v ∈ vs, Plain v) : Plain (.array vs)
  | object {ms : List (Bytes × Json)} (hk : ∀ m ∈ ms, Body m.1) (h : ∀ m ∈ ms, Plain m.2) :
      Plain (.object ms)

theorem plain_ofNat (n : Nat) : Plain (ofNat n) := .number (numeral_decimal n)

theorem compactItems_eq (vs : List Json) :
    compactItems vs = vs.flatMap (fun v => 44 :: compact v) ++ [93] := by
  induction vs with
  | nil => rw [compactItems, List.flatMap_nil, List.nil_append]
  | cons v vs ih =>
    rw [compactItems, ih, List.flatMap_cons, List.cons_append, List.cons_append, List.append_assoc]

/-- a member without white space -/
def compactMember (m : Bytes × Json) : Member := ⟨[], m.1, [], m.2, compact m.2⟩

theorem compactMembers_eq (ms : List (Bytes × Json)) :
    compactMembers ms = ms.flatMap (fun m => 44 :: (compactMember m).bytes) ++ [125] := by
  induction ms with
  | nil => rw [compactMembers, List.flatMap_nil, List.nil_append]
  | cons m ms ih =>
    obtain ⟨k, v⟩ := m
    rw [compactMembers, ih, List.flatMap_cons]
    simp only [compactMember, Member.bytes, List.nil_append, List.cons_append, List.append_assoc]

theorem spells_compact_array {vs : List Json} (h : ∀ v ∈ vs, Spells v (compact v)) :
    Spells (.array vs) (compact (.array vs)) := by
  cases vs with
  | nil => exact .emptyArray white_nil
  | cons v vs =>
    have hvs : ∀ u ∈ vs.map fun v => (v, compact v), Spells u.1 u.2 := by
      intro u hu
      obtain ⟨w, hw, rfl⟩ := List.mem_map.1 hu
      exact h w (List.mem_cons_of_mem v hw)
    have hv : Spells (v, compact v).1 (v, compact v).2 := h v List.mem_cons_self
    have hs := Spells.array hv hvs
    have hid : vs.map (Prod.fst ∘ fun v => (v, compact v)) = vs := List.map_id vs
    rw [List.map_map, hid, List.flatMap_map] at hs
    rw [compact, compactItems_eq]
    exact hs

theorem spells_compact_object {ms : List (Bytes × Json)} (hk : ∀ m ∈ ms, Body m.1)
    (h : ∀ m ∈ ms, Spells m.2 (compact m.2)) : Spells (.object ms) (compact (.object ms)) := by
  cases ms with
  | nil => exact .emptyObject white_nil
  | cons m ms =>
    have hfair : ∀ u ∈ m :: ms, (compactMember u).Fair := fun u hu =>
      ⟨white_nil, hk u hu, white_nil⟩
    have hfairs : ∀ u ∈ ms.map compactMember, u.Fair := by
      intro u hu
      obtain ⟨w, hw, rfl⟩ := List.mem_map.1 hu
      exact hfair w (List.mem_cons_of_mem m hw)
    have hvalues : ∀ u ∈ ms.map compactMember, Spells u.value u.spelling := by
      intro u hu
      obtain ⟨w, hw, rfl⟩ := List.mem_map.1 hu
      exact h w (List.mem_cons_of_mem m hw)
    have hm : Spells (compactMember m).value (compactMember m).spelling := h m List.mem_cons_self
    have hs := Spells.object (hfair m List.mem_cons_self) hfairs hm hvalues
    have hid : ms.map (Member.entry ∘ compactMember) = ms := List.map_id ms
    rw [List.map_map, hid, List.flatMap_map] at hs
    have hb : compact (.object (m :: ms)) = 123 :: ((compactMember m).bytes ++
        (ms.flatMap (fun m => 44 :: (compactMember m).bytes) ++ [125])) := by
      obtain ⟨k, v⟩ := m
      rw [compact, compactMembers_eq]
      simp only [compactMember, Member.bytes, List.nil_append, List.cons_append, List.append_assoc]
    rw [hb]
    exact hs

/-- a plain value is spelled by its compact form -/
theorem spells_compact {v : Json} (h : Plain v) : Spells v (compact v) := by
  induction h with
  | null => exact .null
  | bool b => exact .bool b
  | number h => exact .number h
  | string hb => exact .string hb
  | array _ ih => exact spells_compact_array ih
  | object hk _ ih => exact spells_compact_object hk ih

theorem parseFront_compact {v : Json} (h : Plain v) {r : Bytes} (hr : Stops r) :
    ∃ w, White w ∧ parseFront (compact v ++ r) = some (v, w ++ r) :=
  parseFront_of_spells (spells_compact h) hr

end Reclaim.Json

import Reclaim.Proofs.Key
import Reclaim.Proofs.Text.Lossy

/-!
# The texts of hashes and host keys

* `Hash256.Body`, `HostKey.Body`   the part of a text that should be the digits;
* `HostKey.Foreign`   a text that names another algorithm;
* `Misspelled`        what is reported of a text that does not spell 32 bytes;
* `key_texts_exact`   a hash and a host key are read from their texts and from nothing else, and
                      what is reported of every other text.

The digits of a text are judged by `Hex.Spells` and `Hex.Fault`, which speak of characters; all
that is reported counts bytes.
-/

namespace Reclaim

open Hex (IsDigit Spells Fault)

/-- what is reported of a text that does not spell 32 bytes -/
inductive Misspelled (t : String) : KeyError → Prop where
  | hex {e : Hex.Error} (h : Fault t e) : Misspelled t (.hex e)
  | length {b : Bytes} (h : Spells t.toList b) (hb : b.length ≠ 32) :
      Misspelled t (.length b.length)

section
variable {t : String} {α : Type} {mk : { b : Bytes // b.length = 32 } → α}

theorem parse32_of_misspelled {e : KeyError} (h : Misspelled t e) :
    parse32 (utf8 t) = .error e := by
  rw [parse32]
  cases h with
  | hex h => rw [Hex.decode_of_fault h]
  | length h hb =>
    rw [Hex.decode_of_spells h]
    simp only
    rw [dif_neg hb]

theorem parse32_of_spells {b : Bytes} (h : Spells t.toList b) (hb : b.length = 32) :
    parse32 (utf8 t) = .ok ⟨b, hb⟩ := by
  rw [parse32, Hex.decode_of_spells h]
  simp only
  rw [dif_pos hb]

theorem misspelled_or_spells (t : String) :
    (∃ e, Misspelled t e) ∨ ∃ b, Spells t.toList b ∧ b.length = 32 := by
  rcases Hex.fault_or_spells t with ⟨e, he⟩ | ⟨b, hb⟩
  · exact .inl ⟨_, .hex he⟩
  · by_cases hlen : b.length = 32
    · exact .inr ⟨b, hb, hlen⟩
    · exact .inl ⟨_, .length hb hlen⟩

/-- of 32 bytes, read as a value of any kind -/
theorem map_parse32_eq_ok_iff (hmk : Function.Injective mk) {b : { b : Bytes // b.length = 32 }} :
    (parse32 (utf8 t)).map mk = .ok (mk b) ↔ Spells t.toList b.1 := by
  refine ⟨fun h => ?_, fun h => by rw [parse32_of_spells h b.2]; rfl⟩
  rcases misspelled_or_spells t with ⟨e, he⟩ | ⟨a, ha, hlen⟩
  · rw [parse32_of_misspelled he] at h
    cases h
  · rw [parse32_of_spells ha hlen] at h
    rwa [← hmk (Except.ok.inj h)]

theorem map_parse32_eq_error_iff {e : KeyError} :
    (parse32 (utf8 t)).map mk = .error e ↔ Misspelled t e := by
  refine ⟨fun h => ?_, fun h => by rw [parse32_of_misspelled h]; rfl⟩
  rcases misspelled_or_spells t with ⟨e', he⟩ | ⟨a, ha, hlen⟩
  · rw [parse32_of_misspelled he] at h
    rwa [← Except.error.inj h]
  · rw [parse32_of_spells ha hlen] at h
    cases h

end

/-! ## hashes -/

namespace Hash256

/-- `t` is what a text leaves when at most one mark is taken away from its front -/
inductive Body : String → String → Prop where
  | marked (t : String) : Body ("h:" ++ t) t
  | bare {t : String} (h : ∀ r, t ≠ "h:" ++ r) : Body t t

theorem exists_body (s : String) : ∃ t, Body s t := by
  by_cases h : ∃ r, s = "h:" ++ r
  · obtain ⟨r, rfl⟩ := h
    exact ⟨r, .marked r⟩
  · exact ⟨s, .bare fun r hr => h ⟨r, hr⟩⟩

theorem utf8_marked (t : String) : utf8 ("h:" ++ t) = 104 :: 58 :: utf8 t := by
  rw [utf8_append, utf8_eq "h:"]
  rfl

/-- a text with the mark in its bytes has it in front -/
theorem eq_of_marked {s : String} {r : Bytes} (h : utf8 s = 104 :: 58 :: r) :
    ∃ t, s = "h:" ++ t := by
  rw [utf8_eq] at h
  obtain ⟨l, hl, h⟩ := cons_of_utf8 (by decide) h
  obtain ⟨m, rfl, -⟩ := cons_of_utf8 (by decide) h
  refine ⟨String.ofList m, String.toList_inj.1 ?_⟩
  show s.toList = ("h:" ++ String.ofList m).toList
  have hm : (String.ofList m).toList = m := String.toList_ofList
  rw [hl, String.toList_append, hm]
  rfl

variable {s t : String} {h : Hash256}

theorem parse_of_body (ht : Body s t) :
    parse s = (parse32 (utf8 t)).map fun b => ⟨b.1, b.2⟩ := by
  have hunmark : unmark (utf8 s) = utf8 t := by
    cases ht with
    | marked t => rw [utf8_marked, unmark]
    | bare hbare =>
      rw [unmark]
      intro r hr
      obtain ⟨t, ht⟩ := eq_of_marked hr
      exact hbare t ht
  rw [parse, parseBytes, hunmark]
  cases parse32 (utf8 t) with
  | error e => rfl
  | ok b => rfl

theorem mk_injective :
    Function.Injective fun b : { b : Bytes // b.length = 32 } => (⟨b.1, b.2⟩ : Hash256) :=
  fun _ _ h => Subtype.ext (congrArg bytes h)

theorem parse_eq_ok_iff : parse s = .ok h ↔ ∃ t, Body s t ∧ Spells t.toList h.bytes := by
  have hread : ∀ t, Body s t → (parse s = .ok h ↔ Spells t.toList h.bytes) := fun t ht => by
    rw [parse_of_body ht]
    exact map_parse32_eq_ok_iff mk_injective (b := ⟨h.bytes, h.length_eq⟩)
  obtain ⟨t, ht⟩ := exists_body s
  exact ⟨fun hs => ⟨t, ht, (hread t ht).1 hs⟩, fun ⟨t, ht, hs⟩ => (hread t ht).2 hs⟩

theorem parse_eq_error_iff {e : KeyError} :
    parse s = .error e ↔ ∃ t, Body s t ∧ Misspelled t e := by
  have hread : ∀ t, Body s t → (parse s = .error e ↔ Misspelled t e) := fun t ht => by
    rw [parse_of_body ht, map_parse32_eq_error_iff]
  obtain ⟨t, ht⟩ := exists_body s
  exact ⟨fun hs => ⟨t, ht, (hread t ht).1 hs⟩, fun ⟨t, ht, hs⟩ => (hread t ht).2 hs⟩

theorem parses_iff (s : String) :
    (∃ h, parse s = .ok h) ↔ ∃ t, Body s t ∧ Hex.Digits 64 t := by
  constructor
  · rintro ⟨h, hs⟩
    obtain ⟨t, ht, hspells⟩ := parse_eq_ok_iff.1 hs
    exact ⟨t, ht, (Hex.spells_iff_digits 32 t).1 ⟨_, h.length_eq, hspells⟩⟩
  · rintro ⟨t, ht, hdigits⟩
    obtain ⟨b, hb, hspells⟩ := (Hex.spells_iff_digits 32 t).2 hdigits
    exact ⟨⟨b, hb⟩, parse_eq_ok_iff.2 ⟨t, ht, hspells⟩⟩

theorem parse_text (h : Hash256) : parse h.text = .ok h := by
  rw [parse, text, Hex.utf8_text]
  exact parseBytes_digits h

theorem parse_marked (h : Hash256) : parse ("h:" ++ h.text) = .ok h := by
  rw [parse, utf8_marked, text, Hex.utf8_text]
  exact parseBytes_of_spelled (.marked (Hex.map_lower_digits _))

end Hash256

/-! ## host keys -/

namespace HostKey

/-- `t` is what stands behind the name of the algorithm, or the whole of a text without colon -/
inductive Body : String → String → Prop where
  | named (t : String) : Body ("ed25519:" ++ t) t
  | bare {t : String} (h : ':' ∉ t.toList) : Body t t

/-- what stands before the first colon of a text is not the name of the algorithm -/
inductive Foreign : String → Prop where
  | mk {name rest : String} (hcolon : ':' ∉ name.toList) (hname : name ≠ "ed25519") :
      Foreign (name ++ ":" ++ rest)

theorem utf8_colon (a r : String) : utf8 (a ++ ":" ++ r) = utf8 a ++ 58 :: utf8 r := by
  rw [utf8_append, utf8_append, utf8_eq ":", List.append_assoc]
  rfl

theorem colon_not_mem {t : String} (h : ':' ∉ t.toList) : 58 ∉ utf8 t := by
  rw [utf8_eq, mem_utf8_iff (by decide)]
  exact h

theorem utf8_named (t : String) : utf8 ("ed25519:" ++ t) = algorithm ++ 58 :: utf8 t :=
  utf8_colon "ed25519" t

theorem foreign_or_body (s : String) : Foreign s ∨ ∃ t, Body s t := by
  by_cases h : ':' ∈ s.toList
  · obtain ⟨a, r, hs, ha⟩ := List.eq_append_cons_of_mem h
    obtain ⟨name, rfl⟩ : ∃ name : String, name.toList = a := ⟨_, String.toList_ofList⟩
    obtain ⟨rest, rfl⟩ : ∃ rest : String, rest.toList = r := ⟨_, String.toList_ofList⟩
    have hsplit : s = name ++ ":" ++ rest := by
      apply String.toList_inj.1
      rw [hs, String.toList_append, String.toList_append, List.append_assoc]
      rfl
    subst hsplit
    by_cases hname : name = "ed25519"
    · subst hname
      exact .inr ⟨rest, .named rest⟩
    · exact .inl ⟨ha, hname⟩
  · exact .inr ⟨s, .bare h⟩

variable {s t : String} {k : HostKey}

theorem parse_of_body (ht : Body s t) :
    parse s = (parse32 (utf8 t)).map fun b => ⟨b.1, b.2⟩ := by
  have hread : parse s = parseBytes.ofParse32 (parse32 (utf8 t)) := by
    cases ht with
    | named t =>
      rw [parse, utf8_named, parseBytes, span_algorithm]
      simp only [if_true]
    | bare h => rw [parse, parseBytes, span_bare (colon_not_mem h)]
  rw [hread]
  cases parse32 (utf8 t) with
  | error e => rfl
  | ok b => rfl

theorem parse_of_foreign (h : Foreign s) : parse s = .error (.algorithm s) := by
  cases h with
  | @mk name rest hcolon hname =>
    have hother : utf8 name ≠ algorithm := fun e => hname (utf8_inj e)
    rw [parse, parseBytes, Text.lossy_utf8, utf8_colon, span_colon (colon_not_mem hcolon)]
    simp only [if_neg hother]

theorem mk_injective :
    Function.Injective fun b : { b : Bytes // b.length = 32 } => (⟨b.1, b.2⟩ : HostKey) :=
  fun _ _ h => Subtype.ext (congrArg bytes h)

/-- digits have no colon, so that they are a body wherever they stand -/
theorem body_iff_of_digits (ht : ∀ c ∈ t.toList, IsDigit c) :
    Body s t ↔ s = t ∨ s = "ed25519:" ++ t := by
  constructor
  · rintro (t | -)
    · exact .inr rfl
    · exact .inl rfl
  · rintro (rfl | rfl)
    · exact .bare fun h => absurd (ht _ h) (by decide)
    · exact .named t

theorem parse_eq_ok_iff :
    parse s = .ok k ↔ ∃ t, (s = t ∨ s = "ed25519:" ++ t) ∧ Spells t.toList k.bytes := by
  have hread : ∀ t, Body s t → (parse s = .ok k ↔ Spells t.toList k.bytes) := fun t ht => by
    rw [parse_of_body ht]
    exact map_parse32_eq_ok_iff mk_injective (b := ⟨k.bytes, k.length_eq⟩)
  constructor
  · intro hs
    rcases foreign_or_body s with hforeign | ⟨t, ht⟩
    · rw [parse_of_foreign hforeign] at hs
      cases hs
    · have hspells := (hread t ht).1 hs
      exact ⟨t, (body_iff_of_digits hspells.isDigit).1 ht, hspells⟩
  · rintro ⟨t, ht, hspells⟩
    exact (hread t ((body_iff_of_digits hspells.isDigit).2 ht)).2 hspells

theorem parse_eq_error_iff {e : KeyError} :
    parse s = .error e ↔ (Foreign s ∧ e = .algorithm s) ∨ ∃ t, Body s t ∧ Misspelled t e := by
  have hread : ∀ t, Body s t → (parse s = .error e ↔ Misspelled t e) := fun t ht => by
    rw [parse_of_body ht, map_parse32_eq_error_iff]
  constructor
  · intro hs
    rcases foreign_or_body s with hforeign | ⟨t, ht⟩
    · rw [parse_of_foreign hforeign] at hs
      exact .inl ⟨hforeign, (Except.error.inj hs).symm⟩
    · exact .inr ⟨t, ht, (hread t ht).1 hs⟩
  · rintro (⟨hforeign, rfl⟩ | ⟨t, ht, hs⟩)
    · exact parse_of_foreign hforeign
    · exact (hread t ht).2 hs

theorem parses_iff (s : String) :
    (∃ k, parse s = .ok k) ↔ ∃ t, (s = t ∨ s = "ed25519:" ++ t) ∧ Hex.Digits 64 t := by
  constructor
  · rintro ⟨k, hs⟩
    obtain ⟨t, ht, hspells⟩ := parse_eq_ok_iff.1 hs
    exact ⟨t, ht, (Hex.spells_iff_digits 32 t).1 ⟨_, k.length_eq, hspells⟩⟩
  · rintro ⟨t, ht, hdigits⟩
    obtain ⟨b, hb, hspells⟩ := (Hex.spells_iff_digits 32 t).2 hdigits
    exact ⟨⟨b, hb⟩, parse_eq_ok_iff.2 ⟨t, ht, hspells⟩⟩

/-- no text is blamed for its algorithm but one that names another -/
theorem foreign_iff (s : String) : (∃ a, parse s = .error (.algorithm a)) ↔ Foreign s := by
  constructor
  · rintro ⟨a, hs⟩
    rcases parse_eq_error_iff.1 hs with ⟨hforeign, -⟩ | ⟨t, -, hmisspelled⟩
    · exact hforeign
    · cases hmisspelled
  · exact fun hforeign => ⟨s, parse_of_foreign hforeign⟩

theorem parse_text (k : HostKey) : parse k.text = .ok k := by
  rw [parse, text, utf8_named, hex, Hex.utf8_text]
  exact parseBytes_digits k

theorem parse_hex (k : HostKey) : parse k.hex = .ok k := by
  rw [parse, hex, Hex.utf8_text]
  exact parseBytes_of_spelled (.bare (Hex.map_lower_digits _))

end HostKey

/-- Hashes and host keys are read back from the texts that are written for them.  A text is read as
a hash exactly if it consists of 64 digits, at most one mark in front of them aside, and as a host
key exactly if it consists of 64 digits, with or without the name of the algorithm in front; the
value is what the digits spell.  Of every other text is reported that it names another algorithm,
or what keeps its body from spelling 32 bytes: an odd number of bytes, the first character that is
no digit, or a wrong length. -/
theorem key_texts_exact :
    (∀ h : Hash256, Hash256.parse h.text = .ok h ∧ Hash256.parse ("h:" ++ h.text) = .ok h) ∧
    (∀ k : HostKey, HostKey.parse k.text = .ok k ∧ HostKey.parse k.hex = .ok k) ∧
    (∀ s, ((∃ h, Hash256.parse s = .ok h) ↔ ∃ t, Hash256.Body s t ∧ Hex.Digits 64 t) ∧
      (∀ h, Hash256.parse s = .ok h ↔ ∃ t, Hash256.Body s t ∧ Spells t.toList h.bytes) ∧
      ∀ e, Hash256.parse s = .error e ↔ ∃ t, Hash256.Body s t ∧ Misspelled t e) ∧
    ∀ s, ((∃ k, HostKey.parse s = .ok k) ↔
        ∃ t, (s = t ∨ s = "ed25519:" ++ t) ∧ Hex.Digits 64 t) ∧
      (∀ k, HostKey.parse s = .ok k ↔
        ∃ t, (s = t ∨ s = "ed25519:" ++ t) ∧ Spells t.toList k.bytes) ∧
      ((∃ a, HostKey.parse s = .error (.algorithm a)) ↔ HostKey.Foreign s) ∧
      ∀ e, HostKey.parse s = .error e ↔
        (HostKey.Foreign s ∧ e = .algorithm s) ∨ ∃ t, HostKey.Body s t ∧ Misspelled t e := by
  refine ⟨fun h => ⟨h.parse_text, h.parse_marked⟩, fun k => ⟨k.parse_text, k.parse_hex⟩, ?_, ?_⟩
  · intro s
    exact ⟨Hash256.parses_iff s, fun h => Hash256.parse_eq_ok_iff,
      fun e => Hash256.parse_eq_error_iff⟩
  · intro s
    exact ⟨HostKey.parses_iff s, fun k => HostKey.parse_eq_ok_iff, HostKey.foreign_iff s,
      fun e => HostKey.parse_eq_error_iff⟩

end Reclaim

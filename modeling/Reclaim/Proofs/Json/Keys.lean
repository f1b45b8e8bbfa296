import Reclaim.Proofs.Json.Record
import Reclaim.Proofs.Key
import Reclaim.Proofs.Text.Base64

/-!
# Hashes and host keys in JSON there and back

* `Clear`          a byte that stands for itself between quotation marks;
* `ofDigits_eq`    clear bytes are written like any text;
* `hash?_of_spelled`, `hostKey?_of_spelled`   a hash or a host key is read from each of its texts;
* `hash?_ofHash`, `hostKey?_ofHost`   what was written for it is one of them.
-/

namespace Reclaim

/-- a printing character of plain ASCII that needs no escape -/
structure Json.Clear (x : UInt8) : Prop where
  printing : ¬x < 32
  mark : x ≠ 34
  slash : x ≠ 92
  ascii : x < 128

theorem Json.clear_iff (x : UInt8) : Clear x ↔ ¬x < 32 ∧ x ≠ 34 ∧ x ≠ 92 ∧ x < 128 :=
  ⟨fun ⟨h1, h2, h3, h4⟩ => ⟨h1, h2, h3, h4⟩, fun ⟨h1, h2, h3, h4⟩ => ⟨h1, h2, h3, h4⟩⟩

instance (x : UInt8) : Decidable (Json.Clear x) := decidable_of_iff' _ (Json.clear_iff x)

theorem Hex.clear_digits {b : Bytes} : ∀ x ∈ digits b, Json.Clear x := by
  have all : ∀ m : Fin 16, Json.Clear (digit m.val) := by decide
  intro x hx
  obtain ⟨n, hn, rfl⟩ := mem_digits hx
  exact all ⟨n, hn⟩

theorem Base64.clear_encode {b : Bytes} : ∀ x ∈ encode b, Json.Clear x := by
  have all : ∀ m : Fin 64, Json.Clear (letter m.val) := by decide
  intro x hx
  rcases mem_encode b x hx with rfl | ⟨n, hn, rfl⟩
  · decide
  · exact all ⟨n, hn⟩

namespace Json

theorem escape_clear {b : Bytes} (h : ∀ x ∈ b, Clear x) : escape b = b := by
  induction b with
  | nil => rfl
  | cons x b ih =>
    have hx := h x List.mem_cons_self
    rw [escape_cons, ih fun y hy => h y (List.mem_cons_of_mem x hy)]
    rcases escapeByte_cases x with ⟨e, he, -⟩ | ⟨hc, -⟩ | ⟨-, -, -, hx'⟩
    · have all : ∀ t ∈ shortEscapes,
          decide (t.2 < 32 ∨ t.2 = 34 ∨ t.2 = 92 ∨ t.2 = 47) = true :=
        List.all_eq_true.1 (by decide)
      rcases of_decide_eq_true (all _ he) with h | h | h | h
      · exact absurd h hx.printing
      · exact absurd h hx.mark
      · exact absurd h hx.slash
      · rw [show x = 47 from h]
        rfl
    · exact absurd hc hx.printing
    · rw [hx']
      rfl

theorem writes_clear {b : Bytes} (h : ∀ x ∈ b, Clear x) : Writes b b := by
  have := writes_escape b
  rwa [escape_clear h] at this

/-- clear bytes are written like the text of these characters -/
theorem ofDigits_eq {b : Bytes} (h : ∀ x ∈ b, Clear x) :
    ofDigits b = ofText (String.ofList (b.map Char.ofUInt8)) := by
  rw [ofText, utf8_ascii b fun x hx => (h x hx).ascii, escape_clear h]
  rfl

theorem plain_ofDigits {b : Bytes} (h : ∀ x ∈ b, Clear x) : Plain (ofDigits b) := by
  rw [ofDigits_eq h]
  exact plain_ofText _

theorem clear_host (k : HostKey) : ∀ x ∈ k.digits, Clear x := by
  intro x hx
  rcases List.mem_append.1 hx with hx | hx
  · rw [HostKey.algorithm_eq] at hx
    have all : ∀ y ∈ ([101, 100, 50, 53, 53, 49, 57] : Bytes), decide (Clear y) = true :=
      List.all_eq_true.1 (by decide)
    exact of_decide_eq_true (all x hx)
  · rcases List.mem_cons.1 hx with rfl | hx
    · decide
    · exact Hex.clear_digits x hx

theorem plain_ofHash (h : Hash256) : Plain (ofHash h) := plain_ofDigits Hex.clear_digits

theorem plain_ofHost (k : HostKey) : Plain (ofHost k) := plain_ofDigits (clear_host k)

theorem bodyText?_of_ascii {b t : Bytes} (hascii : ∀ x ∈ t, x < 128) (h : Writes b t) :
    bodyText? b = some (String.ofList (t.map Char.ofUInt8)) := by
  rw [← utf8_ascii t hascii] at h
  exact bodyText?_of_writes h

/-- a hash is read from whatever writes a text of it -/
theorem hash?_of_spelled {h : Hash256} {b t : Bytes} (ht : h.Spelled t) (hb : Writes b t) :
    hash? (.string b) = some h := by
  rw [hash?, text?, bodyText?_of_ascii ht.ascii hb]
  simp only
  rw [Hash256.parse, utf8_ascii _ ht.ascii, Hash256.parseBytes_of_spelled ht]
  rfl

/-- and so is a host key -/
theorem hostKey?_of_spelled {k : HostKey} {b t : Bytes} (ht : k.Spelled t) (hb : Writes b t) :
    hostKey? (.string b) = some k := by
  rw [hostKey?, text?, bodyText?_of_ascii ht.ascii hb]
  simp only
  rw [HostKey.parse, utf8_ascii _ ht.ascii, HostKey.parseBytes_of_spelled ht]
  rfl

theorem hash?_ofHash (h : Hash256) : hash? (ofHash h) = some h :=
  hash?_of_spelled h.spelled_digits (writes_clear Hex.clear_digits)

theorem hostKey?_ofHost (k : HostKey) : hostKey? (ofHost k) = some k :=
  hostKey?_of_spelled k.spelled_digits (writes_clear (clear_host k))

end Json

end Reclaim

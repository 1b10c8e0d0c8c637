import Mathlib.Data.String.Basic

/-!
# Proofs/Text/ByteOrder — texts are ordered as their octets are

Listings are in byte order, while two texts are compared by their characters. Both orders are one:
of two characters the larger one has the larger octet at the first place where their octets part,
and neither character's octets begin with those of the other.

* `Text.parts_encode` — where the octets of two characters part.
* `Text.lt_iff_octets` — the order of texts is that of their octets.
-/

namespace RegistryFleet.Text

/-- **The octets of a text.** -/
def octets (s : String) : List UInt8 := s.toUTF8.data.toList

/-- The octets of a text are those of its characters, one after the other. -/
theorem octets_eq (s : String) : octets s = s.toList.flatMap String.utf8EncodeChar := by
  unfold octets String.toUTF8
  rw [← String.utf8Encode_toList, List.utf8Encode]
  simp

/-- **Two rows of octets part** at a place where the first one has the smaller octet. -/
def Parts : List UInt8 → List UInt8 → Prop
  | x :: l, y :: m => x < y ∨ x = y ∧ Parts l m
  | _, _ => False

/-- Rows that part are in order, whatever stands behind them. -/
theorem Parts.lt_append : ∀ {l m : List UInt8}, Parts l m → ∀ a b : List UInt8, l ++ a < m ++ b
  | _ :: _, _ :: _, .inl h, _, _ => List.cons_lt_cons_iff.2 (.inl h)
  | _ :: _, _ :: _, .inr ⟨h, hrest⟩, a, b =>
      List.cons_lt_cons_iff.2 (.inr ⟨h, hrest.lt_append a b⟩)

/-- Of two numbers the larger one has the larger digit at the first place where they part. -/
theorem digits_part {n m : Nat} (h : n < m) :
    n / 64 < m / 64 ∨ n / 64 = m / 64 ∧ n % 64 < m % 64 := by
  omega

/-- The bounds are numerals, so that arithmetic decides them where octets are compared. -/
theorem ofNat_lt_ofNat {n m : Nat} (hn : n < 256) (hm : m < 256) :
    UInt8.ofNat n < UInt8.ofNat m ↔ n < m :=
  UInt8.ofNat_lt_iff_lt hn hm

theorem ofNat_eq_ofNat {n m : Nat} (hn : n < 256) (hm : m < 256) :
    UInt8.ofNat n = UInt8.ofNat m ↔ n = m := by
  rw [← UInt8.toNat_inj, UInt8.toNat_ofNat_of_lt' hn, UInt8.toNat_ofNat_of_lt' hm]

/-- **The octets of two characters part** in the order of the characters. -/
theorem parts_encode {c d : Char} (h : c < d) :
    Parts (String.utf8EncodeChar c) (String.utf8EncodeChar d) := by
  have hcd : c.val.toNat < d.val.toNat := UInt32.lt_iff_toNat_lt.1 (Char.lt_def.1 h)
  have hd : d.val.toNat < 0x110000 := by
    have hvalid := d.valid
    simp only [UInt32.isValidChar, Nat.isValidChar] at hvalid
    omega
  simp only [String.utf8EncodeChar]
  generalize c.val.toNat = n at hcd ⊢
  generalize d.val.toNat = m at hcd hd ⊢
  have hlow := digits_part hcd
  have hmiddle : n / 64 < m / 64 →
      n / 4096 < m / 4096 ∨ n / 4096 = m / 4096 ∧ n / 64 % 64 < m / 64 % 64 := by
    simpa [Nat.div_div_eq_div_mul] using digits_part (n := n / 64) (m := m / 64)
  have hhigh : n / 4096 < m / 4096 →
      n / 262144 < m / 262144 ∨ n / 262144 = m / 262144 ∧ n / 4096 % 64 < m / 4096 % 64 := by
    simpa [Nat.div_div_eq_div_mul] using digits_part (n := n / 4096) (m := m / 4096)
  have htop : n / 262144 % 8 = n / 262144 ∧ m / 262144 % 8 = m / 262144 := by omega
  -- a longer row begins with a larger octet; rows of one length part at a digit of the numbers
  split_ifs <;> simp (disch := omega) only [Parts, ofNat_lt_ofNat, ofNat_eq_ofNat] <;> omega

theorem flatMap_encode_lt : ∀ {cs ds : List Char}, cs < ds →
    cs.flatMap String.utf8EncodeChar < ds.flatMap String.utf8EncodeChar
  | [], [], h => absurd h (List.lt_irrefl _)
  | [], d :: ds, _ => by
      obtain ⟨x, l, hx⟩ := List.exists_cons_of_ne_nil (String.utf8EncodeChar_ne_nil (c := d))
      rw [List.flatMap_cons, hx]
      exact List.nil_lt_cons _ _
  | _ :: _, [], h => absurd h (List.not_lt_nil _)
  | c :: cs, d :: ds, h => by
      rw [List.flatMap_cons, List.flatMap_cons]
      rcases List.cons_lt_cons_iff.1 h with hcd | ⟨rfl, hrest⟩
      · exact (parts_encode hcd).lt_append _ _
      · exact List.append_left_lt (flatMap_encode_lt hrest)

/-- **The order of texts is that of their octets.** -/
theorem lt_iff_octets {a b : String} : a < b ↔ octets a < octets b := by
  have hmono : ∀ {a b : String}, a < b → octets a < octets b := fun h => by
    rw [octets_eq, octets_eq]
    exact flatMap_encode_lt (String.lt_iff_toList_lt.1 h)
  refine ⟨hmono, fun h => ?_⟩
  rcases lt_trichotomy a b with hab | rfl | hba
  · exact hab
  · exact absurd h (List.lt_irrefl _)
  · exact absurd (hmono hba) (List.lt_asymm h)

end RegistryFleet.Text

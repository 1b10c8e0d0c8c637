import Mathlib.Algebra.Group.Nat.Defs
import RegistryFleet.Text.Base64
import RegistryFleet.Text.Digits
import RegistryFleet.Text.Utf8

/-!
# Proofs/Text/ReadBack — symbols and digits read back as what they write

Base 64 writes three octets in four symbols of six bits, hexadecimal digits write four bits each.
Both readers put the same bits together again, so each group reads back alone and what follows it
is left for the next one.
-/

namespace RegistryFleet.Text

/-! ## Base 64 -/

namespace Base64

theorem value?_symbol : ∀ {v : Nat}, v < 64 → value? (symbol v) = some v := by decide

@[simp] theorem value?_pad : value? '=' = none := by decide

private theorem octet_eq {n : Nat} {a : UInt8} (h : n = a.toNat) : UInt8.ofNat n = a := by
  rw [h, UInt8.ofNat_toNat]

/-- **A group of three octets.** -/
theorem decodeFull?_group (a b c : UInt8) :
    decodeFull? (symbol (a.toNat / 4)) (symbol (a.toNat % 4 * 16 + b.toNat / 16))
      (symbol (b.toNat % 16 * 4 + c.toNat / 64)) (symbol (c.toNat % 64)) = some [a, b, c] := by
  have ha : a.toNat < 256 := a.toNat_lt_size
  have hb : b.toNat < 256 := b.toNat_lt_size
  have hc : c.toNat < 256 := c.toNat_lt_size
  rw [decodeFull?, value?_symbol (by omega), value?_symbol (by omega),
    value?_symbol (by omega), value?_symbol (by omega)]
  simp only [Option.bind_eq_bind, Option.bind_some, Option.pure_def, Option.some.injEq,
    List.cons.injEq, and_true]
  exact ⟨octet_eq (by omega), octet_eq (by omega), octet_eq (by omega)⟩

theorem decodeLast?_group (a b c : UInt8) :
    decodeLast? (symbol (a.toNat / 4)) (symbol (a.toNat % 4 * 16 + b.toNat / 16))
      (symbol (b.toNat % 16 * 4 + c.toNat / 64)) (symbol (c.toNat % 64)) = some [a, b, c] := by
  have ha : a.toNat < 256 := a.toNat_lt_size
  have hb : b.toNat < 256 := b.toNat_lt_size
  have hc : c.toNat < 256 := c.toNat_lt_size
  simp only [decodeLast?, value?_symbol (show a.toNat / 4 < 64 by omega),
    value?_symbol (show a.toNat % 4 * 16 + b.toNat / 16 < 64 by omega),
    value?_symbol (show b.toNat % 16 * 4 + c.toNat / 64 < 64 by omega),
    value?_symbol (show c.toNat % 64 < 64 by omega), Option.bind_eq_bind, Option.bind_some,
    Option.some.injEq, List.cons.injEq, and_true]
  exact ⟨octet_eq (by omega), octet_eq (by omega), octet_eq (by omega)⟩

theorem decodeLast?_two (a b : UInt8) :
    decodeLast? (symbol (a.toNat / 4)) (symbol (a.toNat % 4 * 16 + b.toNat / 16))
      (symbol (b.toNat % 16 * 4)) '=' = some [a, b] := by
  have ha : a.toNat < 256 := a.toNat_lt_size
  have hb : b.toNat < 256 := b.toNat_lt_size
  have hfill : b.toNat % 16 * 4 % 4 = 0 := by omega
  simp only [decodeLast?, value?_symbol (show a.toNat / 4 < 64 by omega),
    value?_symbol (show a.toNat % 4 * 16 + b.toNat / 16 < 64 by omega),
    value?_symbol (show b.toNat % 16 * 4 < 64 by omega), value?_pad, Option.bind_eq_bind,
    Option.bind_some, hfill, and_self, if_true, Option.some.injEq, List.cons.injEq, and_true]
  exact ⟨octet_eq (by omega), octet_eq (by omega)⟩

theorem decodeLast?_one (a : UInt8) :
    decodeLast? (symbol (a.toNat / 4)) (symbol (a.toNat % 4 * 16)) '=' '=' = some [a] := by
  have ha : a.toNat < 256 := a.toNat_lt_size
  have hfill : a.toNat % 4 * 16 % 16 = 0 := by omega
  simp only [decodeLast?, value?_symbol (show a.toNat / 4 < 64 by omega),
    value?_symbol (show a.toNat % 4 * 16 < 64 by omega), value?_pad, Option.bind_eq_bind,
    Option.bind_some, hfill, and_self, if_true, Option.some.injEq, List.cons.injEq, and_true]
  exact octet_eq (by omega)

/-- **Octets read back** from their symbols. -/
theorem decodeList?_encodeList : ∀ octets : List UInt8,
    decodeList? (encodeList octets) = some octets
  | [] => rfl
  | [a] => decodeLast?_one a
  | [a, b] => decodeLast?_two a b
  | [a, b, c] => decodeLast?_group a b c
  | a :: b :: c :: d :: rest => by
      have ih := decodeList?_encodeList (d :: rest)
      obtain ⟨s, ss, hs⟩ : ∃ s ss, encodeList (d :: rest) = s :: ss := by
        rcases rest with _ | ⟨_, _ | ⟨_, _⟩⟩ <;> exact ⟨_, _, rfl⟩
      rw [encodeList, hs]
      rw [hs] at ih
      simp only [decodeList?, decodeFull?_group, ih, Option.bind_eq_bind, Option.bind_some,
        Option.pure_def, List.cons_append, List.nil_append]

theorem exists_symbol (v : Nat) : ∃ u < 64, symbol v = symbol u := by
  by_cases hv : v < 64
  · exact ⟨v, hv, rfl⟩
  · refine ⟨63, by decide, ?_⟩
    rw [symbol, if_neg (by omega), if_neg (by omega), if_neg (by omega), if_neg (by omega)]
    rfl

/-- What is written consists of the symbols and the padding. -/
theorem exists_of_mem_encodeList : ∀ {octets : List UInt8} {c : Char}, c ∈ encodeList octets →
    c = '=' ∨ ∃ v < 64, c = symbol v
  | [], _, h => absurd h List.not_mem_nil
  | [a], c, h => by
      simp only [encodeList, List.mem_cons, List.not_mem_nil, or_false] at h
      rcases h with rfl | rfl | rfl | rfl
      · exact .inr (exists_symbol _)
      · exact .inr (exists_symbol _)
      · exact .inl rfl
      · exact .inl rfl
  | [a, b], c, h => by
      simp only [encodeList, List.mem_cons, List.not_mem_nil, or_false] at h
      rcases h with rfl | rfl | rfl | rfl
      · exact .inr (exists_symbol _)
      · exact .inr (exists_symbol _)
      · exact .inr (exists_symbol _)
      · exact .inl rfl
  | a :: b :: d :: rest, c, h => by
      rw [encodeList] at h
      simp only [List.mem_cons] at h
      rcases h with rfl | rfl | rfl | rfl | h
      · exact .inr (exists_symbol _)
      · exact .inr (exists_symbol _)
      · exact .inr (exists_symbol _)
      · exact .inr (exists_symbol _)
      · exact exists_of_mem_encodeList h

theorem decode?_encode (s : String) : decode? (encode s) = some s.toUTF8.data.toList := by
  rw [decode?, encode, String.toList_ofList, decodeList?_encodeList]

end Base64

/-- **The octets of a text** are well formed and read as that text. -/
theorem Utf8.decode?_octets (s : String) : decode? s.toUTF8.data.toList = some s := by
  unfold decode? String.fromUTF8?
  have hoctets : (⟨s.toUTF8.data.toList.toArray⟩ : ByteArray) = s.toByteArray := by
    simp
  simp only [hoctets, s.isValidUTF8, dif_pos]
  rfl

/-! ## Hexadecimal digits -/

theorem digitValue?_upperDigit : ∀ d < 16, digitValue? (upperDigit d) = some d := by decide

theorem digitValue?_lowerDigit : ∀ d < 16, digitValue? (lowerDigit d) = some d := by decide

theorem continueNat?_append (base : Nat) (more : List Char) : ∀ (n : Nat) (cs : List Char),
    continueNat? base n (cs ++ more) = (continueNat? base n cs).bind (continueNat? base · more)
  | _, [] => rfl
  | n, c :: cs => by
      have ih := fun n => continueNat?_append base more n cs
      rw [List.cons_append, continueNat?, continueNat?]
      cases digitValue? c with
      | none => rfl
      | some d =>
        simp only [ih]
        split <;> rfl

/-- Digits of base sixteen, however they look, read back behind a number already read. -/
theorem continueNat?_hex {hex : Nat → Nat → List Char} {digit : Nat → Char}
    (hzero : ∀ n, hex 0 n = [])
    (hsucc : ∀ width n, hex (width + 1) n = hex width (n / 16) ++ [digit (n % 16)])
    (hdigit : ∀ d < 16, digitValue? (digit d) = some d) : ∀ (width acc n : Nat),
    continueNat? 16 acc (hex width n) = some (acc * 16 ^ width + n % 16 ^ width)
  | 0, acc, n => by simp [hzero, continueNat?, Nat.mod_one]
  | width + 1, acc, n => by
      have hlast : n % 16 < 16 := Nat.mod_lt _ (by decide)
      rw [hsucc, continueNat?_append, continueNat?_hex hzero hsucc hdigit width acc (n / 16),
        Option.bind_some, continueNat?, hdigit _ hlast]
      simp only [hlast, if_true, continueNat?, Option.some.injEq]
      rw [Nat.pow_succ, Nat.mul_comm (16 ^ width) 16, Nat.mod_mul, Nat.add_mul, Nat.mul_assoc,
        Nat.mul_comm (16 ^ width) 16]
      omega

theorem exists_digit_of_mem_hex {hex : Nat → Nat → List Char} {digit : Nat → Char}
    (hzero : ∀ n, hex 0 n = [])
    (hsucc : ∀ width n, hex (width + 1) n = hex width (n / 16) ++ [digit (n % 16)]) {c : Char} :
    ∀ {width n : Nat}, c ∈ hex width n → ∃ d < 16, c = digit d
  | 0, n, h => by
      rw [hzero] at h
      cases h
  | width + 1, n, h => by
      rw [hsucc, List.mem_append, List.mem_singleton] at h
      rcases h with h | rfl
      · exact exists_digit_of_mem_hex hzero hsucc h
      · exact ⟨n % 16, Nat.mod_lt _ (by decide), rfl⟩

theorem exists_of_mem_upperHex {c : Char} {width n : Nat} (h : c ∈ upperHex width n) :
    ∃ d < 16, c = upperDigit d := exists_digit_of_mem_hex (fun _ => rfl) (fun _ _ => rfl) h

theorem exists_of_mem_lowerHex {c : Char} {width n : Nat} (h : c ∈ lowerHex width n) :
    ∃ d < 16, c = lowerDigit d := exists_digit_of_mem_hex (fun _ => rfl) (fun _ _ => rfl) h

theorem readNat?_of_continueNat? {base n : Nat} {cs : List Char} (hne : cs ≠ [])
    (h : continueNat? base 0 cs = some n) : readNat? base cs = some n := by
  cases cs with
  | nil => exact absurd rfl hne
  | cons c cs => exact h

/-- **Digits in upper case** read back, if they are enough. -/
theorem readNat?_upperHex {width n : Nat} (hwidth : width ≠ 0) (hn : n < 16 ^ width) :
    readNat? 16 (upperHex width n) = some n := by
  refine readNat?_of_continueNat? ?_ ?_
  · rw [← List.length_pos_iff, length_upperHex]
    omega
  · rw [continueNat?_hex (fun _ => rfl) (fun _ _ => rfl) digitValue?_upperDigit,
      Nat.mod_eq_of_lt hn, Nat.zero_mul, Nat.zero_add]

/-- **Digits in lower case** read back, if they are enough. -/
theorem readNat?_lowerHex {width n : Nat} (hwidth : width ≠ 0) (hn : n < 16 ^ width) :
    readNat? 16 (lowerHex width n) = some n := by
  refine readNat?_of_continueNat? ?_ ?_
  · rw [← List.length_pos_iff, length_lowerHex]
    omega
  · rw [continueNat?_hex (fun _ => rfl) (fun _ _ => rfl) digitValue?_lowerDigit,
      Nat.mod_eq_of_lt hn, Nat.zero_mul, Nat.zero_add]

end RegistryFleet.Text

import RegistryFleet.Proofs.Text.ReadBack
import RegistryFleet.Web.Percent

/-!
# Proofs/Web/Percent — reading back what was escaped

An escape stands for an octet, so a text that brings no escape of its own is read back, octet by
octet, from what escaping makes of it: no two such texts are escaped to the same.

* `percentDecode_percentEncode` — escaping is undone.
* `percentEncode_inj` — texts without escapes are told apart.
* `mem_percentEncode` — the characters of an escaped text.
-/

namespace RegistryFleet.Web

open Text (upperHex upperDigit readNat?)

variable {set : Char → Bool} {cs : List Char} {c : Char}

/-- Does an escape stand anywhere in the text? -/
def hasEscape : List Char → Bool
  | '%' :: a :: b :: rest => (readNat? 16 [a, b]).isSome || hasEscape (a :: b :: rest)
  | _ :: rest => hasEscape rest
  | [] => false

theorem hasEscape_of_cons : ∀ {cs : List Char}, hasEscape (c :: cs) = false →
    hasEscape cs = false := by
  intro cs h
  unfold hasEscape at h
  split at h
  · next hcs =>
    obtain ⟨-, rfl⟩ := List.cons.inj hcs
    exact (Bool.or_eq_false_iff.1 h).2
  · next hcs =>
    obtain ⟨-, rfl⟩ := List.cons.inj hcs
    exact h
  · next hcs => cases hcs

/-! ## Octets -/

/-- **An escape stands for its octet.** -/
theorem percentDecode_escapeOctet (octet : UInt8) (rest : List Char) :
    percentDecode (escapeOctet octet ++ rest) = octet :: percentDecode rest := by
  have hread : readNat? 16 (upperHex 2 octet.toNat) = some octet.toNat :=
    Text.readNat?_upperHex (by decide) octet.toNat_lt_size
  obtain ⟨a, b, hhex⟩ : ∃ a b, upperHex 2 octet.toNat = [a, b] := ⟨_, _, rfl⟩
  rw [hhex] at hread
  rw [escapeOctet, hhex, List.cons_append, List.cons_append, List.cons_append, List.nil_append,
    percentDecode.eq_2, hread]
  simp only [UInt8.ofNat_toNat]

theorem percentDecode_escapeOctets (rest : List Char) : ∀ octets : List UInt8,
    percentDecode (octets.flatMap escapeOctet ++ rest) = octets ++ percentDecode rest
  | [] => rfl
  | octet :: octets => by
      rw [List.flatMap_cons, List.append_assoc, percentDecode_escapeOctet,
        percentDecode_escapeOctets rest octets, List.cons_append]

/-! ## Texts -/

/-- What escaping makes of one character. -/
def percentEncodeChar (set : Char → Bool) (c : Char) : List Char :=
  if isForeign c || set c then (String.utf8EncodeChar c).flatMap escapeOctet else [c]

theorem percentEncode_cons :
    percentEncode set (c :: cs) = percentEncodeChar set c ++ percentEncode set cs := rfl

@[simp] theorem percentEncode_append {cs' : List Char} :
    percentEncode set (cs ++ cs') = percentEncode set cs ++ percentEncode set cs' :=
  List.flatMap_append

theorem percentEncodeChar_of_kept (h : isForeign c = false ∧ set c = false) :
    percentEncodeChar set c = [c] := by
  rw [percentEncodeChar, h.1, h.2]
  rfl

/-- A mark of an escape is no digit. -/
theorem not_readNat?_mark (a : Char) :
    readNat? 16 ['%', a] = none ∧ readNat? 16 [a, '%'] = none := by
  refine ⟨rfl, ?_⟩
  rw [readNat?, Text.continueNat?]
  · split
    · split <;> rfl
    · rfl
  · rintro ⟨⟩

/-- An escaped character begins with the mark of an escape. -/
theorem percentEncodeChar_cases (set : Char → Bool) (c : Char) :
    percentEncodeChar set c = [c] ∨ ∃ rest, percentEncodeChar set c = '%' :: rest := by
  unfold percentEncodeChar
  split
  · rcases hoctets : String.utf8EncodeChar c with _ | ⟨octet, octets⟩
    · exact absurd hoctets String.utf8EncodeChar_ne_nil
    · exact .inr ⟨_, rfl⟩
  · exact .inl rfl

/-- How an escaped text begins: with the mark of an escape, or as the text does. -/
theorem percentEncode_eq_cons {a : Char} {rest : List Char} :
    ∀ {cs : List Char}, percentEncode set cs = a :: rest →
      a = '%' ∨ ∃ cs', cs = a :: cs' ∧ percentEncode set cs' = rest
  | c :: cs, h => by
      rw [percentEncode_cons] at h
      rcases percentEncodeChar_cases set c with hchar | ⟨_, hchar⟩
      · rw [hchar] at h
        obtain ⟨rfl, hrest⟩ := List.cons.inj h
        exact .inr ⟨cs, rfl, hrest⟩
      · rw [hchar] at h
        exact .inl (List.cons.inj h).1.symm

/-- **Escaping makes no escape** of a mark that began none. -/
theorem percentDecode_mark (h : hasEscape ('%' :: cs) = false) :
    percentDecode ('%' :: percentEncode set cs)
      = String.utf8EncodeChar '%' ++ percentDecode (percentEncode set cs) := by
  rcases hcs : percentEncode set cs with _ | ⟨a, _ | ⟨b, rest⟩⟩
  · rfl
  · rfl
  have hread : readNat? 16 [a, b] = none := by
    rcases percentEncode_eq_cons hcs with rfl | ⟨cs₁, rfl, hcs₁⟩
    · exact (not_readNat?_mark b).1
    rcases percentEncode_eq_cons hcs₁ with rfl | ⟨cs₂, rfl, -⟩
    · exact (not_readNat?_mark a).2
    · exact Option.not_isSome_iff_eq_none.1 (ne_true_of_eq_false (Bool.or_eq_false_iff.1 h).1)
  rw [percentDecode.eq_2, hread]

/-- **Escaping is undone** by reading the escapes, of a text that brings none of its own. -/
theorem percentDecode_percentEncode (hset : set '%' = false) : ∀ {cs : List Char},
    hasEscape cs = false → percentDecode (percentEncode set cs) = cs.flatMap String.utf8EncodeChar
  | [], _ => rfl
  | c :: cs, h => by
      have ih := percentDecode_percentEncode hset (hasEscape_of_cons h)
      rw [percentEncode_cons, List.flatMap_cons, ← ih]
      by_cases hkept : isForeign c || set c
      · rw [percentEncodeChar, if_pos hkept, percentDecode_escapeOctets]
      · rw [percentEncodeChar, if_neg hkept, List.singleton_append]
        by_cases hmark : c = '%'
        · rw [hmark] at h ⊢
          exact percentDecode_mark h
        · exact percentDecode.eq_3 c _ fun _ _ _ hc => absurd hc hmark

/-- Texts are told apart by their octets. -/
theorem octets_inj {cs cs' : List Char}
    (h : cs.flatMap String.utf8EncodeChar = cs'.flatMap String.utf8EncodeChar) : cs = cs' := by
  refine String.ofList_inj.1 (String.toByteArray_inj.1 ?_)
  rw [String.toByteArray_ofList, String.toByteArray_ofList, List.utf8Encode, List.utf8Encode, h]

/-- **Texts without escapes are told apart** by what they are escaped to. -/
theorem percentEncode_inj (hset : set '%' = false) {cs cs' : List Char}
    (hcs : hasEscape cs = false) (hcs' : hasEscape cs' = false)
    (h : percentEncode set cs = percentEncode set cs') : cs = cs' :=
  octets_inj (by
    rw [← percentDecode_percentEncode hset hcs, h, percentDecode_percentEncode hset hcs'])

/-- **The characters of an escaped text**: those of the text, and those of escapes. -/
theorem mem_percentEncode (h : c ∈ percentEncode set cs) :
    c ∈ cs ∨ c = '%' ∨ ∃ d < 16, c = upperDigit d := by
  obtain ⟨c', hc', hc⟩ := List.mem_flatMap.1 h
  split at hc
  · obtain ⟨octet, -, hc⟩ := List.mem_flatMap.1 hc
    exact (List.mem_cons.1 hc).elim (fun h => .inr (.inl h))
      fun h => .inr (.inr (Text.exists_of_mem_upperHex h))
  · exact .inl (List.mem_singleton.1 hc ▸ hc')

/-- A character that is not escaped is still there. -/
theorem mem_percentEncode_of_kept (hkept : isForeign c = false ∧ set c = false) (h : c ∈ cs) :
    c ∈ percentEncode set cs :=
  List.mem_flatMap.2 ⟨c, h, by
    rw [hkept.1, hkept.2]
    exact List.mem_singleton_self c⟩

end RegistryFleet.Web

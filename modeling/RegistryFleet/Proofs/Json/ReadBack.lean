import RegistryFleet.Json.Node
import RegistryFleet.Json.Writer
import RegistryFleet.Proofs.Text.ReadBack

/-!
# Proofs/Json/ReadBack — what is written on one line is read again

A character between quotes is written in one of three ways, and each is read as the number of that
character. So a text reads back whatever it holds, and a record of one field whatever its key.
-/

namespace RegistryFleet.Json

/-! ## Texts -/

theorem character?_toNat (c : Char) : character? c.toNat = some c := by
  have hvalid : c.toNat.isValidChar := c.valid
  rw [character?, dif_pos hvalid]
  exact congrArg some (Char.ext rfl)

/-- The number of a character is no half of one. -/
theorem isHigh_toNat (c : Char) : isHigh c.toNat = false := by
  have hvalid : c.toNat.isValidChar := c.valid
  unfold Nat.isValidChar at hvalid
  simp only [isHigh, Bool.and_eq_false_iff, decide_eq_false_iff_not]
  omega

theorem characters?_map_toNat : ∀ cs : List Char, characters? (cs.map Char.toNat) = some cs
  | [] => rfl
  | [c] => by simp [characters?, character?_toNat]
  | c :: d :: cs => by
      have ih := characters?_map_toNat (d :: cs)
      rw [List.map_cons] at ih
      simp only [List.map_cons, characters?, isHigh_toNat, Bool.false_and, Bool.false_eq_true,
        if_false, character?_toNat, ih, Option.bind_eq_bind, Option.bind_some, Option.pure_def]

/-- Four lower-case digits are one unit. -/
theorem codes?_unit {n : Nat} (hn : n < 16 ^ 4) (rest : List Char) :
    codes? ('\\' :: 'u' :: (Text.lowerHex 4 n ++ rest))
      = (codes? rest).map fun p => (n :: p.1, p.2) := by
  have hread := Text.readNat?_lowerHex (show 4 ≠ 0 by decide) hn
  simp only [Text.lowerHex, List.nil_append, List.cons_append] at hread ⊢
  rw [codes?, unit?, hread]
  cases codes? rest <;> rfl

/-- A character that stands for itself between quotes. -/
theorem codes?_plain {c : Char} (hquote : c ≠ '"') (hslash : c ≠ '\\') (hcode : ¬ c.toNat < 32)
    (rest : List Char) : codes? (c :: rest) = (codes? rest).map fun p => (c.toNat :: p.1, p.2) := by
  rw [codes?.eq_def (c :: rest)]
  split
  · next he => cases he
  · next he => exact absurd (List.cons.inj he).1 hquote
  · next he => exact absurd (List.cons.inj he).1 hslash
  · next he => exact absurd (List.cons.inj he).1 hslash
  · next he =>
    obtain ⟨rfl, rfl⟩ := List.cons.inj he
    have hplain : (c == '\\' || decide (c.toNat < 32)) = false := by simp [hslash, hcode]
    rw [if_neg (by simp [hplain])]
    cases codes? rest <;> rfl

/-- A character that is escaped by a letter. -/
theorem codes?_letter {e c : Char} (hletter : unescape? e = some c) (hunit : e ≠ 'u')
    (rest : List Char) :
    codes? ('\\' :: e :: rest) = (codes? rest).map fun p => (c.toNat :: p.1, p.2) := by
  rw [codes?, hletter]
  · cases codes? rest <;> rfl
  · exact fun _ _ _ _ _ he _ => hunit he

/-- **A character written** between quotes. -/
theorem codes?_escaped (c : Char) (rest : List Char) :
    codes? (escaped c ++ rest) = (codes? rest).map fun p => (c.toNat :: p.1, p.2) := by
  unfold escaped
  split
  · exact codes?_letter rfl (by decide) rest
  · exact codes?_letter rfl (by decide) rest
  · exact codes?_letter rfl (by decide) rest
  · exact codes?_letter rfl (by decide) rest
  · exact codes?_letter rfl (by decide) rest
  · next hquote hslash _ _ _ =>
    split
    · next h => rw [h]; exact codes?_letter (e := 'b') (c := '\x08') rfl (by decide) rest
    · split
      · next h => rw [h]; exact codes?_letter (e := 'f') (c := '\x0c') rfl (by decide) rest
      · split
        · next h => exact codes?_unit (by omega) rest
        · next h => exact codes?_plain hquote hslash h rest

theorem codes?_quoted (rest : List Char) : ∀ cs : List Char,
    codes? (cs.flatMap escaped ++ '"' :: rest) = some (cs.map Char.toNat, rest)
  | [] => rfl
  | c :: cs => by
      rw [List.flatMap_cons, List.append_assoc, codes?_escaped, codes?_quoted rest cs]
      rfl

/-- **A text between quotes.** -/
theorem string?_quoted (cs rest : List Char) :
    string? (cs.flatMap escaped ++ '"' :: rest) = some (some cs, rest) := by
  rw [string?, codes?_quoted]
  exact congrArg (fun o => some (o, rest)) (characters?_map_toNat cs)

theorem toList_quote (s : String) (rest : List Char) :
    (quote s).toList ++ rest = '"' :: (s.toList.flatMap escaped ++ '"' :: rest) := by
  simp [quote]

/-! ## Values -/

theorem skipSpace_of_head {c : Char} {cs : List Char} (h : isSpace c = false) :
    skipSpace (c :: cs) = c :: cs := by
  rw [skipSpace, List.dropWhile_cons, if_neg (by simp [h])]

theorem value_quote (fuel : Nat) (s : String) (rest : List Char) :
    value (fuel + 1) ((quote s).toList ++ rest) = (.text s, some rest) := by
  rw [toList_quote, value, skipSpace_of_head rfl]
  simp only [string?_quoted, String.ofList_toList]

/-- **A record of one field** reads as its field, if the value does. -/
theorem value_field {fuel : Nat} {k : String} {d : Data} {n : Node} {rest : List Char}
    (hd : value fuel ((compact d).toList ++ '\x7d' :: rest) = (n, some ('\x7d' :: rest))) :
    value (fuel + 2) ((compact (.record [(k, d)])).toList ++ rest)
      = (.record [(k, n)] false, some rest) := by
  have htext : (compact (.record [(k, d)])).toList ++ rest
      = '\x7b' :: '"' :: (k.toList.flatMap escaped
        ++ '"' :: ':' :: ((compact d).toList ++ '\x7d' :: rest)) := by
    simp [compact, compactFields, quote, String.toList_append]
  have hmembers : members (fuel + 1) ('"' :: (k.toList.flatMap escaped
      ++ '"' :: ':' :: ((compact d).toList ++ '\x7d' :: rest))) = ([(k, n)], false, some rest) := by
    rw [members, skipSpace_of_head rfl]
    simp only [string?_quoted]
    rw [skipSpace_of_head rfl]
    simp only [hd]
    rw [skipSpace_of_head rfl]
    simp only [String.ofList_toList]
  rw [htext, value, skipSpace_of_head rfl]
  simp only [skipSpace_of_head (show isSpace '"' = false from rfl)]
  split
  · next he => exact absurd (List.cons.inj he).1 (by decide)
  · rw [hmembers]

/-- The tree of a text that one value fills. -/
theorem ofText_of_value {text : String} {n : Node}
    (h : value (2 * text.length + 2) text.toList = (n, some [])) : ofText text = (n, true) := by
  rw [ofText, h]
  rfl

end RegistryFleet.Json

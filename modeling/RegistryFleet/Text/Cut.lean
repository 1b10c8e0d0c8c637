/-!
# Text/Cut — cutting text at the first occurrence of a mark

Endpoints, triggers, credentials and repository names are all read by cutting at the first
occurrence of a character or of a short mark. Each cut loses nothing but the mark.
-/

namespace RegistryFleet.Text

/-- The characters in front of the first `d`, or all of them. -/
def before (d : Char) (cs : List Char) : List Char :=
  cs.takeWhile (· != d)

/-- **Cut at a character** — what stands before and after the first `d`, if there is one. -/
def cutAt? (d : Char) : List Char → Option (List Char × List Char)
  | [] => none
  | c :: cs =>
    if c = d then some ([], cs)
    else (cutAt? d cs).map fun (front, back) => (c :: front, back)

/-- **Cut at a mark** — what stands before and after the first occurrence of `mark`. -/
def cutAtMark? (mark : List Char) : List Char → Option (List Char × List Char)
  | [] => if mark.isEmpty then some ([], []) else none
  | c :: cs =>
    match mark.isPrefixOf? (c :: cs) with
    | some back => some ([], back)
    | none => (cutAtMark? mark cs).map fun (front, back) => (c :: front, back)

/-- The text after `mark`, when the text begins with it. -/
def stripMark? (mark s : String) : Option String :=
  (mark.toList.isPrefixOf? s.toList).map String.ofList

/-- Writes `image` wherever `d` stands. -/
def replaceChar (d : Char) (image : List Char) (cs : List Char) : List Char :=
  cs.flatMap fun c => if c = d then image else [c]

theorem cutAt?_eq_none_iff {d : Char} : ∀ {cs : List Char}, cutAt? d cs = none ↔ d ∉ cs
  | [] => by simp [cutAt?]
  | c :: cs => by
      by_cases h : c = d
      · simp [cutAt?, h]
      · have ih : cutAt? d cs = none ↔ d ∉ cs := cutAt?_eq_none_iff
        simp [cutAt?, h, ih, Ne.symm h]

theorem eq_append_of_cutAt? {d : Char} : ∀ {cs front back : List Char},
    cutAt? d cs = some (front, back) → cs = front ++ d :: back ∧ d ∉ front
  | [], _, _, h => by simp [cutAt?] at h
  | c :: cs, front, back, h => by
      by_cases hc : c = d
      · simp only [cutAt?, hc, if_true, Option.some.injEq, Prod.mk.injEq] at h
        obtain ⟨rfl, rfl⟩ := h
        simp [hc]
      · simp only [cutAt?, hc, if_false, Option.map_eq_some_iff] at h
        obtain ⟨⟨f, b⟩, hf, he⟩ := h
        obtain ⟨rfl, rfl⟩ := Prod.mk.inj he
        obtain ⟨rfl, hd⟩ := eq_append_of_cutAt? hf
        simp [hd, Ne.symm hc]

theorem cutAt?_append {d : Char} : ∀ {front : List Char} (back : List Char), d ∉ front →
    cutAt? d (front ++ d :: back) = some (front, back)
  | [], back, _ => by simp [cutAt?]
  | c :: front, back, h => by
      have hc : c ≠ d := fun he => h (by simp [he])
      have hf : d ∉ front := fun hm => h (List.mem_cons_of_mem _ hm)
      simp [cutAt?, hc, cutAt?_append back hf]

end RegistryFleet.Text

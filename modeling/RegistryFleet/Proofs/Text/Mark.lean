import Mathlib.Data.String.Basic
import RegistryFleet.Text.Cut

/-!
# Proofs/Text/Mark — what stands behind a mark

A mark is stripped from the beginning of a text, or a text is cut where a mark stands first. In both
cases nothing is lost but the mark.

* `Text.stripMark?_eq_some_iff` — what is left of a text without its mark.
* `Text.cutAtMark?_append` — a text is cut where the mark stands first.
-/

namespace RegistryFleet.Text

/-! ## Marks at the beginning -/

/-- A text without its mark is what stands behind the mark. -/
theorem stripMark?_eq_some_iff {mark s rest : String} :
    stripMark? mark s = some rest ↔ s = mark ++ rest := by
  rw [stripMark?, Option.map_eq_some_iff]
  constructor
  · rintro ⟨cs, hcs, rfl⟩
    rw [← String.toList_inj, String.toList_append, String.toList_ofList]
    exact (List.isPrefixOf?_eq_some_iff_append_eq.1 hcs).symm
  · rintro rfl
    exact ⟨rest.toList, List.isPrefixOf?_eq_some_iff_append_eq.2 String.toList_append.symm,
      String.ofList_toList⟩

theorem stripMark?_append (mark rest : String) : stripMark? mark (mark ++ rest) = some rest :=
  stripMark?_eq_some_iff.2 rfl

/-! ## Marks inside -/

/-- A text is cut at the first occurrence of a mark. -/
theorem cutAtMark?_append {d : Char} {mark : List Char} : ∀ {front : List Char}
    (back : List Char), d ∉ front →
      cutAtMark? (d :: mark) (front ++ (d :: mark) ++ back) = some (front, back)
  | [], back, _ => by
      have hmark : (d :: mark).isPrefixOf? (d :: (mark ++ back)) = some back :=
        List.isPrefixOf?_eq_some_iff_append_eq.2 rfl
      rw [List.nil_append, List.cons_append, cutAtMark?, hmark]
  | c :: front, back, h => by
      obtain ⟨hc, hfront⟩ := not_or.1 (mt List.mem_cons.2 h)
      have hnone : (d :: mark).isPrefixOf? (c :: (front ++ (d :: mark) ++ back)) = none := by
        rw [List.isPrefixOf?, beq_false_of_ne hc]
        rfl
      rw [List.cons_append, List.cons_append, cutAtMark?, hnone, cutAtMark?_append back hfront]
      rfl

theorem eq_append_of_cutAtMark? {mark : List Char} : ∀ {cs front back : List Char},
    cutAtMark? mark cs = some (front, back) → cs = front ++ mark ++ back
  | [], front, back, h => by
      rw [cutAtMark?] at h
      split at h
      · next hmark =>
        obtain ⟨rfl, rfl⟩ := Prod.mk.inj (Option.some.inj h)
        simpa using hmark
      · cases h
  | c :: cs, front, back, h => by
      rw [cutAtMark?] at h
      split at h
      · next back' hback =>
        obtain ⟨rfl, rfl⟩ := Prod.mk.inj (Option.some.inj h)
        rw [List.nil_append]
        exact (List.isPrefixOf?_eq_some_iff_append_eq.1 hback).symm
      · obtain ⟨⟨front', back'⟩, hcut, he⟩ := Option.map_eq_some_iff.1 h
        obtain ⟨rfl, rfl⟩ := Prod.mk.inj he
        rw [eq_append_of_cutAtMark? hcut]
        simp

end RegistryFleet.Text
